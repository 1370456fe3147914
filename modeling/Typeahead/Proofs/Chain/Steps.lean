/-
# Links are read as steps

What is left of a chain without its arguments is read one step after the other: a name takes all the
calls behind it at once. Blanks in front of a separator and the marks of optional members and
indexes are passed over.

Key definitions: `Resumes`, `readOn`, `ReadAs`.
Key theorems: `indexLength?_closed`, `ReadAs.trans`, `readAs_link`, `readAs_placedText`.
-/
import Mathlib.Data.List.TakeWhile
import Typeahead.Proofs.Chain.Strip

namespace Typeahead

open Text Chain

/-! ### Indexes -/

theorem indexLength?_quoted {mark : Char} {body : List Char} (h : QuotedBody mark body) (depth : Nat)
    (rest : List Char) : indexLength? (.between mark) depth (body ++ rest) =
      (indexLength? (.between mark) depth rest).map (· + body.length) := by
  induction h with
  | nil => simp
  | plain hm hb _ ih =>
    rw [List.cons_append, indexLength?, if_neg (by simp), if_neg (by simp), next_between hm hb, ih]
    simp [Function.comp_def, Nat.add_assoc]
  | @escaped c body _ ih =>
    rw [List.cons_append, indexLength?, if_neg (by simp), if_neg (by simp), List.cons_append, indexLength?,
      if_neg (by simp [Quoting.next]), if_neg (by simp [Quoting.next])]
    have hnext : Quoting.next (Quoting.next (.between mark) '\\') c = .between mark := rfl
    rw [hnext, ih]
    simp [Function.comp_def, Nat.add_assoc]

theorem indexLength?_plain {c : Char} (h1 : c ≠ '[') (h2 : c ≠ ']') (q : Quoting) (depth : Nat) (rest : List Char) :
    indexLength? q depth (c :: rest) = (indexLength? (q.next c) depth rest).map (· + 1) := by
  rw [indexLength?, if_neg (by simp [h2]), if_neg (by simp [h1])]

theorem indexLength?_pair {opening closing : Char} (h : BracketPair opening closing) (depth : Nat) : ∃ inside,
    (∀ rest, indexLength? .outside (depth + 1) (opening :: rest) =
      (indexLength? .outside (inside + 1) rest).map (· + 1)) ∧
    ∀ rest, indexLength? .outside (inside + 1) (closing :: rest) =
      (indexLength? .outside (depth + 1) rest).map (· + 1) := by
  cases h with
  | round => exact ⟨depth, indexLength?_plain (by decide) (by decide) _ _,
      indexLength?_plain (by decide) (by decide) _ _⟩
  | square =>
    refine ⟨depth + 1, fun rest => ?_, fun rest => ?_⟩
    · rw [indexLength?, if_neg (by decide), if_pos ⟨rfl, rfl⟩]
    · rw [indexLength?, if_pos ⟨rfl, rfl⟩, if_neg (by omega), Nat.add_sub_cancel]
  | curly => exact ⟨depth, indexLength?_plain (by decide) (by decide) _ _,
      indexLength?_plain (by decide) (by decide) _ _⟩

/-- **A closed text in an index is passed.** -/
theorem indexLength?_closed {text : List Char} (h : Closed text) : ∀ (depth : Nat) (rest : List Char),
    indexLength? .outside (depth + 1) (text ++ rest) =
      (indexLength? .outside (depth + 1) rest).map (· + text.length) := by
  induction h with
  | nil => intro depth rest; simp
  | @plain c text hq ho hc _ ih =>
    intro depth rest
    have h1 : c ≠ '[' := by rintro rfl; cases ho
    have h2 : c ≠ ']' := by rintro rfl; cases hc
    rw [List.cons_append, indexLength?_plain h1 h2, next_outside hq, ih]
    simp only [Option.map_map, Function.comp_def, List.length_cons]
    exact congrArg (Option.map · _) (funext fun n => by omega)
  | @quoted mark body text hq hbody _ ih =>
    intro depth rest
    have hm : mark ≠ '[' ∧ mark ≠ ']' := by constructor <;> rintro rfl <;> cases hq
    rw [List.cons_append, indexLength?_plain hm.1 hm.2, next_quote hq, List.append_assoc,
      indexLength?_quoted hbody, List.cons_append, indexLength?_plain hm.1 hm.2,
      next_mark (isQuote_ne_backslash hq), ih]
    simp only [Option.map_map, Function.comp_def, List.length_cons, List.length_append]
    exact congrArg (Option.map · _) (funext fun n => by omega)
  | @group opening closing inner text hpair _ _ ihinner ih =>
    intro depth rest
    obtain ⟨inside, hopen, hclose⟩ := indexLength?_pair hpair depth
    rw [List.cons_append, hopen, List.append_assoc, ihinner, List.cons_append, hclose, ih]
    simp only [Option.map_map, Function.comp_def, List.length_cons, List.length_append]
    exact congrArg (Option.map · _) (funext fun n => by omega)

/-! ### Calls -/

/-- So many calls without arguments. -/
def callsText (calls : Nat) : List Char := (List.replicate calls ['(', ')']).flatten

theorem callsText_succ (calls : Nat) : callsText (calls + 1) = '(' :: ')' :: callsText calls := rfl

theorem length_callsText (calls : Nat) : (callsText calls).length = 2 * calls := by
  simp [callsText, Nat.mul_comm]

/-- A text that begins with a step other than a call, or is empty. -/
inductive BeginsStep : List Char → Prop where
  | nil : BeginsStep []
  | dot (rest) : BeginsStep ('.' :: rest)
  | optional (rest) : BeginsStep ('?' :: '.' :: rest)
  | index (rest) : BeginsStep ('[' :: rest)

/-- Behind blanks a step other than a call begins, or the text ends. -/
def Resumes (text : List Char) : Prop :=
  ∃ space rest, (∀ c ∈ space, isBlank c = true) ∧ BeginsStep rest ∧ text = space ++ rest

theorem BeginsStep.resumes {rest : List Char} (h : BeginsStep rest) : Resumes rest :=
  ⟨[], rest, List.forall_mem_nil _, h, rfl⟩

/-- A name, and the calls behind it, end where this text begins. -/
structure EndsName (rest : List Char) : Prop where
  noCall : callCount rest = 0
  noName : ∀ c ∈ rest.head?, isIdentifierPart c = false

theorem Resumes.endsName {text : List Char} (h : Resumes text) : EndsName text := by
  obtain ⟨space, rest, hspace, hrest, rfl⟩ := h
  cases space with
  | nil =>
    have hmark : ∀ d ∈ ['.', '?', '['], isIdentifierPart d = false := fun d hd =>
      isIdentifierPart_chainMarks d (by revert d; decide)
    refine ⟨by cases hrest <;> rfl, fun c hc => hmark c ?_⟩
    cases hrest <;> simp at hc <;> simp [← hc]
  | cons c space =>
    have hc := hspace c List.mem_cons_self
    have hround : c ≠ '(' := by rintro rfl; cases hc
    refine ⟨?_, fun d hd => ?_⟩
    · unfold callCount
      split
      · next h => exact absurd (List.cons.inj h).1 hround
      · rfl
    · obtain rfl : c = d := Option.some.inj hd
      by_contra hname
      rw [not_isBlank_of_isIdentifierPart (Bool.of_not_eq_false hname)] at hc
      cases hc

theorem callCount_callsText {rest : List Char} (h : EndsName rest) :
    ∀ calls, callCount (callsText calls ++ rest) = calls
  | 0 => h.noCall
  | calls + 1 => by rw [callsText_succ, List.cons_append, List.cons_append, callCount, callCount_callsText h calls]

theorem not_isIdentifierPart_callsText {rest : List Char} (h : EndsName rest) (calls : Nat) :
    ∀ c ∈ (callsText calls ++ rest).head?, isIdentifierPart c = false := by
  intro c hc
  cases calls with
  | zero => exact h.noName c hc
  | succ calls =>
    rw [callsText_succ, List.cons_append, List.head?_cons, Option.mem_some_iff] at hc
    rw [← hc]
    exact isIdentifierPart_chainMarks '(' (by decide)

theorem takeWhile_name {name rest : List Char} (hname : ∀ c ∈ name, isIdentifierPart c = true)
    (hrest : ∀ c ∈ rest.head?, isIdentifierPart c = false) : (name ++ rest).takeWhile isIdentifierPart = name := by
  have : rest.takeWhile isIdentifierPart = [] := by
    cases rest with
    | nil => rfl
    | cons c rest => exact List.takeWhile_cons_of_neg (by simp [hrest c rfl])
  rw [List.takeWhile_append_of_pos hname, this, List.append_nil]

/-! ### Steps -/

/-- The steps of a text behind `count` others and the ones that were `found` next. -/
def readOn (count : Nat) (found : List ChainStep) (rest : List Char) : Option (List ChainStep) :=
  if stepLimit < count + found.length then none
  else (stepsFrom? (count + found.length) rest).map (found ++ ·)

/-- A text is read as steps in front of what is left, however many steps came before. -/
def ReadAs (text : List Char) (found : List ChainStep) (rest : List Char) : Prop :=
  ∀ count, stepsFrom? count text = readOn count found rest

theorem readAs_step {text : List Char} {found : List ChainStep} {length : Nat}
    (h : stepAt? text = some (found, length)) : ReadAs text found (text.drop length) := by
  intro count
  cases text with
  | nil => cases h
  | cons c text =>
    rw [stepsFrom?]
    split
    · rename_i hnone
      rw [h] at hnone
      cases hnone
    · rename_i found' length' hsome
      rw [h] at hsome
      cases hsome
      rfl

/-- What is read after another is read after it. -/
theorem ReadAs.trans {text middle rest : List Char} {found later : List ChainStep} (h : ReadAs text found middle)
    (hmiddle : ReadAs middle later rest) : ReadAs text (found ++ later) rest := by
  intro count
  rw [h, readOn, hmiddle, readOn, readOn, List.length_append, ← Nat.add_assoc]
  by_cases hall : stepLimit < count + found.length + later.length
  · rw [if_pos hall, if_pos hall]
    split <;> rfl
  · rw [if_neg hall, if_neg hall, if_neg (by omega), Option.map_map]
    simp [Function.comp_def]

theorem ReadAs.eq_none {text rest : List Char} {found : List ChainStep} (h : ReadAs text found rest)
    (hrest : ∀ count, stepsFrom? count rest = none) (count : Nat) : stepsFrom? count text = none := by
  rw [h, readOn, hrest]
  split <;> rfl

theorem stepAt?_blank {c : Char} (hc : isBlank c = true) (rest : List Char) :
    stepAt? (c :: rest) = some ([], 1) := by
  have hmarks : c ≠ '.' ∧ c ≠ '?' ∧ c ≠ '[' ∧ c ≠ '(' := by
    refine ⟨?_, ?_, ?_, ?_⟩ <;> rintro rfl <;> cases hc
  obtain ⟨h1, h2, h3, h4⟩ := hmarks
  unfold stepAt?
  split <;> simp_all

/-- Blanks are passed over. -/
theorem ReadAs.blanks {text rest : List Char} {found : List ChainStep} (h : ReadAs text found rest) :
    ∀ {space : List Char}, (∀ c ∈ space, isBlank c = true) → ReadAs (space ++ text) found rest
  | [], _ => h
  | c :: space, hspace =>
    (readAs_step (stepAt?_blank (hspace c List.mem_cons_self) (space ++ text))).trans
      (h.blanks fun d hd => hspace d (List.mem_cons_of_mem _ hd))

theorem stepAt?_optional {c : Char} (hc : c ≠ '[') (text : List Char) :
    stepAt? ('?' :: '.' :: c :: text) = some ([], 1) := by
  unfold stepAt?
  split
  · next h => simp at h
  · next h => simp [hc] at h
  · rfl
  · next h => simp at h
  · next h => simp at h
  · next hopt _ _ h => exact absurd (List.cons.inj h).2.symm (hopt _ (List.cons.inj h).1.symm)
  · next h => simp at h

/-- A member takes the calls behind its name. -/
theorem stepAt?_member {name rest : List Char} (hne : name ≠ []) (hname : ∀ c ∈ name, isIdentifierPart c = true)
    (hrest : EndsName rest) (calls : Nat) :
    stepAt? ('.' :: (name ++ (callsText calls ++ rest))) =
      some (.member (String.ofList name) (0 < calls) :: List.replicate (calls - 1) .call,
        1 + name.length + 2 * calls) := by
  have hname := takeWhile_name hname (not_isIdentifierPart_callsText hrest calls)
  have hcalls := callCount_callsText hrest calls
  unfold stepAt?
  simp only [hname, List.drop_left, hcalls]
  rw [if_neg (by simpa using hne)]

/-- A member and the calls behind its name, before the rest of the steps. -/
theorem readAs_member {dot name rest : List Char} (hdot : IsDot dot) (hne : name ≠ [])
    (hname : ∀ c ∈ name, isIdentifierPart c = true) (hrest : EndsName rest) (calls : Nat) :
    ReadAs (dot ++ (name ++ (callsText calls ++ rest)))
      (.member (String.ofList name) (0 < calls) :: List.replicate (calls - 1) .call) rest := by
  have hmember := readAs_step (stepAt?_member hne hname hrest calls)
  have hlength : ('.' :: (name ++ (callsText calls ++ rest))).drop (1 + name.length + 2 * calls) = rest := by
    rw [Nat.add_assoc, Nat.add_comm 1, List.drop_succ_cons, ← List.drop_drop, List.drop_left, ← length_callsText,
      List.drop_left]
  rw [hlength] at hmember
  rcases hdot with rfl | rfl
  · exact hmember
  · cases name with
    | nil => exact absurd rfl hne
    | cons c name =>
      have hc : c ≠ '[' := by
        rintro rfl
        exact not_mem_chainMarks (hname _ List.mem_cons_self) (by decide)
      exact (readAs_step (stepAt?_optional hc _)).trans hmember

theorem readAs_index {mark text : List Char} (hmark : mark = [] ∨ mark = ['?', '.']) (htext : Closed text)
    (rest : List Char) :
    ReadAs (mark ++ '[' :: (text ++ ']' :: rest)) [.index (String.ofList (trim text))] rest := by
  have hindex : stepAt? ('[' :: (text ++ ']' :: rest)) =
      some ([.index (String.ofList (trim text))], text.length + 2) := by
    have hlength : indexLength? .outside 1 (text ++ ']' :: rest) = some text.length := by
      rw [indexLength?_closed htext 0, indexLength?, if_pos ⟨rfl, rfl⟩, if_pos (by omega)]
      simp
    unfold stepAt?
    simp only [hlength, Option.map_some, List.take_left]
  have hdrop : ('[' :: (text ++ ']' :: rest)).drop (text.length + 2) = rest := by
    rw [List.drop_succ_cons, ← List.drop_drop, List.drop_left]
    rfl
  have hread := readAs_step hindex
  rw [hdrop] at hread
  rcases hmark with rfl | rfl
  · exact hread
  · exact (readAs_step (rfl : stepAt? ('?' :: '.' :: '[' :: (text ++ ']' :: rest)) = some ([], 2))).trans hread

theorem readAs_call (rest : List Char) : ReadAs ('(' :: ')' :: rest) [.call] rest :=
  readAs_step (rfl : stepAt? ('(' :: ')' :: rest) = some ([.call], 2))

/-! ### Links -/

theorem placedText_calls : ∀ {calls : List Placed}, (∀ p ∈ calls, p.IsWritten) →
    (∀ p ∈ calls, p.isOptionalCall = false) → (∀ p ∈ calls, p.link.isCall = true) →
    placedText (calls.map Placed.bare) = callsText calls.length
  | [], _, _, _ => rfl
  | ⟨.call args, optional, space⟩ :: calls, h, hplain, hcalls => by
    have ih := placedText_calls (fun p hp => h p (List.mem_cons_of_mem _ hp))
      (fun p hp => hplain p (List.mem_cons_of_mem _ hp)) fun p hp => hcalls p (List.mem_cons_of_mem _ hp)
    obtain rfl : optional = false := by simpa [Placed.isOptionalCall, Link.isCall] using hplain _ List.mem_cons_self
    obtain rfl : space = [] := by
      by_contra hne
      exact (h _ List.mem_cons_self).marked hne rfl
    rw [List.map_cons, placedText_cons, ih, List.length_cons, callsText_succ]
    rfl
  | ⟨.member _, _, _⟩ :: _, _, _, hcalls | ⟨.index _, _, _⟩ :: _, _, _, hcalls => by
    cases hcalls _ List.mem_cons_self

theorem placedText_split {calls more : List Placed} (h : ∀ p ∈ calls ++ more, p.IsWritten)
    (hplain : ∀ p ∈ calls ++ more, p.isOptionalCall = false) (hcalls : ∀ p ∈ calls, p.link.isCall = true)
    (rest : List Char) : placedText ((calls ++ more).map Placed.bare) ++ rest =
      callsText calls.length ++ (placedText (more.map Placed.bare) ++ rest) := by
  rw [List.map_append, placedText_append, placedText_calls (fun p hp => h p (List.mem_append_left _ hp))
    (fun p hp => hplain p (List.mem_append_left _ hp)) hcalls, List.append_assoc]

theorem Placed.IsWritten.beginsStep {p : Placed} (h : p.IsWritten) (hcall : p.link.isCall = false)
    (rest : List Char) : BeginsStep (p.bare.link.mark p.optional ++ (p.bare.link.body ++ rest)) := by
  obtain ⟨link, optional, space⟩ := p
  cases link with
  | member name => cases optional <;> constructor
  | index text => cases optional <;> constructor
  | call args => cases hcall

theorem resumes_placedText {placed : List Placed} (h : ∀ p ∈ placed, p.IsWritten)
    (hcall : ∀ p ∈ placed.head?, p.link.isCall = false) {rest : List Char} (hrest : Resumes rest) :
    Resumes (placedText (placed.map Placed.bare) ++ rest) := by
  cases placed with
  | nil => exact hrest
  | cons p placed =>
    have hp := h p List.mem_cons_self
    refine ⟨p.space, _, hp.blank, hp.beginsStep (hcall p rfl) (placedText (placed.map Placed.bare) ++ rest), ?_⟩
    simp [placedText_cons, Placed.text, Placed.bare]

/-- The calls that links begin with, and the other links. -/
theorem leading_calls (placed : List Placed) : ∃ calls more, placed = calls ++ more ∧
    (∀ p ∈ calls, p.link.isCall = true) ∧ ∀ p ∈ more.head?, p.link.isCall = false := by
  let isCall (p : Placed) := p.link.isCall
  refine ⟨placed.takeWhile isCall, placed.dropWhile isCall, List.takeWhile_append_dropWhile.symm,
    fun p hp => (List.mem_takeWhile_imp hp : isCall p = true), fun p hp => ?_⟩
  have := List.head?_dropWhile_not isCall placed
  rw [Option.mem_def.1 hp] at this
  simpa [isCall] using this

/-- The step that a link is read as, and those of the calls that a name takes. -/
theorem readAs_link {p : Placed} {placed : List Placed} (h : ∀ q ∈ p :: placed, q.IsWritten)
    (hplain : ∀ q ∈ p :: placed, q.isOptionalCall = false) {rest : List Char} (hrest : Resumes rest) :
    ∃ found more, more <:+ placed ∧ placedSteps (p :: placed) = found ++ placedSteps more ∧
      ReadAs (placedText ((p :: placed).map Placed.bare) ++ rest) found
        (placedText (more.map Placed.bare) ++ rest) := by
  have hp := h p List.mem_cons_self
  have htext : placedText ((p :: placed).map Placed.bare) ++ rest = p.space ++ (p.bare.link.mark p.optional ++
      (p.bare.link.body ++ (placedText (placed.map Placed.bare) ++ rest))) := by
    simp [placedText_cons, Placed.text, Placed.bare]
  rw [htext]
  obtain ⟨link, optional, space⟩ := p
  cases link with
  | member name =>
    obtain ⟨calls, more, rfl, hcalls, hmore⟩ := leading_calls placed
    have hmem : ∀ q ∈ calls ++ more, q.IsWritten ∧ q.isOptionalCall = false := fun q hq =>
      ⟨h q (List.mem_cons_of_mem _ hq), hplain q (List.mem_cons_of_mem _ hq)⟩
    have hends := (resumes_placedText (fun q hq => (hmem q (List.mem_append_right _ hq)).1) hmore hrest).endsName
    have hread := readAs_member (Link.isDot_mark optional name) hp.link.1 hp.link.2 hends calls.length
    refine ⟨_, more, List.suffix_append _ _, placedSteps_member name optional space hcalls hmore, ?_⟩
    rw [placedText_split (fun q hq => (hmem q hq).1) (fun q hq => (hmem q hq).2) hcalls]
    exact hread.blanks hp.blank
  | index text =>
    refine ⟨[.index (String.ofList (trim (withoutArguments text)))], placed, List.suffix_rfl, rfl, ?_⟩
    have hread := readAs_index (Link.mark_index optional text) (Closed.withoutArguments hp.link)
      (placedText (placed.map Placed.bare) ++ rest)
    simpa [Placed.bare, Link.bare, Link.body, Link.mark] using hread.blanks hp.blank
  | call args =>
    obtain rfl : optional = false := by simpa [Placed.isOptionalCall, Link.isCall] using hplain _ List.mem_cons_self
    exact ⟨_, placed, List.suffix_rfl, rfl, (readAs_call _).blanks hp.blank⟩

/-- What is read in front of links without arguments is read with their steps. -/
theorem ReadAs.links {rest : List Char} (hrest : Resumes rest) (placed : List Placed) (h : ∀ q ∈ placed, q.IsWritten)
    (hplain : ∀ q ∈ placed, q.isOptionalCall = false) {text : List Char} {found : List ChainStep}
    (hread : ReadAs text found (placedText (placed.map Placed.bare) ++ rest)) :
    ReadAs text (found ++ placedSteps placed) rest := by
  match placed with
  | [] => simpa [placedText, placedSteps, Link.steps] using hread
  | p :: placed =>
    obtain ⟨first, more, hmore, hsteps, hlink⟩ := readAs_link h hplain hrest
    have hlength := hmore.length_le
    rw [hsteps, ← List.append_assoc]
    exact ReadAs.links hrest more (fun q hq => h q (List.mem_cons_of_mem _ (hmore.subset hq)))
      (fun q hq => hplain q (List.mem_cons_of_mem _ (hmore.subset hq))) (hread.trans hlink)
termination_by placed.length
decreasing_by simp only [List.length_cons]; omega

/-- **Links without arguments are read as their steps**: the blanks before them and the marks of
optional members and indexes are passed over. -/
theorem readAs_placedText {p : Placed} {placed : List Placed} (h : ∀ q ∈ p :: placed, q.IsWritten)
    (hplain : ∀ q ∈ p :: placed, q.isOptionalCall = false) {rest : List Char} (hrest : Resumes rest) :
    ReadAs (placedText ((p :: placed).map Placed.bare) ++ rest) (placedSteps (p :: placed)) rest := by
  obtain ⟨first, more, hmore, hsteps, hlink⟩ := readAs_link h hplain hrest
  rw [hsteps]
  exact hlink.links hrest more (fun q hq => h q (List.mem_cons_of_mem _ (hmore.subset hq)))
    fun q hq => hplain q (List.mem_cons_of_mem _ (hmore.subset hq))

end Typeahead
