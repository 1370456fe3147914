/-
# A written chain is split into its steps

What is left of a chain without its arguments is the head with the calls that directly follow it, and
links that are read as their steps. Which steps these are depends on neither the blanks between the
links nor the marks of optional members and indexes. The mark of an optional call is not understood:
behind its `.` a name is expected, and the chain is not split.

Key definitions: `EndsCallee`, `TailText`.
Key theorems: `ofText?_bare`, `ofText?_placedText`, `ofText?_written`, `ofText?_expressionBefore`.
-/
import Mathlib.Data.List.Chain
import Typeahead.Proofs.Chain.Steps

namespace Typeahead

open Text Chain

/-! ### The head -/

theorem not_endsHead {c : Char} (h : c ∉ ['.', '[', '?']) (first onlyDigits : Bool) (rest : List Char) :
    endsHead first onlyDigits c rest = false := by
  simp only [List.mem_cons, List.not_mem_nil, or_false, not_or] at h
  unfold endsHead
  split <;> simp_all

theorem depthAfter_plain {c : Char} (h : c ∉ chainMarks) (depth : Nat) : depthAfter depth c = depth := by
  have ho : isOpening c = false := by
    by_contra ho
    simp only [isOpening, Bool.not_eq_false, Bool.or_eq_true, beq_iff_eq] at ho
    rcases ho with (rfl | rfl) | rfl <;> exact h (by decide)
  have hc : isClosing c = false := by
    by_contra hc
    simp only [isClosing, Bool.not_eq_false, Bool.or_eq_true, beq_iff_eq] at hc
    rcases hc with (rfl | rfl) | rfl <;> exact h (by decide)
  rw [depthAfter, ho, hc]
  rfl

/-- A character that is no mark belongs to the head. -/
theorem headLength_plain {c : Char} (h : c ∉ chainMarks) (first onlyDigits : Bool) (rest : List Char) :
    headLength .outside 0 first onlyDigits (c :: rest) =
      1 + headLength .outside 0 false (onlyDigits && c.isDigit) rest := by
  have hsome : ∀ d ∈ ['.', '[', '?'], d ∈ chainMarks := by decide
  have hends := not_endsHead (fun hc => h (hsome c hc)) first onlyDigits rest
  rw [headLength, hends, if_neg (by simp), if_pos rfl, depthAfter_plain h, next_outside (not_special h).1]

theorem headLength_text {rest : List Char} : ∀ {text : List Char}, (∀ c ∈ text, c ∉ chainMarks) →
    headLength .outside 0 false false (text ++ rest) = text.length + headLength .outside 0 false false rest
  | [], _ => by simp
  | c :: text, h => by
    rw [List.cons_append, headLength_plain (h c List.mem_cons_self), Bool.false_and,
      headLength_text fun d hd => h d (List.mem_cons_of_mem _ hd), List.length_cons]
    omega

theorem BeginsStep.headLength_eq_zero {rest : List Char} (h : BeginsStep rest) :
    headLength .outside 0 false false rest = 0 := by
  cases h <;> simp [headLength, endsHead]

theorem headLength_calls (rest : List Char) : ∀ calls, headLength .outside 0 false false (callsText calls ++ rest) =
    2 * calls + headLength .outside 0 false false rest
  | 0 => by rw [callsText, List.replicate_zero, List.flatten_nil, List.nil_append, Nat.mul_zero, Nat.zero_add]
  | calls + 1 => by
    have hcall : headLength .outside 0 false false (callsText (calls + 1) ++ rest) =
        1 + (1 + headLength .outside 0 false false (callsText calls ++ rest)) := rfl
    rw [hcall, headLength_calls rest calls]
    omega

theorem not_isIdentifierStart_digitCodes :
    ∀ n ∈ List.range' 48 10, isIdentifierStart (Char.ofNat n) = false := by decide +kernel

theorem not_isDigit_of_isIdentifierStart {c : Char} (h : isIdentifierStart c = true) : c.isDigit = false := by
  by_contra hd
  have hmem : c.toNat ∈ List.range' 48 10 := by
    simp only [Bool.not_eq_false, Char.isDigit, Bool.and_eq_true, decide_eq_true_eq, ge_iff_le,
      UInt32.le_iff_toNat_le] at hd
    exact List.mem_range'_1.2 ⟨hd.1, Nat.lt_succ_of_le hd.2⟩
  have := not_isIdentifierStart_digitCodes _ hmem
  rw [Char.ofNat_toNat, h] at this
  cases this

/-- **The head of a chain is read up to the first step that is no call**, with the blanks before it. -/
theorem headLength_head {c : Char} {name space rest : List Char} (hc : isIdentifierStart c = true)
    (hname : ∀ d ∈ c :: name, isIdentifierPart d = true) (calls : Nat) (hspace : ∀ d ∈ space, isBlank d = true)
    (h : BeginsStep rest) : headLength .outside 0 true true (c :: name ++ (callsText calls ++ (space ++ rest))) =
      (c :: name ++ (callsText calls ++ space)).length := by
  have hmarks : ∀ d ∈ c :: name, d ∉ chainMarks := fun d hd => not_mem_chainMarks (hname d hd)
  rw [List.cons_append, headLength_plain (hmarks c List.mem_cons_self), not_isDigit_of_isIdentifierStart hc,
    Bool.and_false, headLength_text fun d hd => hmarks d (List.mem_cons_of_mem _ hd), headLength_calls,
    headLength_text fun d hd => not_mem_chainMarks_of_isBlank (hspace d hd), h.headLength_eq_zero,
    List.length_append, List.length_append, length_callsText, List.length_cons]
  omega

/-! ### What a chain ends in -/

/-- The text ends in what may be called. -/
def EndsCallee (text : List Char) : Prop := ∃ front last, text = front ++ [last] ∧ endsCallee last = true

theorem endsCallee_name {name : List Char} (hne : name ≠ []) (h : ∀ c ∈ name, isIdentifierPart c = true)
    (front : List Char) : EndsCallee (front ++ name) :=
  ⟨front ++ name.dropLast, name.getLast hne, by rw [List.append_assoc, List.dropLast_append_getLast],
    by simp [endsCallee, h _ (List.getLast_mem hne)]⟩

theorem Placed.IsWritten.endsCallee {p : Placed} (h : p.IsWritten) (front : List Char) :
    EndsCallee (front ++ p.text) := by
  obtain ⟨link, optional, space⟩ := p
  rw [text, ← List.append_assoc, ← List.append_assoc]
  cases link with
  | member name => exact endsCallee_name h.link.1 h.link.2 _
  | index text => exact ⟨_, ']', (List.append_assoc _ ('[' :: text) [']']).symm, rfl⟩
  | call args => exact ⟨_, ')', (List.append_assoc _ ('(' :: args) [')']).symm, rfl⟩

theorem endsCallee_placedText : ∀ {placed : List Placed} {front : List Char}, (∀ p ∈ placed, p.IsWritten) →
    EndsCallee front → EndsCallee (front ++ placedText placed)
  | [], front, _, hfront => by rwa [placedText, List.flatMap_nil, List.append_nil]
  | p :: placed, front, h, _ => by
    rw [placedText_cons, ← List.append_assoc]
    exact endsCallee_placedText (fun q hq => h q (List.mem_cons_of_mem _ hq))
      ((h p List.mem_cons_self).endsCallee front)

theorem endsCallee_calls {front : List Char} (h : EndsCallee front) : ∀ calls, EndsCallee (front ++ callsText calls)
  | 0 => by rwa [callsText, List.replicate_zero, List.flatten_nil, List.append_nil]
  | calls + 1 => by
    have : front ++ callsText (calls + 1) = front ++ ['(', ')'] ++ callsText calls := by simp [callsText_succ]
    rw [this]
    exact endsCallee_calls ⟨front ++ ['('], ')', by simp, rfl⟩ calls

/-- No blank is at the end of what may be called. -/
theorem EndsCallee.dropWhile_reverse {text : List Char} (h : EndsCallee text) :
    text.reverse.dropWhile isBlank = text.reverse := by
  obtain ⟨front, last, rfl, hlast⟩ := h
  have hblank : isBlank last = false := by
    simp only [endsCallee, Bool.or_eq_true, beq_iff_eq] at hlast
    rcases hlast with (h | rfl) | rfl
    · exact not_isBlank_of_isIdentifierPart h
    · rfl
    · rfl
  rw [List.reverse_concat]
  exact List.dropWhile_cons_of_neg (by simp [hblank])

theorem EndsCallee.trimEnd {text : List Char} (h : EndsCallee text) : Text.trimEnd text = text := by
  rw [Text.trimEnd, h.dropWhile_reverse, List.reverse_reverse]

theorem callsText_succ' (calls : Nat) : callsText (calls + 1) = callsText calls ++ ['(', ')'] := by
  rw [callsText, List.replicate_succ', List.flatten_append]
  rfl

theorem trailingCalls_callsText {head : List Char} (hne : head ≠ []) (hname : ∀ c ∈ head, isIdentifierPart c = true) :
    ∀ calls, trailingCalls (head ++ callsText calls).reverse = (calls, head.reverse)
  | 0 => by
    rw [callsText, List.replicate_zero, List.flatten_nil, List.append_nil, trailingCalls]
    intro before heq
    have hmem : ')' ∈ head := List.mem_reverse.1 (heq ▸ List.mem_cons_self)
    exact not_mem_chainMarks (hname _ hmem) (by decide)
  | calls + 1 => by
    have hcalls := endsCallee_calls (endsCallee_name hne hname []) calls
    rw [List.nil_append] at hcalls
    have hreverse : (head ++ callsText (calls + 1)).reverse = ')' :: '(' :: (head ++ callsText calls).reverse := by
      rw [callsText_succ', ← List.append_assoc, List.reverse_append]
      rfl
    rw [hreverse, trailingCalls, hcalls.dropWhile_reverse, if_neg (by simpa using fun _ => hne),
      trailingCalls_callsText hne hname calls]

/-- The head and the calls that directly follow it. -/
theorem splitCalls_callsText {head : List Char} (hne : head ≠ []) (hname : ∀ c ∈ head, isIdentifierPart c = true)
    (calls : Nat) : splitCalls (head ++ callsText calls) = (head, calls) := by
  have hnew : "new ".toList.isPrefixOf (head ++ callsText calls) = false := by
    by_contra hprefix
    have hprefix := List.isPrefixOf_iff_prefix.1 (Bool.of_not_eq_false hprefix)
    have hblank : ' ' ∈ head ++ callsText calls := hprefix.subset (by decide)
    rcases List.mem_append.1 hblank with h | h
    · exact absurd (not_isBlank_of_isIdentifierPart (hname _ h)) (by decide)
    · simp [callsText] at h
  rw [splitCalls, hnew, if_neg Bool.false_ne_true, trailingCalls_callsText hne hname]
  simp

/-! ### The chain -/

theorem EndsCallee.lastInk {text : List Char} (h : EndsCallee text) (previous : Option Char) :
    (lastInk previous text).any endsCallee = true := by
  rw [lastInk_eq, h.trimEnd]
  obtain ⟨front, last, rfl, hlast⟩ := h
  simpa using hlast

/-- What may stand behind a chain: nothing, or the separator of a member that is about to be written. -/
inductive TailText : List Char → Prop where
  | nil : TailText []
  | dot {space dot} : (∀ c ∈ space, isBlank c = true) → IsDot dot → TailText (space ++ dot)

theorem IsDot.tailText {dot : List Char} (h : IsDot dot) : TailText dot := .dot (List.forall_mem_nil _) h

theorem TailText.plain {tail : List Char} (h : TailText tail) : ∀ c ∈ tail, isQuote c = false ∧ c ≠ '(' := by
  cases h with
  | nil => exact List.forall_mem_nil _
  | dot hspace hdot =>
    refine List.forall_mem_append.2 ⟨fun c hc => not_special (not_mem_chainMarks_of_isBlank (hspace c hc)), ?_⟩
    rcases hdot with rfl | rfl <;> decide

theorem withoutArguments_placedText {head tail : List Char} {placed : List Placed} (hne : head ≠ [])
    (hname : ∀ c ∈ head, isIdentifierPart c = true) (h : ∀ p ∈ placed, p.IsWritten)
    (hplain : ∀ p ∈ placed, p.isOptionalCall = false) (htail : ∀ c ∈ tail, isQuote c = false ∧ c ≠ '(') :
    withoutArguments (head ++ placedText placed ++ tail) = head ++ placedText (placed.map Placed.bare) ++ tail := by
  obtain ⟨previous, -, hstrip⟩ := strips_placedText h hplain _ tail ((endsCallee_name hne hname []).lastInk none)
  have hend := stripFrom_plain htail previous []
  rw [List.append_nil, stripFrom, List.append_nil] at hend
  rw [List.nil_append] at hstrip
  rw [withoutArguments, List.append_assoc, stripFrom_plain fun c hc => not_special (not_mem_chainMarks (hname c hc)),
    hstrip, hend, List.append_assoc]

theorem trimEnd_append_blanks (text : List Char) {space : List Char} (h : ∀ c ∈ space, isBlank c = true) :
    trimEnd (text ++ space) = trimEnd text := by
  rw [trimEnd, List.reverse_append, List.dropWhile_append_of_pos fun c hc => h c (List.mem_reverse.1 hc), trimEnd]

theorem withoutSeparator_tail {text tail : List Char} (h : EndsCallee text) (htail : TailText tail) :
    withoutSeparator (text ++ tail) = text := by
  obtain ⟨front, last, heq, hlast⟩ := id h
  have hmark : last ≠ '?' ∧ last ≠ '.' := by
    constructor <;> rintro rfl <;> rw [endsCallee, isIdentifierPart_chainMarks _ (by decide)] at hlast <;> cases hlast
  cases htail with
  | nil =>
    rw [List.append_nil, withoutSeparator, heq, List.reverse_concat]
    split
    · next h => exact absurd (List.cons.inj h).1 hmark.2
    · next h => exact absurd (List.cons.inj h).1 hmark.2
    · rw [← heq, h.trimEnd]
  | @dot space dot hspace hdot =>
    have htrim : trimEnd (text ++ space) = text := by rw [trimEnd_append_blanks text hspace, h.trimEnd]
    rw [← List.append_assoc]
    rcases hdot with rfl | rfl
    · rw [withoutSeparator, List.reverse_concat]
      split
      · next before h =>
        -- what stands before the dot is a blank or the end of the chain
        have hquestion : (text ++ space).getLast? = some '?' := by
          rw [← List.head?_reverse, (List.cons.inj h).2, List.head?_cons]
        rw [List.getLast?_append, heq, List.getLast?_concat] at hquestion
        cases hlast' : space.getLast? with
        | none =>
          rw [hlast'] at hquestion
          exact absurd (Option.some.inj hquestion) hmark.1
        | some c =>
          rw [hlast'] at hquestion
          obtain rfl : c = '?' := Option.some.inj hquestion
          cases hspace _ (List.mem_of_getLast? hlast')
      · next before _ h => rw [← (List.cons.inj h).2, List.reverse_reverse, htrim]
      · next h => exact absurd rfl (h _)
    · have hsplit : (text ++ space ++ ['?', '.']).reverse = '.' :: '?' :: (text ++ space).reverse := by
        rw [List.reverse_append]
        rfl
      simp only [withoutSeparator, hsplit, List.reverse_reverse, htrim]

theorem trim_tail {c : Char} {text tail : List Char} (hc : isBlank c = false) (h : EndsCallee (c :: text))
    (htail : TailText tail) : trim (c :: text ++ tail) = c :: text ++ tail := by
  rw [trim, trimStart, List.cons_append, List.dropWhile_cons_of_neg (by simp [hc]), ← List.cons_append]
  cases htail with
  | nil => rw [List.append_nil, h.trimEnd]
  | dot _ hdot =>
    rw [trimEnd]
    rcases hdot with rfl | rfl <;> simp [isBlank]

/-- What is left of a text is split into the head, the calls that directly follow it, and the steps
behind the blanks that follow these. -/
theorem ofText?_bare {text head space rest : List Char} {calls : Nat} (hhead : isIdentifier head = true)
    (hspace : ∀ c ∈ space, isBlank c = true) (hrest : BeginsStep rest)
    (hbare : withoutSeparator (withoutArguments (trim text)) = head ++ (callsText calls ++ (space ++ rest))) :
    AccessChain.ofText? text =
      (stepsFrom? calls rest).map fun steps => ⟨String.ofList head, List.replicate calls .call ++ steps⟩ := by
  obtain ⟨c, name, rfl, hstart, hname⟩ := ident_of_isIdentifier hhead
  have hblank := not_isBlank_of_isIdentifierPart (hname c List.mem_cons_self)
  have hne : c :: name ≠ [] := List.cons_ne_nil _ _
  have hlength := headLength_head hstart hname calls hspace hrest
  have hsplit : c :: name ++ (callsText calls ++ (space ++ rest)) =
      c :: name ++ (callsText calls ++ space) ++ rest := by simp
  have htrim : trim (c :: name ++ (callsText calls ++ space)) = c :: name ++ callsText calls := by
    rw [trim, trimStart, List.cons_append, List.dropWhile_cons_of_neg (by simp [hblank]), ← List.cons_append,
      ← List.append_assoc, trimEnd_append_blanks _ hspace]
    exact (endsCallee_calls (endsCallee_name hne hname []) calls).trimEnd
  rw [hsplit] at hbare hlength
  rw [AccessChain.ofText?, hbare]
  simp only [hlength, List.take_left, List.drop_left, htrim, splitCalls_callsText hne hname]
  rw [if_neg (by simp)]

section Placed

variable {head tail : List Char} {placed : List Placed}

/-- What is left of a chain with no optional call. -/
theorem bare_placedText (hhead : isIdentifier head = true) (h : ∀ p ∈ placed, p.IsWritten)
    (hplain : ∀ p ∈ placed, p.isOptionalCall = false) (htail : TailText tail) :
    withoutSeparator (withoutArguments (trim (head ++ placedText placed ++ tail))) =
      head ++ placedText (placed.map Placed.bare) := by
  obtain ⟨c, name, rfl, -, hname⟩ := ident_of_isIdentifier hhead
  have hne : c :: name ≠ [] := List.cons_ne_nil _ _
  have hends : EndsCallee (c :: name) := endsCallee_name hne hname []
  have hbare : ∀ p ∈ placed.map Placed.bare, p.IsWritten := List.forall_mem_map.2 fun p hp => (h p hp).bare
  have hwhole : EndsCallee (c :: (name ++ placedText placed)) := endsCallee_placedText h hends
  have htrim := trim_tail (not_isBlank_of_isIdentifierPart (hname c List.mem_cons_self)) hwhole htail
  rw [List.cons_append, htrim, ← List.cons_append, withoutArguments_placedText hne hname h hplain htail.plain,
    withoutSeparator_tail (endsCallee_placedText hbare hends) htail]

/-- The links behind the calls that directly follow the head are read as their steps. -/
theorem ofText?_links {text rest : List Char} {calls : Nat} {p : Placed} (hhead : isIdentifier head = true)
    (h : ∀ q ∈ p :: placed, q.IsWritten) (hplain : ∀ q ∈ p :: placed, q.isOptionalCall = false)
    (hcall : p.link.isCall = false) (hrest : Resumes rest)
    (hbare : withoutSeparator (withoutArguments (trim text)) =
      head ++ (callsText calls ++ (placedText ((p :: placed).map Placed.bare) ++ rest))) :
    AccessChain.ofText? text = (readOn calls (placedSteps (p :: placed)) rest).map
      fun steps => ⟨String.ofList head, List.replicate calls .call ++ steps⟩ := by
  have hp := h p List.mem_cons_self
  -- the blanks before the first of these links belong to the head
  have hjoined : ∀ q ∈ p.joined :: placed, q.IsWritten ∧ q.isOptionalCall = false :=
    List.forall_mem_cons.2 ⟨⟨.tight p.link p.optional hp.link, hplain p List.mem_cons_self⟩,
      fun q hq => ⟨h q (List.mem_cons_of_mem _ hq), hplain q (List.mem_cons_of_mem _ hq)⟩⟩
  have hread := readAs_placedText (fun q hq => (hjoined q hq).1) (fun q hq => (hjoined q hq).2) hrest calls
  have hstart : placedText ((p.joined :: placed).map Placed.bare) ++ rest = p.bare.link.mark p.optional ++
      (p.bare.link.body ++ (placedText (placed.map Placed.bare) ++ rest)) := by
    simp [placedText_cons, Placed.text, Placed.bare, Placed.joined]
  have hwhole : placedText ((p :: placed).map Placed.bare) ++ rest = p.space ++ (p.bare.link.mark p.optional ++
      (p.bare.link.body ++ (placedText (placed.map Placed.bare) ++ rest))) := by
    simp [placedText_cons, Placed.text, Placed.bare]
  rw [hwhole] at hbare
  rw [ofText?_bare hhead hp.blank (hp.beginsStep hcall _) hbare, ← hstart, hread]
  rfl

/-- A chain with no optional call is split into its steps. -/
theorem ofText?_plain (hhead : isIdentifier head = true) (h : ∀ p ∈ placed, p.IsWritten)
    (hplain : ∀ p ∈ placed, p.isOptionalCall = false) (htail : TailText tail) :
    AccessChain.ofText? (head ++ placedText placed ++ tail) =
      if placed.all (·.link.isCall) ∨ (placedSteps placed).length ≤ stepLimit then
        some ⟨String.ofList head, placedSteps placed⟩
      else none := by
  have hbare := bare_placedText hhead h hplain htail
  obtain ⟨calls, more, rfl, hcalls, hmore⟩ := leading_calls placed
  rw [← List.append_nil (placedText (List.map _ _)), placedText_split h hplain hcalls] at hbare
  rw [placedSteps_calls more hcalls]
  cases more with
  | nil =>
    have hread := ofText?_bare hhead (List.forall_mem_nil _) .nil hbare
    rw [hread, stepsFrom?, if_pos (.inl (by simpa using hcalls))]
    rfl
  | cons p more =>
    have hcall := hmore p rfl
    have hread := ofText?_links hhead (fun q hq => h q (List.mem_append_right _ hq))
      (fun q hq => hplain q (List.mem_append_right _ hq)) hcall BeginsStep.nil.resumes hbare
    have hall : ¬ (calls ++ p :: more).all (·.link.isCall) = true := by simp [hcall]
    rw [hread, readOn, List.length_append, List.length_replicate]
    by_cases hfits : calls.length + (placedSteps (p :: more)).length ≤ stepLimit
    · rw [if_neg (by omega), if_pos (.inr hfits), stepsFrom?]
      simp
    · rw [if_pos (by omega), if_neg (by simp [hall, hfits])]
      rfl

/-! ### Optional calls -/

theorem trimEnd_append_dropped (text : List Char) : ∃ dropped, text = trimEnd text ++ dropped ∧ '(' ∉ dropped := by
  refine ⟨(text.reverse.takeWhile isBlank).reverse, ?_, fun hmem => ?_⟩
  · rw [trimEnd, ← List.reverse_append, List.takeWhile_append_dropWhile, List.reverse_reverse]
  · exact absurd (List.mem_takeWhile_imp (List.mem_reverse.1 hmem)) (by decide)

theorem withoutSeparator_append_dropped (text : List Char) :
    ∃ dropped, text = withoutSeparator text ++ dropped ∧ '(' ∉ dropped := by
  have hback : ∀ {before : List Char}, text.reverse = before → text = before.reverse := by
    rintro before rfl
    exact (List.reverse_reverse text).symm
  rw [withoutSeparator]
  split
  · next before h =>
    obtain ⟨dropped, hbefore, hround⟩ := trimEnd_append_dropped before.reverse
    refine ⟨dropped ++ ['?', '.'], ?_, by simp [hround]⟩
    rw [← List.append_assoc, ← hbefore]
    simpa using hback h
  · next before _ h =>
    obtain ⟨dropped, hbefore, hround⟩ := trimEnd_append_dropped before.reverse
    refine ⟨dropped ++ ['.'], ?_, by simp [hround]⟩
    rw [← List.append_assoc, ← hbefore]
    simpa using hback h
  · exact trimEnd_append_dropped text

/-- A separator at the end does not reach to a bracket. -/
theorem withoutSeparator_round (front back : List Char) :
    ∃ back', withoutSeparator (front ++ '(' :: back) = front ++ '(' :: back' := by
  obtain ⟨dropped, htext, hround⟩ := withoutSeparator_append_dropped (front ++ '(' :: back)
  rcases List.append_eq_append_iff.1 htext with ⟨between, hseparated, hrest⟩ | ⟨between, -, hdropped⟩
  · cases between with
    | nil =>
      rw [List.nil_append] at hrest
      exact absurd (hrest ▸ List.mem_cons_self) hround
    | cons c between =>
      obtain rfl : '(' = c := (List.cons.inj hrest).1
      exact ⟨between, hseparated⟩
  · exact absurd (hdropped ▸ by simp : '(' ∈ dropped) hround

/-- Behind the `.` of an optional call a name is expected. -/
theorem stepsFrom?_optionalCall {space : List Char} (hspace : ∀ c ∈ space, isBlank c = true) (rest : List Char)
    (count : Nat) : stepsFrom? count (space ++ '?' :: '.' :: '(' :: rest) = none := by
  have hread : ReadAs (space ++ '?' :: '.' :: '(' :: rest) [] ('.' :: '(' :: rest) :=
    (readAs_step (stepAt?_optional (by decide) rest)).blanks hspace
  refine hread.eq_none (fun count => ?_) count
  have hname : ('(' :: rest).takeWhile isIdentifierPart = [] :=
    List.takeWhile_cons_of_neg (Bool.eq_false_iff.1 (isIdentifierPart_chainMarks '(' (by decide)))
  have hstep : stepAt? ('.' :: '(' :: rest) = none := by
    unfold stepAt?
    simp only [hname]
    rfl
  rw [stepsFrom?]
  split
  · rfl
  · next h => rw [hstep] at h; cases h

/-- What is left of a chain with an optional call still has the bracket that opens its arguments. -/
theorem bare_optionalCall {args space : List Char} {front back : List Placed} (hhead : isIdentifier head = true)
    (h : ∀ p ∈ front ++ ⟨.call args, true, space⟩ :: back, p.IsWritten)
    (hplain : ∀ p ∈ front, p.isOptionalCall = false) (htail : TailText tail) :
    ∃ rest, withoutSeparator (withoutArguments (trim
        (head ++ placedText (front ++ ⟨.call args, true, space⟩ :: back) ++ tail))) =
      head ++ (placedText (front.map Placed.bare) ++ (space ++ '?' :: '.' :: '(' :: rest)) := by
  obtain ⟨c, name, rfl, -, hname⟩ := ident_of_isIdentifier hhead
  have hends : EndsCallee (c :: name) := endsCallee_name (List.cons_ne_nil _ _) hname []
  have hfront : ∀ p ∈ front, p.IsWritten := fun p hp => h p (List.mem_append_left _ hp)
  have hspace : ∀ d ∈ space, isBlank d = true := (h ⟨.call args, true, space⟩ (by simp)).blank
  have hwhole : EndsCallee (c :: (name ++ placedText (front ++ ⟨.call args, true, space⟩ :: back))) :=
    endsCallee_placedText h hends
  have htrim := trim_tail (not_isBlank_of_isIdentifierPart (hname c List.mem_cons_self)) hwhole htail
  obtain ⟨behind, hbehind⟩ : ∃ behind, placedText (front ++ ⟨.call args, true, space⟩ :: back) ++ tail =
      placedText front ++ ((space ++ ['?', '.']) ++ '(' :: behind) :=
    ⟨args ++ [')'] ++ placedText back ++ tail, by
      simp [placedText_append, placedText_cons, Placed.text, Link.mark, Link.body]⟩
  have hmark : ∀ d ∈ space ++ ['?', '.'], isQuote d = false ∧ d ≠ '(' :=
    List.forall_mem_append.2 ⟨fun d hd => not_special (not_mem_chainMarks_of_isBlank (hspace d hd)), by decide⟩
  obtain ⟨previous, -, hstrip⟩ := strips_placedText hfront hplain _ ((space ++ ['?', '.']) ++ '(' :: behind)
    ((EndsCallee.lastInk hends none))
  -- what stands before the bracket is a dot, so the bracket opens no arguments
  have hdot : lastInk previous (space ++ ['?', '.']) = some '.' := by
    rw [lastInk, List.foldl_append]
    rfl
  have hround : stripFrom .outside (some '.') ('(' :: behind) = '(' :: stripFrom .outside (some '(') behind := by
    rw [stripFrom, if_neg (by simp [endsCallee, isIdentifierPart_chainMarks '.' (by decide)])]
    rfl
  obtain ⟨rest, hrest⟩ := withoutSeparator_round
    (c :: name ++ placedText (front.map Placed.bare) ++ (space ++ ['?', '.'])) (stripFrom .outside (some '(') behind)
  refine ⟨rest, ?_⟩
  rw [List.cons_append, htrim, ← List.cons_append, withoutArguments, List.append_assoc, hbehind,
    stripFrom_plain fun d hd => not_special (not_mem_chainMarks (hname d hd)), hstrip, stripFrom_plain hmark, hdot,
    hround]
  simpa using hrest

/-- A chain with an optional call is not split. -/
theorem ofText?_optionalCall {args space : List Char} {front back : List Placed} (hhead : isIdentifier head = true)
    (h : ∀ p ∈ front ++ ⟨.call args, true, space⟩ :: back, p.IsWritten)
    (hplain : ∀ p ∈ front, p.isOptionalCall = false) (htail : TailText tail) :
    AccessChain.ofText? (head ++ placedText (front ++ ⟨.call args, true, space⟩ :: back) ++ tail) = none := by
  obtain ⟨rest, hbare⟩ := bare_optionalCall hhead h hplain htail
  have hspace : ∀ d ∈ space, isBlank d = true := (h ⟨.call args, true, space⟩ (by simp)).blank
  have hbegins : BeginsStep ('?' :: '.' :: '(' :: rest) := .optional _
  have hfront : ∀ p ∈ front, p.IsWritten := fun p hp => h p (List.mem_append_left _ hp)
  obtain ⟨calls, more, rfl, hcalls, hmore⟩ := leading_calls front
  rw [placedText_split hfront hplain hcalls] at hbare
  cases more with
  | nil =>
    have hnone := stepsFrom?_optionalCall (List.forall_mem_nil _) rest calls.length
    rw [List.nil_append] at hnone
    rw [ofText?_bare hhead hspace hbegins hbare, hnone]
    rfl
  | cons p more =>
    rw [ofText?_links hhead (fun q hq => hfront q (List.mem_append_right _ hq))
      (fun q hq => hplain q (List.mem_append_right _ hq)) (hmore p rfl) ⟨space, _, hspace, hbegins, rfl⟩ hbare,
      readOn, stepsFrom?_optionalCall hspace]
    split <;> rfl

/-! ### The chain -/

/-- **What a chain is split into depends on its links**, and not on the blanks before them or on their
marks, but for those of calls. -/
theorem ofText?_placedText (hhead : isIdentifier head = true) (h : ∀ p ∈ placed, p.IsWritten)
    (htail : TailText tail) : AccessChain.ofText? (head ++ placedText placed ++ tail) = chainOf? head placed := by
  rw [chainOf?]
  by_cases hoptional : placed.any Placed.isOptionalCall = true
  · rw [if_pos hoptional]
    obtain ⟨p, hp⟩ : ∃ p, placed.find? Placed.isOptionalCall = some p := by
      rw [← Option.isSome_iff_exists, List.find?_isSome]
      simpa using hoptional
    obtain ⟨hcall, front, back, rfl, hfront⟩ := List.find?_eq_some_iff_append.1 hp
    obtain ⟨link, optional, space⟩ := p
    cases link with
    | member | index => simp [Placed.isOptionalCall, Link.isCall] at hcall
    | call args =>
      obtain rfl : optional = true := by simpa [Placed.isOptionalCall, Link.isCall] using hcall
      exact ofText?_optionalCall hhead h (fun q hq => by simpa using hfront q hq) htail
  · rw [if_neg hoptional]
    exact ofText?_plain hhead h (by simpa using hoptional) htail

end Placed

/-! ### Written chains -/

theorem IndexText.withoutArguments_eq {text : List Char} (h : IndexText text) : withoutArguments text = text := by
  have hwhole := stripFrom_append text .outside none [] fun front back heq hafter => by
    rw [lastInk_eq, Option.or_none]
    exact h.noCall front back heq hafter
  rwa [List.append_nil, stripFrom, List.append_nil] at hwhole

/-- A written step is written as links, one for a member that is not called, an index or a call, and
two for a member that is called. -/
theorem StepText.placed {step : ChainStep} {text : List Char} (h : StepText Balanced step text) :
    ∃ p more, text = placedText (p :: more) ∧ (∀ q ∈ p :: more, q.IsWritten ∧ q.isOptionalCall = false) ∧
      (p.link.isCall = true → step = .call) ∧
      ∀ later, (∀ name, step = .member name false → ∀ q ∈ later.head?, q.link.isCall = false) →
        placedSteps (p :: more ++ later) = step :: placedSteps later := by
  have hname : ∀ {dot name : List Char}, IsDot dot → name ≠ [] → (∀ c ∈ name, isIdentifierPart c = true) →
      ∃ optional, dot = (Link.member name).mark optional ∧ (⟨.member name, optional, []⟩ : Placed).IsWritten := by
    intro dot name hdot hne hname
    have hwritten : ∀ optional, (⟨.member name, optional, []⟩ : Placed).IsWritten := fun optional =>
      .tight (.member name) optional ⟨hne, hname⟩
    rcases hdot with rfl | rfl
    · exact ⟨false, rfl, hwritten false⟩
    · exact ⟨true, rfl, hwritten true⟩
  have hcall : ∀ {args : List Char}, Balanced args → (⟨.call args, false, []⟩ : Placed).IsWritten := fun hargs =>
    .tight (.call _) false hargs.closed
  cases h with
  | @member dot name hdot hne hparts =>
    obtain ⟨optional, rfl, hwritten⟩ := hname hdot hne hparts
    refine ⟨⟨.member name, optional, []⟩, [], (List.append_nil _).symm, ?_, (absurd · Bool.false_ne_true),
      fun later hlater => ?_⟩
    · exact List.forall_mem_cons.2 ⟨⟨hwritten, Bool.and_false _⟩, List.forall_mem_nil _⟩
    · exact placedSteps_member name optional [] (List.forall_mem_nil _) (hlater _ rfl)
  | @method dot name args hdot hne hparts hargs =>
    obtain ⟨optional, rfl, hwritten⟩ := hname hdot hne hparts
    refine ⟨⟨.member name, optional, []⟩, [⟨.call args, false, []⟩], ?_, ?_, (absurd · Bool.false_ne_true),
      fun later _ => rfl⟩
    · simp [placedText, Placed.text, Link.mark, Link.body]
    · exact List.forall_mem_cons.2 ⟨⟨hwritten, Bool.and_false _⟩,
        List.forall_mem_cons.2 ⟨⟨hcall hargs, rfl⟩, List.forall_mem_nil _⟩⟩
  | @index dot text hdot htext =>
    obtain ⟨optional, rfl⟩ : ∃ optional, dot = (Link.index text).mark optional := by
      rcases hdot with rfl | rfl
      · exact ⟨false, rfl⟩
      · exact ⟨true, rfl⟩
    refine ⟨⟨.index text, optional, []⟩, [], (List.append_nil _).symm, ?_, (absurd · Bool.false_ne_true),
      fun later _ => ?_⟩
    · exact List.forall_mem_cons.2 ⟨⟨.tight (.index text) optional htext.balanced.closed, Bool.and_false _⟩,
        List.forall_mem_nil _⟩
    · simp [placedSteps, Placed.bare, Link.bare, Link.steps, htext.withoutArguments_eq, htext.trimmed]
  | @call args hargs =>
    exact ⟨_, [], (List.append_nil _).symm, List.forall_mem_cons.2 ⟨⟨hcall hargs, rfl⟩, List.forall_mem_nil _⟩,
      fun _ => rfl, fun later _ => rfl⟩

theorem CallsApart.tail {step : ChainStep} {steps : List ChainStep} (h : CallsApart (step :: steps)) :
    CallsApart steps :=
  List.IsChain.right_of_append (show CallsApart ([step] ++ steps) from h)

/-- Written steps are written as links that are read as them. -/
theorem StepsText.placed {steps : List ChainStep} {text : List Char} (h : StepsText Balanced steps text) :
    CallsApart steps → ∃ placed, text = placedText placed ∧ (∀ p ∈ placed, p.IsWritten ∧ p.isOptionalCall = false) ∧
      (∀ p ∈ placed.head?, p.link.isCall = true → steps.head? = some .call) ∧ placedSteps placed = steps := by
  induction h with
  | nil => exact fun _ => ⟨[], rfl, List.forall_mem_nil _, nofun, rfl⟩
  | @cons step steps text texts hstep _ ih =>
    intro hapart
    obtain ⟨placed, rfl, hplaced, hfirst, hsteps⟩ := ih hapart.tail
    obtain ⟨p, more, rfl, hmore, hcall, hlater⟩ := hstep.placed
    refine ⟨p :: more ++ placed, (placedText_append _ _).symm, List.forall_mem_append.2 ⟨hmore, hplaced⟩, ?_, ?_⟩
    · intro q hq hqcall
      obtain rfl : p = q := Option.some.inj hq
      rw [hcall hqcall, List.head?_cons]
    · rw [hlater placed, hsteps]
      rintro name rfl q hq
      by_contra hqcall
      -- the call would be a call of the member
      obtain ⟨later, hlater⟩ : ∃ later, steps = .call :: later := by
        cases steps with
        | nil => cases hfirst q hq (by simpa using hqcall)
        | cons first later => exact ⟨later, by rw [Option.some.inj (hfirst q hq (by simpa using hqcall))]⟩
      subst hlater
      exact (List.isChain_cons_cons.1 hapart).1 rfl name rfl

/-- A written chain is a head and links that are read as its steps. -/
theorem AccessChain.WrittenAs.placed {chain : AccessChain} {written : List Char} (h : chain.WrittenAs written) :
    ∃ placed, written = chain.head.toList ++ placedText placed ∧ (∀ p ∈ placed, p.IsWritten) ∧
      chainOf? chain.head.toList placed = some chain := by
  obtain ⟨steps, hsteps, rfl⟩ := h.spelled
  obtain ⟨placed, rfl, hplaced, -, heq⟩ := hsteps.placed h.callsApart
  refine ⟨placed, rfl, fun p hp => (hplaced p hp).1, ?_⟩
  have hoptional : placed.any Placed.isOptionalCall = false := by
    simpa using fun p hp => (hplaced p hp).2
  rw [chainOf?, hoptional, if_neg Bool.false_ne_true, heq, if_pos (.inr h.atMost), String.ofList_toList]

/-- A written chain is split into its head and its steps, with a separator behind it or none. -/
theorem ofText?_tail {chain : AccessChain} {written tail : List Char} (h : chain.WrittenAs written)
    (htail : TailText tail) : AccessChain.ofText? (written ++ tail) = some chain := by
  obtain ⟨placed, rfl, hplaced, hchain⟩ := h.placed
  rw [ofText?_placedText h.head hplaced htail, hchain]

/-- **A written chain is split into its head and its steps**, whatever its arguments are. -/
theorem ofText?_written {chain : AccessChain} {written dot : List Char} (h : chain.WrittenAs written)
    (hdot : IsDot dot) : AccessChain.ofText? (written ++ dot) = some chain :=
  ofText?_tail h hdot.tailText

/-- **A written chain is found from its end and split into its steps again.** -/
theorem ofText?_expressionBefore {chain : AccessChain} {before written dot : List Char}
    (h : chain.WrittenAs written) (hdot : IsDot dot) (hfits : (written ++ dot).length ≤ Extract.scanLimit)
    (hbefore : BeginsAfter before (Extract.scanLimit - (written ++ dot).length)) :
    AccessChain.ofText? (expressionBefore (before ++ (written ++ dot))
      (unitLength (before ++ (written ++ dot)))) = some chain := by
  rw [expressionBefore_written h hdot hfits hbefore, ofText?_written h hdot]

/-- A called member, an index and a member behind a name. -/
theorem ofText?_expressionBefore_members :
    AccessChain.ofText? (expressionBefore ("x = ".toList ++ ("list.of(\"(\")[0]?.name".toList ++ ['.']))
      (unitLength ("x = ".toList ++ ("list.of(\"(\")[0]?.name".toList ++ ['.'])))) =
      some ⟨"list", [.member "of" true, .index "0", .member "name" false]⟩ := by
  have hargs : Balanced ['\x22', '(', '\x22'] :=
    .quoted rfl (.plain (by decide) (by decide) .nil : QuotedBody '\x22' ['(']) .nil
  have hindex : IndexText ['0'] :=
    ⟨.plain rfl rfl rfl (by decide) .nil, rfl, fun front back heq => by cases front <;> simp at heq⟩
  have hof : StepText Balanced (.member (String.ofList ['o', 'f']) true) _ :=
    .method (.inl rfl) (by decide) (by decide +kernel) hargs
  have hzero : StepText Balanced (.index (String.ofList ['0'])) _ := .index (.inl rfl) hindex
  have hname : StepText Balanced (.member (String.ofList ['n', 'a', 'm', 'e']) false) _ :=
    .member (.inr rfl) (by decide) (by decide +kernel)
  have hwritten : AccessChain.WrittenAs ⟨"list", [.member "of" true, .index "0", .member "name" false]⟩
      "list.of(\"(\")[0]?.name".toList :=
    ⟨by decide +kernel, by decide, by decide, by simp [CallsApart], ⟨_, .cons hof (.cons hzero (.cons hname .nil)), rfl⟩⟩
  exact ofText?_expressionBefore hwritten (.inl rfl) (by decide)
    ⟨fun c hc => by cases hc; decide +kernel, by decide +kernel⟩

theorem writtenAs_digits (count : Nat) :
    AccessChain.WrittenAs ⟨"a", [.index (String.ofList (List.replicate count '1'))]⟩
      ('a' :: '[' :: (List.replicate count '1' ++ [']'])) := by
  have hbalanced : ∀ count, Balanced (List.replicate count '1') := by
    intro count
    induction count with
    | zero => exact .nil
    | succ count ih => exact .plain rfl rfl rfl (by decide) ih
  have hdigit : ∀ text : List Char, (∀ c ∈ text, c = '1') → text.dropWhile isBlank = text := by
    rintro (_ | ⟨c, text⟩) h
    · rfl
    · exact List.dropWhile_cons_of_neg (by rw [h c List.mem_cons_self]; decide)
  have hindex : IndexText (List.replicate count '1') := by
    refine ⟨hbalanced count, ?_, fun front back heq => ?_⟩
    · rw [trim, trimStart, hdigit _ fun c hc => List.eq_of_mem_replicate hc, trimEnd,
        hdigit _ fun c hc => List.eq_of_mem_replicate (List.mem_reverse.1 hc), List.reverse_reverse]
    · have hmem : '(' ∈ List.replicate count '1' := heq ▸ List.mem_append_right _ List.mem_cons_self
      exact absurd (List.eq_of_mem_replicate hmem) (by decide)
  refine ⟨?_, (by decide : "a" ≠ "new"), (by decide : 1 ≤ stepLimit), List.isChain_singleton _,
    ⟨_, .cons (.index (.inl rfl) hindex) .nil, ?_⟩⟩
  · exact (by decide +kernel : isIdentifier "a".toList = true)
  · rw [List.append_nil, show "a".toList = ['a'] from rfl]
    rfl

/-- What stands too far in front of the cursor is not seen. Where only the end of a longer word is
seen, that end may be `new`. -/
theorem not_ofText?_expressionBefore_of_unseen :
    ¬ ∀ (chain : AccessChain) (before written dot : List Char), chain.WrittenAs written → IsDot dot →
      (written ++ dot).length ≤ Extract.scanLimit → BeginsAfter before before.length →
      AccessChain.ofText? (expressionBefore (before ++ (written ++ dot))
        (unitLength (before ++ (written ++ dot)))) = some chain := by
  intro h
  have hhead : (AccessChain.ofText? (expressionBefore ("xnew ".toList ++
      (('a' :: '[' :: (List.replicate 1992 '1' ++ [']'])) ++ ['.'])) (unitLength ("xnew ".toList ++
      (('a' :: '[' :: (List.replicate 1992 '1' ++ [']'])) ++ ['.']))))).map (·.head) = some "new a" := by
    decide +kernel
  have hchain := h _ "xnew ".toList _ ['.'] (writtenAs_digits 1992) (.inl rfl)
    (by simp only [List.length_cons, List.length_append, List.length_replicate]; decide)
    ⟨fun c hc => by cases hc; decide +kernel, by decide +kernel⟩
  rw [hchain] at hhead
  exact absurd hhead (by decide)

end Typeahead
