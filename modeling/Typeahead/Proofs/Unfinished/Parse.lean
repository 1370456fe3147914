/-
# A script that breaks off in the middle of blocks

The constructs that a text leaves open one in another, each with the declarations that come next,
as the parser reads them: the head of each, up to its brace, and the declarations are read by its own
productions. A `do` and a `try` are not among the constructs: they go on behind their block, so the
parser refuses them where the text breaks off, and drops the block with all that is in it.

Key definitions: `ReadsHead`, `OpensBlock`, `RunsOut`, `RunsToEnd`.
Key theorems: `endsList_cases`, `RunsToEnd.after`, `RunsToEnd.bind`, `RunsToEnd.collect`.
-/
import Typeahead.Proofs.Modes
import Typeahead.Proofs.Unfinished.Scopes

namespace Typeahead

open Text Parse Grammar

variable {α β : Type}

/-- The state one level deeper. -/
def ParserState.deeper (s : ParserState) : ParserState := { s with depth := s.depth + 1 }

/-- A part of the head of a `for` that may be absent before a mark. -/
def Grammar.forPart (g : Grammar) (mark : Punctuator) : Parse (Option Node) := do
  if (← get).atMark mark then pure none else some <$> innerSequence g

/-- The head of an `if`, a `while` or a `for` is read up to its body. With the body it makes a node. -/
inductive ReadsHead (g : Grammar) (s : ParserState) : (Node → NodeKind) → ParserState → Prop
  | ifHead {test : Node} {t : ParserState} (hword : s.atReserved "if" = true)
      (htest : condition g s.advance = .ok test t) : ReadsHead g s (fun body => .if test body none) t
  | whileHead {test : Node} {t : ParserState} (hword : s.atReserved "while" = true)
      (htest : condition g s.advance = .ok test t) : ReadsHead g s (fun body => .while test body) t
  | forHead {init test update : Option Node} {t u v : ParserState} (hword : s.atReserved "for" = true)
      (hopen : s.advance.atMark .openParen = true) (hinit : forInit g s.advance.advance = .ok init t)
      (hfirst : t.atMark .semicolon = true) (htest : forPart g .semicolon t.advance = .ok test u)
      (hsecond : u.atMark .semicolon = true) (hupdate : forPart g .closeParen u.advance = .ok update v)
      (hclose : v.atMark .closeParen = true) : ReadsHead g s (fun body => .for init test update body) v.advance

/-- A construct stands here that is read up to what follows its brace, and binds some names. What
follows is read with fewer levels. -/
inductive OpensBlock : (levels : Nat) → ParserState → (inner : Nat) → ParserState → List String → Prop
  | block {levels : Nat} {s : ParserState} (hopen : s.atMark .openBrace = true) :
      OpensBlock (levels + 1) s levels s.deeper.advance []
  | headed {levels : Nat} {s t : ParserState} {kind : Node → NodeKind}
      (hhead : ReadsHead (parseLevel (levels + 1)) s.deeper kind t) (hopen : t.atMark .openBrace = true) :
      OpensBlock (levels + 2) s levels t.deeper.advance []
  | switchCase {levels : Nat} {s t u : ParserState} {discriminant test : Node} (hword : s.atReserved "switch" = true)
      (hdiscriminant : condition (parseLevel levels) s.deeper.advance = .ok discriminant t)
      (hopen : t.atMark .openBrace = true) (hcase : t.advance.atReserved "case" = true)
      (htest : allowIn (innerSequence (parseLevel levels)) t.advance.advance = .ok test u)
      (hcolon : u.atMark .colon = true) : OpensBlock (levels + 1) s levels u.advance []
  | function {levels : Nat} {s t : ParserState} {params : List Node} (hword : s.atKeyword .functionWord = true)
      (hname : s.advance.atBindingName = true)
      (hparams : parameterList (parseLevel levels) s.deeper.advance.advance = .ok params t)
      (hopen : t.atMark .openBrace = true) : OpensBlock (levels + 1) s levels t.advance (parameterBoundNames params)
  | method {levels : Nat} {s t : ParserState} {params : List Node} (hword : s.atKeyword .classWord = true)
      (hname : s.advance.atBindingName = true) (hclass : s.advance.advance.atMark .openBrace = true)
      (hkey : s.advance.advance.advance.kind.isWord = true)
      (hparams : parameterList (parseLevel levels) s.deeper.advance.advance.advance.advance = .ok params t)
      (hopen : t.atMark .openBrace = true) : OpensBlock (levels + 1) s levels t.advance (parameterBoundNames params)

/-- Up to the end of the input so many constructs are opened one in another, each with complete
declarations before it, and none is closed. The names are those that these declare and bind. A
declaration is complete if all that is in it ends before the next token. -/
inductive RunsOut : (levels count : Nat) → ParserState → List String → Prop
  | nil {levels : Nat} {s : ParserState} (hend : s.atEnd = true) : RunsOut levels 0 s []
  | declaration {levels count : Nat} {s t : ParserState} {n : Node} {names : List String}
      (hword : s.atKeyword .letWord = true ∨ s.atKeyword .constWord = true)
      (hrun : parseLevel levels .statement s = .ok n t) (hcomplete : n.EndsWithin t.offset)
      (hrest : RunsOut levels count t names) : RunsOut levels count s (n.lexicalNames ++ names)
  | opens {levels inner count : Nat} {s t : ParserState} {names names' : List String}
      (hopens : OpensBlock levels s inner t names) (hbody : RunsOut inner count t names') :
      RunsOut levels (count + 1) s (names ++ names')

/-- The parse is one of a text that is being edited, outside the head of a `for`. -/
structure ParserState.Edits (s : ParserState) (text : List Char) : Prop extends s.Sound where
  tokens : s.stream.tokens = (TokenStream.ofText text).tokens
  recovering : s.recovering = true
  noIn : s.noIn = false

/-- Where a list of statements is done: at the end of the input, but where neither a declaration nor
one of the constructs above stands. -/
structure EndsList (done : ParserState → Bool) : Prop where
  atEnd : ∀ s, s.atEnd = true → done s = true
  declaration : ∀ s, s.atKeyword .letWord = true ∨ s.atKeyword .constWord = true → done s = false
  opensBlock : ∀ {levels s inner t names}, OpensBlock levels s inner t names → done s = false

variable {text : List Char} {s t : ParserState}

namespace ParserState

theorem Edits.follows (hs : s.Edits text) (h : s.Follows t) : t.Edits text :=
  ⟨hs.toSound.follows h, h.tokens.trans hs.tokens, h.recovering.trans hs.recovering, h.noIn.trans hs.noIn⟩

theorem Edits.advance (hs : s.Edits text) : s.advance.Edits text := hs.follows s.follows_advance

/-- The depth does not matter. -/
theorem Edits.at_depth (hs : s.Edits text) (depth : Nat) : ({ s with depth } : ParserState).Edits text :=
  ⟨⟨hs.inside, hs.ordered, hs.filled, hs.covers, hs.ends⟩, hs.tokens, hs.recovering, hs.noIn⟩

theorem Edits.deeper (hs : s.Edits text) : s.deeper.Edits text := hs.at_depth _

theorem Edits.soundAt (hs : s.Edits text) : s.SoundAt s.depth := ⟨hs.toSound, rfl⟩

theorem Edits.offset_le (hs : s.Edits text) : s.offset ≤ unitLength text :=
  Nat.le_trans (stop_le_unitLength hs.tokens).1 (stop_le_unitLength hs.tokens).2

theorem kind_of_atEnd (h : s.atEnd = true) : s.kind = .endOfInput := beq_iff_eq.1 h

theorem atReserved_iff {word : String} : s.atReserved word = true ↔ s.kind = .reserved ∧ s.current.text = word := by
  rw [atReserved, Token.isReserved, Bool.and_eq_true, beq_iff_eq, beq_iff_eq]
  rfl

/-- Where another token stands no braces are closed. -/
theorem goes_of_kind {kind : TokenKind} (h : s.kind = kind) (hbrace : kind ≠ .punct .closeBrace)
    (hend : kind ≠ .endOfInput) : (s.atMark .closeBrace || s.atEnd) = false := by
  subst h
  exact Bool.or_eq_false_iff.2 ⟨beq_eq_false_iff_ne.2 hbrace, beq_eq_false_iff_ne.2 hend⟩

theorem atMark_of_isWord (h : s.kind.isWord = true) (mark : Punctuator) : s.atMark mark = false :=
  Bool.eq_false_iff.2 fun hmark => by
    rw [atMark_iff.1 hmark] at h
    cases h

theorem isWord_of_atBindingName (h : s.atBindingName = true) : s.kind.isWord = true := by
  rw [atBindingName] at h
  cases hkind : s.kind <;> rw [hkind] at h <;> first | rfl | cases h

/-- Where another kind of token stands there is no reserved word. -/
theorem atReserved_of_kind {kind : TokenKind} (h : s.kind = kind) (hne : kind ≠ .reserved) (word : String) :
    s.atReserved word = false :=
  Bool.eq_false_iff.2 fun hword => hne (h.symm.trans (atReserved_iff.1 hword).1)

end ParserState

theorem expectReserved_of_atReserved {word : String} (h : s.atReserved word = true) :
    expectReserved word s = .ok s.current s.advance := if_pos h

theorem collect_of_done {done : ParserState → Bool} {step : Parse (Option α)} (h : done s = true) :
    ∀ {rounds}, collect done step rounds s = .ok [] s
  | 0 => rfl
  | rounds + 1 => by
    rw [collect, get_run, if_pos h]
    rfl

theorem bindingName_of_atBindingName (h : s.atBindingName = true) :
    bindingName s = .ok s.current.text s.advance := if_pos h

/-! ### Where a list of statements goes on -/

/-- What such a construct begins with. -/
theorem OpensBlock.begins {levels inner : Nat} {names : List String} (h : OpensBlock levels s inner t names) :
    s.kind = .punct .openBrace ∨ s.kind = .keyword .functionWord ∨ s.kind = .keyword .classWord ∨
      s.kind = .reserved ∧ s.current.text ∈ ["if", "while", "for", "switch"] := by
  have hreserved : ∀ word ∈ ["if", "while", "for", "switch"], s.atReserved word = true →
      s.kind = .reserved ∧ s.current.text ∈ ["if", "while", "for", "switch"] := by
    intro word hword h
    obtain ⟨hkind, rfl⟩ := ParserState.atReserved_iff.1 h
    exact ⟨hkind, hword⟩
  cases h with
  | block hopen => exact .inl (ParserState.atMark_iff.1 hopen)
  | headed hhead =>
    cases hhead with
    | ifHead hword => exact .inr (.inr (.inr (hreserved _ (by simp) hword)))
    | whileHead hword => exact .inr (.inr (.inr (hreserved _ (by simp) hword)))
    | forHead hword => exact .inr (.inr (.inr (hreserved _ (by simp) hword)))
  | switchCase hword => exact .inr (.inr (.inr (hreserved _ (by simp) hword)))
  | function hword => exact .inr (.inl (beq_iff_eq.1 hword))
  | method hword => exact .inr (.inr (.inl (beq_iff_eq.1 hword)))

/-- The cases of a switch go on with any other token. -/
theorem ParserState.goes_in_case {kind : TokenKind} (h : s.kind = kind) (hbrace : kind ≠ .punct .closeBrace)
    (hend : kind ≠ .endOfInput) (hreserved : kind ≠ .reserved) :
    (s.atEnd || (s.atMark .closeBrace || s.atReserved "case" || s.atReserved "default")) = false := by
  obtain ⟨hclose, hmore⟩ := Bool.or_eq_false_iff.1 (goes_of_kind h hbrace hend)
  rw [hclose, hmore, atReserved_of_kind h hreserved, atReserved_of_kind h hreserved]
  rfl

theorem endsList_cases : EndsList fun s =>
    s.atEnd || (s.atMark .closeBrace || s.atReserved "case" || s.atReserved "default") where
  atEnd s h := by rw [h, Bool.true_or]
  declaration s h := by
    rcases h with h | h <;> exact ParserState.goes_in_case (beq_iff_eq.1 h) (by simp) (by simp) (by simp)
  opensBlock {levels s inner t names} h := by
    rcases h.begins with h | h | h | ⟨h, htext⟩
    · exact ParserState.goes_in_case h (by simp) (by simp) (by simp)
    · exact ParserState.goes_in_case h (by simp) (by simp) (by simp)
    · exact ParserState.goes_in_case h (by simp) (by simp) (by simp)
    · obtain ⟨hclose, hmore⟩ := Bool.or_eq_false_iff.1 (ParserState.goes_of_kind h (by simp) (by simp))
      have hother : ∀ word ∉ ["if", "while", "for", "switch"], s.atReserved word = false := fun word hword =>
        Bool.eq_false_iff.2 fun h' => hword ((ParserState.atReserved_iff.1 h').2 ▸ htext)
      rw [hclose, hmore, hother "case" (by simp), hother "default" (by simp)]
      rfl

theorem EndsList.of_imp {done done' : ParserState → Bool} (h : EndsList done)
    (hend : ∀ s, s.atEnd = true → done' s = true) (himp : ∀ s, done' s = true → done s = true) :
    EndsList done' where
  atEnd := hend
  declaration s hs := Bool.eq_false_iff.2 fun hd => by simpa [h.declaration s hs] using himp s hd
  opensBlock {_ s _ _ _} hs := Bool.eq_false_iff.2 fun hd => by simpa [h.opensBlock hs] using himp s hd

theorem endsList_block : EndsList fun s => s.atEnd || s.atMark .closeBrace :=
  endsList_cases.of_imp (fun s h => by rw [h]; rfl) fun s h => by
    rcases Bool.or_eq_true_iff.1 h with h | h <;> simp [h]

/-- The parse runs to the end of the text, and what it reads is as `P` says. -/
def RunsToEnd (text : List Char) (x : Parse α) (s : ParserState) (P : α → Prop) : Prop :=
  ∃ a t, x s = .ok a t ∧ t.Edits text ∧ t.atEnd = true ∧ P a

namespace RunsToEnd

variable {x : Parse α} {f : α → Parse β} {P : α → Prop} {Q : β → Prop} {a : α}

/-- At the end nothing is left to do. -/
theorem done (hs : s.Edits text) (hend : s.atEnd = true) (h : P a) : RunsToEnd text (pure a) s P :=
  ⟨a, s, rfl, hs, hend, h⟩

/-- What is read first does not reach the end. -/
theorem after (hx : x s = .ok a t) (h : RunsToEnd text (f a) t Q) : RunsToEnd text (x >>= f) s Q := by
  obtain ⟨b, u, hrun, hu⟩ := h
  exact ⟨b, u, (bind_of_ok hx).trans hrun, hu⟩

/-- What is read first reaches the end, and what comes next stays there. -/
theorem bind (hx : RunsToEnd text x s P)
    (h : ∀ a t, t.Edits text → t.atEnd = true → P a → RunsToEnd text (f a) t Q) : RunsToEnd text (x >>= f) s Q := by
  obtain ⟨a, t, hrun, ht, hend, ha⟩ := hx
  exact after hrun (h a t ht hend ha)

theorem nested (hd : s.depth < maxParseDepth) (h : RunsToEnd text x s.deeper P) : RunsToEnd text (nested x) s P := by
  obtain ⟨a, t, hrun, ht, hend, ha⟩ := h
  exact ⟨a, _, nested_of_ok hd hrun, ht.at_depth _, hend, ha⟩

theorem allowIn (hs : s.Edits text) (h : RunsToEnd text x s P) : RunsToEnd text (allowIn x) s P := by
  obtain ⟨a, t, hrun, ht, hend, ha⟩ := h
  have hsame : ({ s with noIn := false } : ParserState) = s := by rw [← hs.noIn]
  refine ⟨a, _, withNoIn_of_ok (hsame ▸ hrun), ?_, hend, ha⟩
  rw [show ({ t with noIn := s.noIn } : ParserState) = t by rw [hs.noIn, ← ht.noIn]]
  exact ht

theorem mono {P' : α → Prop} (hx : RunsToEnd text x s P) (h : ∀ a, P a → P' a) : RunsToEnd text x s P' := by
  obtain ⟨a, t, hrun, ht, hend, ha⟩ := hx
  exact ⟨a, t, hrun, ht, hend, h a ha⟩

theorem map (f : α → β) (hx : RunsToEnd text x s P) : RunsToEnd text (f <$> x) s fun b => ∃ a, P a ∧ b = f a := by
  obtain ⟨a, t, hrun, ht, hend, ha⟩ := hx
  exact ⟨f a, t, map_ok.2 ⟨a, hrun, rfl⟩, ht, hend, a, ha, rfl⟩

theorem attempt (hx : RunsToEnd text x s P) : RunsToEnd text (Parse.attempt x) s fun r => ∃ a, P a ∧ r = .ok a := by
  obtain ⟨a, t, hrun, ht, hend, ha⟩ := hx
  exact ⟨.ok a, t, attempt_of_ok hrun, ht, hend, a, ha, rfl⟩

/-- A list ends with the item that runs to the end. -/
theorem collect {done : ParserState → Bool} {step : Parse (Option α)} {P : Option α → Prop} {rounds : Nat}
    (hrounds : 0 < rounds) (hgoes : done s = false) (hdone : ∀ t, t.atEnd = true → done t = true)
    (hstep : RunsToEnd text step s P) :
    RunsToEnd text (collect done step rounds) s fun l => ∃ o, P o ∧ l = o.toList := by
  obtain ⟨rounds, rfl⟩ : ∃ k, rounds = k + 1 := ⟨rounds - 1, by omega⟩
  rw [Parse.collect]
  refine after (a := s) rfl ?_
  rw [if_neg (by simp [hgoes])]
  refine hstep.bind fun o t ht hend ho => after (collect_of_done (hdone t hend)) ?_
  exact .done ht hend ⟨o, ho, List.append_nil _⟩

theorem collectUntil {done : ParserState → Bool} {step : Parse (Option α)} {P : Option α → Prop} (hs : s.Sound)
    (hgoes : done s = false) (hdone : ∀ t, t.atEnd = true → done t = true) (hstep : RunsToEnd text step s P) :
    RunsToEnd text (collectUntil done step) s fun l => ∃ o, P o ∧ l = o.toList :=
  after (a := s) rfl (collect (Nat.lt_of_le_of_lt (Nat.zero_le _) hs.inside) hgoes hdone hstep)

end RunsToEnd

/-- While recovering, the end of the input closes a construct in braces. -/
theorem closeBrace_of_atEnd (hs : s.Edits text) (hend : s.atEnd = true) :
    closeBrace s = .ok (unitLength text + 1) s := by
  refine closeBrace_ok.2 (.inl ⟨by rw [hs.recovering, hend]; rfl, ?_, rfl⟩)
  rw [stop_of_end hs.tokens (ParserState.kind_of_atEnd hend)]

end Typeahead
