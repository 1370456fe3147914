/-
# Parses under the restriction on `in`

In the head of a `for` the word `in` is no operator. A parse agrees where it does the same under that restriction
and without it. Most functions of the grammar do, since they do not look at it.

Key definitions: `Agrees`, `StopsAtIn`, `GetsTo`.
Key theorems: `IsParseFunction.agrees`, `Agrees.bind`, `Agrees.collectUntil`.
-/
import Typeahead.Proofs.Parse.Heads
import Typeahead.Proofs.Parse.Intact
import Typeahead.Proofs.Parse.Local

namespace Typeahead

open Parse Grammar

variable {α β : Type} {g : Grammar} {s t : ParserState}

/-! ### What ignores the restriction -/

namespace IgnoresNoIn

theorem next : IgnoresNoIn next := fun _ _ =>
  ⟨fun _ _ h => by cases h; rfl, fun _ _ h => by cases h⟩

theorem offset : IgnoresNoIn offset := look (fun _ _ => rfl) fun _ => .pure _

theorem finish (start : Nat) (kind : NodeKind) : IgnoresNoIn (finish start kind) :=
  look (fun _ _ => rfl) fun _ => .pure _

theorem throw (e : ParseError) : IgnoresNoIn (throw e : Parse α) := fun _ _ =>
  ⟨fun _ _ h => (nomatch h), fun _ _ h => by cases h; rfl⟩

theorem anyWord : IgnoresNoIn anyWord := by
  refine fun s noIn => ⟨fun a t h => ?_, fun e t h => ?_⟩ <;> rw [Parse.anyWord] at h ⊢ <;>
    split at h <;> cases h
  · exact if_pos ‹_›
  · exact if_neg ‹_›

theorem semicolon : IgnoresNoIn semicolon := by
  refine fun s noIn => ⟨fun a t h => ?_, fun e t h => ?_⟩ <;> rw [Parse.semicolon] at h ⊢ <;>
    split at h
  · cases h
    exact if_pos ‹_›
  · split at h <;> cases h
    exact (if_neg ‹_›).trans (if_pos ‹_›)
  · cases h
  · split at h <;> cases h
    exact (if_neg ‹_›).trans (if_neg ‹_›)

theorem leaf (kind : Token → NodeKind) : IgnoresNoIn (leaf kind) :=
  next.bind fun _ => finish _ _

theorem computedKey (g : Grammar) : IgnoresNoIn (computedKey g) :=
  (expectKind _).bind fun _ => (withNoIn _ _).bind fun _ => (expectKind _).bind fun _ => .pure _

theorem arguments (g : Grammar) : IgnoresNoIn (arguments g) :=
  (expectKind _).bind fun _ => (withNoIn _ _).bind fun _ => (expectKind _).bind fun _ => .pure _

theorem memberName : IgnoresNoIn memberName := by
  refine offset.bind fun start => (nextIf fun _ _ => rfl).bind fun hash => ?_
  split
  · exact anyWord.bind fun _ => finish _ _
  · exact anyWord.bind fun _ => finish _ _

theorem parameterList (g : Grammar) : IgnoresNoIn (parameterList g) :=
  (expectKind _).bind fun _ => look (fun _ _ => rfl) fun _ => (parametersFrom g _).bind fun _ =>
    (expectKind _).bind fun _ => .pure _

/-- Where parameters are tried in vain the state is taken back, and its restriction with it. -/
theorem arrowParameters? (g : Grammar) : IgnoresNoIn (arrowParameters? g) := by
  intro s noIn
  obtain ⟨hok, herror⟩ := parameterList g s noIn
  refine ⟨fun a t h => ?_, fun e t h => ?_⟩ <;> rw [Grammar.arrowParameters?] at h ⊢ <;> split at h
  · cases h
    exact if_pos ‹_›
  · refine (if_neg ‹_›).trans ?_
    split at h
    · rename_i params u hrun
      rw [hok params u hrun]
      dsimp only
      split at h <;> cases h
      · exact if_pos ‹_›
      · exact if_neg ‹_›
    · rename_i e u hrun
      rw [herror e u hrun]
      cases h
      rfl
  · cases h
  · split at h
    · split at h <;> cases h
    · cases h

theorem asyncArrowParameters? (g : Grammar) : IgnoresNoIn (asyncArrowParameters? g) := by
  intro s noIn
  obtain ⟨hok, herror⟩ := arrowParameters? g s.advance noIn
  refine ⟨fun a t h => ?_, fun e t h => ?_⟩ <;> rw [Grammar.asyncArrowParameters?] at h ⊢ <;> split at h
  · rename_i u hrun
    cases h
    have hrun : Grammar.arrowParameters? g (ParserState.advance { s with noIn }) = _ := hok none u hrun
    rw [hrun]
  · rename_i hnone
    have hrun : Grammar.arrowParameters? g (ParserState.advance { s with noIn }) = _ := hok a t h
    rw [hrun]
    cases a with
    | none => exact absurd h (hnone t)
    | some params => rfl
  · cases h
  · have hrun : Grammar.arrowParameters? g (ParserState.advance { s with noIn }) = _ := herror e t h
    rw [hrun]

theorem functionRest (g : Grammar) (name : Option String) (isAsync : Bool) :
    IgnoresNoIn (functionRest g name isAsync) :=
  (parameterList g).bind fun _ => (withNoIn _ _).bind fun _ => .pure _

theorem functionExpression (g : Grammar) (start : Nat) (isAsync : Bool) :
    IgnoresNoIn (functionExpression g start isAsync) := by
  refine (expectKind _).bind fun _ => (nextIf fun _ _ => rfl).bind fun _ =>
    look (fun _ _ => rfl) fun s => ?_
  have hrest : ∀ name, IgnoresNoIn (Grammar.functionRest g name isAsync >>= fun parts =>
      Pure.pure (functionNode start parts)) := fun name => (functionRest g name isAsync).bind fun _ => .pure _
  split
  · rw [map_eq_pure_bind, bind_assoc]
    exact bindingName.bind fun name => hrest _
  · exact hrest none

theorem newCalleeTail (g : Grammar) (start : Nat) : ∀ rounds callee,
    IgnoresNoIn (newCalleeTail g start rounds callee)
  | 0, _ => .pure _
  | rounds + 1, callee => by
    refine look (fun _ _ => rfl) fun s => ?_
    split
    · exact next.bind fun _ => memberName.bind fun _ => (finish _ _).bind fun _ => newCalleeTail g start rounds _
    · exact (computedKey g).bind fun _ => (finish _ _).bind fun _ => newCalleeTail g start rounds _
    · exact .pure _

theorem suffixes (g : Grammar) (start : Nat) : ∀ rounds expression,
    IgnoresNoIn (suffixes g start rounds expression)
  | 0, _ => .pure _
  | rounds + 1, expression => by
    have hrest : ∀ kind, IgnoresNoIn (Parse.finish start kind >>= Grammar.suffixes g start rounds) :=
      fun _ => (finish _ _).bind fun _ => suffixes g start rounds _
    refine look (fun _ _ => rfl) fun s => ?_
    split
    · exact next.bind fun _ => memberName.bind fun _ => hrest _
    · refine next.bind fun _ => look (fun _ _ => rfl) fun s => ?_
      split
      · exact (arguments g).bind fun _ => hrest _
      · exact (computedKey g).bind fun _ => hrest _
      · exact memberName.bind fun _ => hrest _
    · exact (computedKey g).bind fun _ => hrest _
    · exact (arguments g).bind fun _ => hrest _
    · exact (leaf _).bind fun _ => hrest _
    · exact .pure _

theorem elementName (g : Grammar) : IgnoresNoIn (elementName g) := by
  refine look (fun _ _ => rfl) fun s => ?_
  dsimp only
  split
  · exact next.bind fun _ => anyWord.bind fun _ => .pure _
  · exact next.bind fun _ => .pure _
  · exact next.bind fun _ => .pure _
  · exact next.bind fun _ => (withNoIn _ _).bind fun _ => (expectKind _).bind fun _ => .pure _
  · split
    · exact next.bind fun _ => .pure _
    · exact throw _

theorem accessorKind (isAsync isGenerator : Bool) : IgnoresNoIn (accessorKind isAsync isGenerator) := by
  refine look (fun _ _ => rfl) fun s => ?_
  split
  · exact next.bind fun _ => .pure _
  · exact .pure _

theorem closeBrace : IgnoresNoIn closeBrace := by
  refine look (fun _ _ => rfl) fun s => ?_
  split
  · exact .pure _
  · exact (expectKind _).bind fun _ => .pure _

end IgnoresNoIn

/-! ### Agreement -/

/-- The parse does the same with the restriction and without: it has the same result or fault, and leaves the
same state but for the restriction. -/
inductive Agrees (x : Parse α) (s : ParserState) : Prop where
  | ok {a : α} {t : ParserState} : s.Ahead t → x { s with noIn := false } = .ok a { t with noIn := false } →
      x { s with noIn := true } = .ok a { t with noIn := true } → Agrees x s
  | error {e : ParseError} {t : ParserState} : s.Ahead t →
      x { s with noIn := false } = .error e { t with noIn := false } →
      x { s with noIn := true } = .error e { t with noIn := true } → Agrees x s

/-- Under the restriction the parse ends in front of an `in`. -/
def StopsAtIn (x : Parse α) (s : ParserState) : Prop :=
  ∃ a t, x { s with noIn := true } = .ok a t ∧ t.kind = .keyword .inWord

/-- However the parse ends under the restriction, it gets as far as `t`. -/
structure GetsTo (t : ParserState) (x : Parse α) (s : ParserState) : Prop where
  ok : ∀ {a u}, x { s with noIn := true } = .ok a u → t.Ahead u
  error : ∀ {e u}, x { s with noIn := true } = .error e u → t.Ahead u

/-- The step, run again and again from a state until it is `done`, gets to the other. -/
inductive Repeats (done : ParserState → Bool) (step : Parse α) (s : ParserState) : ParserState → Prop where
  | none : Repeats done step s s
  | more {a : α} {t u : ParserState} : Repeats done step s t → done t = false → step t = .ok a u →
      Repeats done step s u

theorem ParserState.ahead_withNoIn (s : ParserState) (noIn : Bool) : s.Ahead { s with noIn } :=
  .of_stream rfl

theorem ParserState.Ahead.withNoIn {noIn : Bool} (h : s.Ahead t) : s.Ahead { t with noIn } :=
  h.trans (t.ahead_withNoIn noIn)

section

variable {x : Parse α} {f : α → Parse β}

theorem GetsTo.mono (h : GetsTo t x s) {u : ParserState} (hu : u.Ahead t) : GetsTo u x s :=
  ⟨fun hrun => hu.trans (h.ok hrun), fun hrun => hu.trans (h.error hrun)⟩

theorem GetsTo.of_proceeds (hp : ∀ s, Proceeds x s) : GetsTo s x s :=
  ⟨fun hrun => (s.ahead_withNoIn _).trans ((hp _).ok hrun).ahead,
    fun hrun => (s.ahead_withNoIn _).trans ((hp _).error hrun).ahead⟩

theorem IgnoresNoIn.agrees (hx : IgnoresNoIn x) (hp : ∀ s, Proceeds x s) : Agrees x s := by
  obtain ⟨hok, herror⟩ := hx { s with noIn := false } true
  cases h : x { s with noIn := false } with
  | ok a t =>
    have hf := (hp _).ok h
    have ht : t = { t with noIn := false } := by rw [← show t.noIn = false from hf.noIn]
    exact .ok ((s.ahead_withNoIn _).trans hf.ahead) (ht ▸ h) (hok a t h)
  | error e t =>
    have hf := (hp _).error h
    have ht : t = { t with noIn := false } := by rw [← show t.noIn = false from hf.noIn]
    exact .error ((s.ahead_withNoIn _).trans hf.ahead) (ht ▸ h) (herror e t h)

/-- A function of the grammar that ignores the restriction. -/
theorem IsParseFunction.agrees {x : Grammar → Parse α} (h : IsParseFunction x) (levels : Nat)
    (hx : IgnoresNoIn (x (parseLevel levels))) : Agrees (x (parseLevel levels)) s :=
  hx.agrees (h.proceeds (parseLevel_proceeds levels))

namespace Agrees

theorem pure (a : α) : Agrees (Pure.pure a) s := .ok (.rfl s) rfl rfl

theorem throw (e : ParseError) : Agrees (throw e : Parse α) s := .error (.rfl s) rfl rfl

theorem finish (start : Nat) (kind : NodeKind) : Agrees (finish start kind) s := .ok (.rfl s) rfl rfl

theorem nextIf {p : ParserState → Bool} (hp : ∀ s noIn, p { s with noIn } = p s) : Agrees (nextIf p) s :=
  (IgnoresNoIn.nextIf hp).agrees fun _ => .nextIf p

theorem expectKind (kind : TokenKind) : Agrees (expectKind kind) s :=
  (IgnoresNoIn.expectKind kind).agrees fun _ => .expectKind kind

theorem bindingName : Agrees bindingName s :=
  IsParseFunction.bindingName.agrees 0 .bindingName

theorem semicolon : Agrees semicolon s :=
  IsParseFunction.semicolon.agrees 0 .semicolon

theorem allowIn (hp : ∀ s, Proceeds x s) : Agrees (allowIn x) s :=
  (IgnoresNoIn.withNoIn _ _).agrees fun _ => .withNoIn (hp _)

theorem getsTo (h : Agrees x s) : GetsTo s x s := by
  cases h with
  | ok ht _ htrue => exact ⟨fun h => by cases htrue.symm.trans h; exact ht.withNoIn, fun h => nomatch htrue.symm.trans h⟩
  | error ht _ htrue =>
    exact ⟨fun h => (nomatch htrue.symm.trans h), fun h => by cases htrue.symm.trans h; exact ht.withNoIn⟩

/-- A parse that runs as another does from a state ahead. -/
theorem of_run {y : Parse α} (ht : s.Ahead t) (hrun : ∀ noIn, x { s with noIn } = y { t with noIn })
    (h : Agrees y t) : Agrees x s := by
  cases h with
  | ok hu hfalse htrue => exact .ok (ht.trans hu) ((hrun _).trans hfalse) ((hrun _).trans htrue)
  | error hu hfalse htrue => exact .error (ht.trans hu) ((hrun _).trans hfalse) ((hrun _).trans htrue)

/-- The state is seen, but not its restriction. -/
theorem look {f : ParserState → Parse α} (hf : ∀ noIn, f { s with noIn } = f s) (h : Agrees (f s) s) :
    Agrees (get >>= f) s :=
  h.of_run (.rfl s) fun _ => by rw [get_run, hf]

theorem offset {f : Nat → Parse α} (h : Agrees (f s.offset) s) : Agrees (offset >>= f) s :=
  of_run (y := f s.offset) (.rfl s) (fun _ => rfl) h

theorem next {f : Token → Parse α} (h : Agrees (f s.current) s.advance) : Agrees (next >>= f) s :=
  h.of_run s.follows_advance.ahead fun _ => rfl

theorem bind (hx : Agrees x s)
    (hf : ∀ a t, x { s with noIn := true } = .ok a { t with noIn := true } → Agrees (f a) t) : Agrees (x >>= f) s := by
  cases hx with
  | ok ht hfalse htrue =>
    exact (hf _ _ htrue).of_run ht fun noIn => by
      cases noIn with
      | false => exact bind_of_ok hfalse
      | true => exact bind_of_ok htrue
  | error ht hfalse htrue => exact .error ht (bind_of_error hfalse) (bind_of_error htrue)

theorem map {f : α → β} (hx : Agrees x s) : Agrees (f <$> x) s := by
  rw [map_eq_pure_bind]
  exact hx.bind fun _ _ _ => .pure _

/-- What is done is told by whether the token is read. -/
theorem branch {p : ParserState → Bool} {f : Bool → Parse α} (hp : ∀ noIn, p { s with noIn } = p s)
    (htrue : p s = true → Agrees (f true) s.advance) (hfalse : p s = false → Agrees (f false) s) :
    Agrees (Parse.nextIf p >>= f) s := by
  cases h : p s with
  | true =>
    exact (htrue h).of_run s.follows_advance.ahead fun noIn => bind_of_ok (nextIf_of_true ((hp noIn).trans h))
  | false => exact (hfalse h).of_run (.rfl s) fun noIn => bind_of_ok (nextIf_of_false ((hp noIn).trans h))

theorem nested (hd : s.depth < maxParseDepth) (h : Agrees x { s with depth := s.depth + 1 }) :
    Agrees (nested x) s := by
  cases h with
  | @ok a t ht hfalse htrue =>
    refine .ok (a := a) (t := { t with depth := t.depth - 1 }) ⟨ht.tokens, ht.position, ht.bound⟩ ?_ ?_
    · exact nested_of_ok (s := { s with noIn := false }) hd hfalse
    · exact nested_of_ok (s := { s with noIn := true }) hd htrue
  | @error e t ht hfalse htrue =>
    refine .error (e := e) (t := { t with depth := t.depth - 1 }) ⟨ht.tokens, ht.position, ht.bound⟩ ?_ ?_
    · exact nested_of_error (s := { s with noIn := false }) hd hfalse
    · exact nested_of_error (s := { s with noIn := true }) hd htrue

/-- A list is the same if the step is wherever it is taken. -/
theorem collect {done : ParserState → Bool} {step : Parse (Option α)} (hdone : ∀ t noIn, done { t with noIn } = done t)
    (hstep : ∀ t, Repeats done step { s with noIn := true } { t with noIn := true } → Agrees step t) :
    ∀ rounds {t}, Repeats done step { s with noIn := true } { t with noIn := true } →
      Agrees (collect done step rounds) t
  | 0, _, _ => .pure _
  | rounds + 1, t, hreached => by
    refine .look (fun noIn => by rw [hdone]) ?_
    split
    · exact .pure _
    · rename_i hnot
      refine (hstep t hreached).bind fun item u hrun => ?_
      have hreached := hreached.more ((hdone t true).trans (Bool.eq_false_iff.2 hnot)) hrun
      exact (collect hdone hstep rounds hreached).bind fun _ _ _ => .pure _

theorem collectUntil {done : ParserState → Bool} {step : Parse (Option α)}
    (hdone : ∀ t noIn, done { t with noIn } = done t)
    (hstep : ∀ t, Repeats done step { s with noIn := true } { t with noIn := true } → Agrees step t) :
    Agrees (collectUntil done step) s :=
  look (fun _ => rfl) (collect hdone hstep s.rounds .none)

end Agrees

end

end Typeahead
