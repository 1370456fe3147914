/-
# What is made at a depth

A parse ends at the depth it began at, and how deep the tree it makes nests follows from how
much deeper a parse can get from there. An expression or statement inside another adds one to the
depth, and between two such steps the grammar adds no more than thirteen nodes, one in another, to
the tree, links of chains apart.

Key definitions: `Makes`, `room`, `Production.extra`, `Grammar.Shapes`.
Key theorems: `Makes.bind`, `Makes.nested`, `Makes.collect`.
-/
import Typeahead.Proofs.Depth.Tree
import Typeahead.Proofs.Parse.Intact

namespace Typeahead

open Parse Grammar

variable {α β : Type}

/-- From a state at the depth `x` ends at that depth, with a result of which `P` holds. -/
def Makes (depth : Nat) (P : α → Prop) (x : Parse α) : Prop :=
  ∀ s a t, s.depth = depth → x s = .ok a t → t.depth = depth ∧ P a

namespace Makes

variable {depth : Nat} {P : α → Prop} {Q : β → Prop}

theorem pure {a : α} (h : P a) : Makes depth P (Pure.pure a) := by
  intro s b t hs hrun
  cases hrun
  exact ⟨hs, h⟩

theorem bind {x : Parse α} {f : α → Parse β} (hx : Makes depth P x)
    (hf : ∀ a, P a → Makes depth Q (f a)) : Makes depth Q (x >>= f) := by
  intro s b t hs hrun
  obtain ⟨a, u, hu, hrun⟩ := bind_ok.1 hrun
  obtain ⟨hdepth, ha⟩ := hx s a u hs hu
  exact hf a ha u b t hdepth hrun

theorem weaken {P' : α → Prop} {x : Parse α} (hx : Makes depth P x) (h : ∀ a, P a → P' a) :
    Makes depth P' x := by
  intro s a t hs hrun
  obtain ⟨hdepth, ha⟩ := hx s a t hs hrun
  exact ⟨hdepth, h a ha⟩

theorem mono {most most' : Nat} {x : Parse Node} (hx : Makes depth (Node.Shaped most) x) (hle : most ≤ most') :
    Makes depth (Node.Shaped most') x :=
  hx.weaken fun _ h => h.mono hle

/-- A step of whose result nothing is said. -/
theorem step {x : Parse α} {f : α → Parse β} (hx : ∀ s, Proceeds x s) (hf : ∀ a, Makes depth Q (f a)) :
    Makes depth Q (x >>= f) := by
  intro s b t hs hrun
  obtain ⟨a, u, hu, hrun⟩ := bind_ok.1 hrun
  exact hf a u b t (((hx s).ok hu).depth.trans hs) hrun

theorem look {f : ParserState → Parse α} (hf : ∀ s, Makes depth P (f s)) : Makes depth P (get >>= f) :=
  fun s a t hs hrun => hf s s a t hs hrun

theorem offset {f : Nat → Parse α} (hf : ∀ start, Makes depth P (f start)) :
    Makes depth P (Parse.offset >>= f) :=
  fun s a t hs hrun => hf s.offset s a t hs hrun

theorem next {f : Token → Parse α} (hf : ∀ token, Makes depth P (f token)) :
    Makes depth P (Parse.next >>= f) :=
  .step (fun _ => .next) hf

theorem nextIf {p : ParserState → Bool} {f : Bool → Parse α} (hf : ∀ b, Makes depth P (f b)) :
    Makes depth P (Parse.nextIf p >>= f) :=
  .step (fun _ => .nextIf p) hf

theorem expectKind {kind : TokenKind} {f : Token → Parse α} (hf : ∀ token, Makes depth P (f token)) :
    Makes depth P (Parse.expectKind kind >>= f) :=
  .step (fun _ => .expectKind kind) hf

/-- A step that calls on no production. -/
theorem built {x : Parse α} {f : α → Parse β} (hx : ∀ s, Built 0 s (fun _ => True) fun _ => x)
    (hf : ∀ a, Makes depth Q (f a)) : Makes depth Q (x >>= f) :=
  .step (fun s => (hx s).proceeds (parseLevel_proceeds 0) s (.rfl s)) hf

theorem expectReserved {word : String} {f : Token → Parse α} (hf : ∀ token, Makes depth P (f token)) :
    Makes depth P (Parse.expectReserved word >>= f) :=
  .built (fun _ => .expectReserved) hf

theorem bindingName {f : String → Parse α} (hf : ∀ name, Makes depth P (f name)) :
    Makes depth P (Parse.bindingName >>= f) :=
  .built (fun _ => .bindingName) hf

theorem anyWord {f : String → Parse α} (hf : ∀ name, Makes depth P (f name)) :
    Makes depth P (Parse.anyWord >>= f) :=
  .built (fun _ => .anyWord) hf

theorem semicolon {f : Unit → Parse α} (hf : ∀ u, Makes depth P (f u)) :
    Makes depth P (Parse.semicolon >>= f) :=
  .built (fun _ => .semicolon) hf

theorem fail {e : ParseError} : Makes depth P (throw e) := fun _ _ _ _ hrun => by cases hrun

theorem finish {start : Nat} {kind : NodeKind} {P : Node → Prop} (h : ∀ range, P ⟨range, kind⟩) :
    Makes depth P (Parse.finish start kind) :=
  .look fun _ => .pure (h _)

theorem map {x : Parse α} {f : α → β} (hx : Makes depth P x) (hf : ∀ a, P a → Q (f a)) :
    Makes depth Q (f <$> x) := by
  rw [map_eq_pure_bind]
  exact hx.bind fun a ha => .pure (hf a ha)

theorem ite {c : Prop} [Decidable c] {x y : Parse α} (hx : Makes depth P x) (hy : Makes depth P y) :
    Makes depth P (if c then x else y) := by
  split
  · exact hx
  · exact hy

theorem withNoIn {noIn : Bool} {x : Parse α} (hx : Makes depth P x) : Makes depth P (withNoIn noIn x) := by
  intro s a t hs hrun
  rw [Parse.withNoIn] at hrun
  split at hrun <;> rename_i hu <;> cases hrun
  obtain ⟨hdepth, ha⟩ := hx { s with noIn } _ _ hs hu
  exact ⟨hdepth, ha⟩

theorem allowIn {x : Parse α} (hx : Makes depth P x) : Makes depth P (allowIn x) := hx.withNoIn

theorem modify {f : ParserState → ParserState} {rest : PUnit → Parse α} (hf : ∀ s, (f s).depth = s.depth)
    (hrest : ∀ u, Makes depth P (rest u)) : Makes depth P (modify f >>= rest) :=
  fun s a t hs hrun => hrest () (f s) a t ((hf s).trans hs) hrun

theorem collect {done : ParserState → Bool} {step : Parse (Option α)}
    (h : Makes depth (fun o => ∀ a ∈ o.toList, P a) step) :
    ∀ rounds, Makes depth (fun l => ∀ a ∈ l, P a) (collect done step rounds)
  | 0 => .pure (by simp)
  | rounds + 1 => by
    refine .look fun s => .ite (.pure (by simp)) (h.bind fun o ho => (collect h rounds).bind fun items hitems => ?_)
    exact .pure (List.forall_mem_append.2 ⟨ho, hitems⟩)

theorem collectUntil {done : ParserState → Bool} {step : Parse (Option α)}
    (h : Makes depth (fun o => ∀ a ∈ o.toList, P a) step) :
    Makes depth (fun l => ∀ a ∈ l, P a) (collectUntil done step) :=
  .look fun s => collect h s.rounds

/-- A list of pieces. -/
theorem list {most : Nat} {done : ParserState → Bool} {step : Parse (Option Node)}
    (h : Makes depth (fun o => Node.AllShaped most o.toList) step) :
    Makes depth (Node.AllShaped most) (Parse.collectUntil done step) :=
  collectUntil h

/-- A piece that is there, where pieces may be missing, and what follows. -/
theorem present {most : Nat} {x : Parse Node} {f : Option Node → Parse α} (hx : Makes depth (Node.Shaped most) x)
    (hf : ∀ o, Node.AllShaped most o.toList → Makes depth P (f o)) : Makes depth P (some <$> x >>= f) :=
  (hx.map fun _ hn => .single hn).bind hf

/-- A piece that may be missing, and what follows in either case. -/
theorem optional {most : Nat} {c : Prop} [Decidable c] {x : Parse Node} {f : Option Node → Parse α}
    (hx : Makes depth (Node.Shaped most) x) (hf : ∀ o, Node.AllShaped most o.toList → Makes depth P (f o)) :
    Makes depth P (if c then some <$> x >>= f else Pure.pure none >>= f) :=
  .ite (.present hx hf) (hf none .nil)

end Makes

/-- The nested steps that lead down a tree that is parsed at a depth: a parse that deep may go on
to the greatest depth, and thirteen steps lead from each to the next. -/
def room (depth : Nat) : Nat := 13 * (maxParseDepth - depth)

/-- The steps a production adds that does not count as deeper itself. An operator binds no tighter
than `**`. -/
def Production.extra : Production → Nat
  | .assignment | .unary | .statement => 0
  | .binary least => 12 - least
  | .leftHandSide | .newExpression => 4
  | .method _ => 2

/-- The productions of the grammar shape what they make at a depth, where `most` nested steps lead
down from a production that counts as deeper. -/
structure Grammar.Shapes (g : Grammar) (depth most : Nat) : Prop where
  proceeds : g.Proceeds
  makes : ∀ q, Makes depth (Node.Shaped (most + q.extra)) (g q)

/-- Going deeper there is room for thirteen steps. -/
theorem Makes.nested {depth : Nat} {x : Parse Node}
    (h : Makes (depth + 1) (Node.Shaped (room (depth + 1) + 13)) x) :
    Makes depth (Node.Shaped (room depth)) (nested x) := by
  intro s n t hs hrun
  obtain ⟨hd, u, hu, rfl⟩ := nested_ok hrun
  obtain ⟨hdepth, hn⟩ := h _ n u (congrArg (· + 1) hs) hu
  refine ⟨?_, hn.mono ?_⟩
  · simp only [hdepth, Nat.add_sub_cancel]
  · rw [room, room]
    omega

namespace Grammar.Shapes

variable {g : Grammar} {depth most : Nat} (hg : g.Shapes depth most)
include hg

theorem assignment : Makes depth (Node.Shaped most) (g .assignment) := hg.makes .assignment

theorem unary : Makes depth (Node.Shaped most) (g .unary) := hg.makes .unary

theorem statement : Makes depth (Node.Shaped most) (g .statement) := hg.makes .statement

end Grammar.Shapes

end Typeahead
