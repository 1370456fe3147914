/-
# The ranges of a tree

In a tree that a parse yields which fails at the first fault, every node covers a range that
starts no later than it stops, and covers what is in it; and the pieces directly inside a node
follow one another in the text. Only a property that is its own value has two pieces which start at the
same offset, and they do so always.

Key definitions: `NodeKind.Apart`, `Node.Ranged`.
Key theorems: `Node.Placed.of_contains`, `Node.Placed.ranged`, `ranged_of_parsed`.
-/
import Typeahead.Proofs.Depth.Script
import Typeahead.Proofs.Layout.Script

namespace Typeahead

open Parse Grammar

/-- The pieces directly inside a node follow one another, the body of a `do` before its test, but
for the key and the value of a shorthand property, which start together. -/
def NodeKind.Apart : NodeKind → Prop
  | .property key value _ true _ => key.start = value.start
  | .doWhile body test => body.stop ≤ test.start
  | kind => kind.children.Pairwise fun a b => a.stop ≤ b.start

namespace Node

/-- The range of a node is one, and those of the pieces directly inside it lie in it, apart. -/
structure Ranged (n : Node) : Prop where
  le : n.start ≤ n.stop
  covers : ∀ c ∈ n.kind.children, n.start ≤ c.start ∧ c.stop ≤ n.stop
  apart : n.kind.Apart

variable {n m : Node}

/-- What is directly inside a node is one of its pieces, or the key of a shorthand property. -/
theorem mem_pieces_or_key {kind : NodeKind} (h : n ∈ kind.children) :
    n ∈ kind.pieces ∨ ∃ value method, kind = .property n value false true method := by
  cases kind with
  | property key value computed shorthand method =>
    rcases List.mem_cons.1 h with rfl | h
    · cases computed <;> cases shorthand
      case false.true => exact .inr ⟨value, method, rfl⟩
      all_goals exact .inl List.mem_cons_self
    · refine .inl ?_
      rw [List.mem_singleton.1 h, NodeKind.pieces]
      split <;> simp
  | doWhile body test => exact .inl (by simpa [NodeKind.pieces, NodeKind.children, or_comm] using h)
  | _ => exact .inl h

/-- The key of a shorthand property is its value, or the target of the assignment that is; so it
is in the tree below it, and starts where it does. -/
theorem key_of_abbreviates {key value : Node} {method : Bool}
    (h : (NodeKind.property key value false true method).Abbreviates) (hv : value.Placed) :
    key.Placed ∧ key.start = value.start := by
  obtain ⟨-, rfl | ⟨fallback, rfl⟩⟩ := h
  · exact ⟨hv, rfl⟩
  · exact ⟨hv.of_mem List.mem_cons_self, rfl⟩

/-- Everywhere in a tree whose pieces are in order they are, the keys of shorthand properties
included. -/
theorem Placed.of_contains (h : n.Placed) (ha : ∀ m, n.Contains m → m.kind.Abbreviates)
    (hm : n.Contains m) : m.Placed := by
  induction hm with
  | self => exact h
  | @inside n c m hc _ ih =>
    refine ih ?_ fun k hk => ha k (.inside hc hk)
    obtain ⟨range, kind⟩ := n
    rcases mem_pieces_or_key hc with hc | ⟨value, method, hkind⟩
    · exact h.of_mem hc
    · obtain rfl : kind = _ := hkind
      exact (key_of_abbreviates (ha _ (.self _)) (h.of_mem (by simp [NodeKind.pieces]))).1

/-- Pieces in order are apart, as each ends where its own range does. -/
theorem apart_of_inOrder {first : Nat} {kind : NodeKind} (h : InOrder first kind.pieces) (ha : kind.Abbreviates)
    (hp : ∀ c ∈ kind.pieces, c.Placed) : kind.Apart := by
  have hapart : kind.pieces.Pairwise fun a b => a.stop ≤ b.start := h.apart.imp fun hends => hends.stop_le
  cases kind with
  | property key value computed shorthand method =>
    cases shorthand with
    | false => simpa [NodeKind.pieces, NodeKind.Apart, NodeKind.children] using hapart
    | true =>
      obtain rfl : computed = false := ha.1
      exact (key_of_abbreviates ha (hp value List.mem_cons_self)).2
  | doWhile body test => simpa [NodeKind.pieces, NodeKind.Apart] using hapart
  | _ => exact hapart

/-- A node whose pieces are in order in its range. -/
theorem Ranged.of_inOrder {range : TextRange} {kind : NodeKind} (hle : range.start ≤ range.stop)
    (h : InOrder range.start kind.pieces) (hp : ∀ c ∈ kind.pieces, c.Placed)
    (he : ∀ c ∈ kind.children, c.stop ≤ range.stop) (ha : kind.Abbreviates) : Ranged ⟨range, kind⟩ where
  le := hle
  covers c hc := by
    refine ⟨?_, he c hc⟩
    rcases mem_pieces_or_key hc with hc | ⟨value, method, rfl⟩
    · exact h.starts c hc
    · have hmem : value ∈ (NodeKind.property c value false true method).pieces := List.mem_cons_self
      exact Nat.le_trans (h.starts value hmem) (Nat.le_of_eq (key_of_abbreviates ha (hp value hmem)).2.symm)
  apart := apart_of_inOrder h ha hp

theorem Placed.ranged (h : n.Placed) (ht : n.Tight) (ha : n.kind.Abbreviates) : n.Ranged := by
  obtain ⟨range, kind⟩ := n
  exact .of_inOrder (Nat.le_of_lt h.start_lt_stop) h.inOrder (fun c hc => h.of_mem hc)
    (fun c hc => (ht.endsWithin.of_mem hc).stop_le) ha

/-- Everywhere in a tree that is in order and tight. -/
theorem Placed.ranged_of_contains (h : n.Placed) (ht : n.Tight) (ha : ∀ m, n.Contains m → m.kind.Abbreviates)
    (hm : n.Contains m) : m.Ranged :=
  (h.of_contains ha hm).ranged (ht.of_contains hm) (ha m hm)

end Node

variable {text : List Char} {n : Node}

/-- What a production makes of the start of a text is in order and tight. -/
theorem laid_parse {q : Production} (h : (parse q).result (.ofText text) = .ok n) : n.Placed ∧ n.Tight := by
  rw [Parse.result] at h
  split at h <;> rename_i hrun <;> cases h
  have hs : ParserState.SoundAt 0 (.ofText text) := ⟨sound_startOf text false true, rfl⟩
  have hlays := (parseLevel_lays _).lays hs hrun
  exact ⟨hlays.placed _ List.mem_cons_self, hlays.tight rfl _ List.mem_cons_self⟩

/-- A program covers its statements, which follow one another. -/
theorem ranged_parseProgram (h : parseProgram text = .ok n) (ha : ∀ m, n.Contains m → m.kind.Abbreviates) {m : Node}
    (hm : n.Contains m) : m.Ranged := by
  obtain ⟨body, t, ⟨hrun, -⟩, rfl⟩ := (program_ok : program.result (.startOf text false true) = .ok _ ↔ _).1 h
  have hlays := lays_script hrun
  have ht := hlays.sound_after
  cases hm with
  | self =>
    have hstop : t.lastStop ≤ t.current.stop := Nat.le_trans ht.lastStop_le_offset ht.offset_le_stop
    refine .of_inOrder ?_ hlays.inOrder hlays.placed (fun c hc => ?_) trivial
    · exact Nat.le_trans (hlays.follows.offset_le hlays.sound) ht.offset_le_stop
    · have hwithin := (hlays.within c hc).stop_le
      rw [ParserState.reach_of_strict (hlays.follows.recovering.trans rfl)] at hwithin
      exact Nat.le_trans hwithin hstop
  | inside hc hm =>
    exact (hlays.placed _ hc).ranged_of_contains (hlays.tight rfl _ hc) (fun k hk => ha k (.inside hc hk)) hm

/-- **The ranges of a tree are as in the text**: in a tree that a parse yields which fails at the
first fault, every node covers the pieces directly inside it, and these follow one another. -/
theorem ranged_of_parsed (h : ParsedStrictly text n) : ∀ m, n.Contains m → m.Ranged := by
  intro m hm
  have ha := h.shaped.abbreviates
  cases h with
  | program h => exact ranged_parseProgram h ha hm
  | expression h =>
    obtain ⟨hplaced, htight⟩ := laid_parse h
    exact hplaced.ranged_of_contains htight ha hm
  | statement h =>
    obtain ⟨hplaced, htight⟩ := laid_parse h
    exact hplaced.ranged_of_contains htight ha hm

/-- A pattern whose only property is shorthand, with its name for key and value. -/
theorem ranged_of_parsed_pattern : ∃ n, parseExpression "{ a } = b".toList = .ok n ∧
    ∀ m, n.Contains m → m.Ranged := by
  let name : Node := ⟨⟨2, 3⟩, .identifier "a"⟩
  obtain ⟨n, hparse⟩ : ∃ n, parseExpression "{ a } = b".toList = .ok n :=
    ⟨⟨⟨0, 9⟩, .assignment (.punct .equals)
      ⟨⟨0, 5⟩, .objectLiteral [⟨⟨2, 3⟩, .property name name false true false⟩]⟩
      ⟨⟨8, 9⟩, .identifier "b"⟩⟩, eq_ok_of_same (by decide +kernel)⟩
  exact ⟨n, hparse, ranged_of_parsed (.expression hparse)⟩

end Typeahead
