/-
# A script read in two ways

The statements of a script are read to its end by a loop that is built like any production.
So a clean run over a script in one mode, with memory or without, is carried over to the
other mode and to either memory, if no node is left open.

Key definitions: `Grammar.script`, `ParserState.startOf`, `Comparison.forgetting`,
`Comparison.remembering`.
Key theorems: `not_fallsBack_of_commits`, `script_atEnd`, `script_clean`.
-/
import Typeahead.Proofs.Parse.Carry
import Typeahead.Proofs.Parse.Source

namespace Typeahead

open Text Parse Grammar

variable {α : Type} {text : List Char} {s t : ParserState}

/-! ### Comparisons -/

/-- The second parse forgets. -/
def Comparison.forgetting (text : List Char) (mode mode' memory : Bool) : Comparison where
  tokens := (TokenStream.ofText text).tokens
  start := 0
  last := unitLength text
  mode := mode
  mode' := mode'
  memory := memory
  memory' := false
  ends _ := stop_of_end
  sound h := by cases h

theorem TokenStream.ext_position {s t : TokenStream} (ht : s.tokens = t.tokens)
    (hp : s.position = t.position) : s = t := by
  cases s
  cases t
  cases ht
  cases hp
  rfl

/-- **Where one parse reads the parameters of an arrow function, none reads a list** that no
arrow follows. A third parse at depth zero reads the parameters too, and ends beside the list. -/
theorem not_fallsBack_of_commits {recovering : Bool} {place : Nat}
    (hc : Commits recovering (TokenStream.ofText text).tokens place) :
    ¬ FallsBack recovering (TokenStream.ofText text).tokens place := by
  obtain ⟨k, s, params, u, hs, hreads⟩ := hc
  rintro ⟨l, r, v, hr, hlist, harrow⟩
  let c : Comparison := .forgetting text recovering recovering false
  have hstream : r.stream = s.stream := TokenStream.ext_position (hr.tokens.trans hs.tokens.symm)
    (hr.position.trans hs.position.symm)
  let start : ParserState := { s.advance with depth := 0 }
  have hpair : c.Pair s.advance start :=
    { tokens := s.stream.tokens_advance.trans hs.tokens
      started := Nat.zero_le _
      mode := hs.recovering
      memory := hs.forgets
      mode' := hs.recovering
      memory' := hs.forgets
      view := ⟨rfl, rfl⟩
      depth := Nat.zero_le _
      remembers := fun h => by cases h }
  have hpair' : c.Pair { r.advance with noIn := false } { start with noIn := false } :=
    { tokens := r.stream.tokens_advance.trans hr.tokens
      started := Nat.zero_le _
      mode := hr.recovering
      memory := hr.forgets
      mode' := hs.recovering
      memory' := hs.forgets
      view := ⟨congrArg TokenStream.advance hstream.symm, rfl⟩
      depth := Nat.zero_le _
      remembers := fun h => by cases h }
  obtain ⟨w, hw, hpw⟩ := (Comparison.carriesAt k (max k l) (Nat.le_max_left k l)
    (built_parametersFrom s.advance.rounds s.advance) (.rfl _) hpair hreads.reads).carried
      (by rw [hreads.closes]; simp) (by rw [hreads.closes]; simp)
  have hbeside := Comparison.beside_parametersFrom (n := max k l)
    (fun k' hk' => Comparison.carriesAt k' _ (by omega)) s.advance.rounds hlist hpair' rfl
  obtain ⟨-, hstop⟩ := hbeside.ok ((IgnoresNoIn.parametersFrom _ _ start false).1 _ _ hw.1)
  have hv : v.stream = u.stream := (hstop (hpw.kind.trans hreads.closes)).symm.trans hpw.view.1
  refine harrow ?_
  have harrow' := hreads.arrow
  rw [isArrow, Bool.and_eq_true, beq_iff_eq] at harrow'
  rw [ParserState.kind, ParserState.current]
  have hadvance : v.advance.stream = u.advance.stream := congrArg TokenStream.advance hv
  rw [hadvance]
  exact harrow'.1

/-- The second parse remembers, and the first does not. -/
def Comparison.remembering (text : List Char) (mode : Bool) : Comparison where
  tokens := (TokenStream.ofText text).tokens
  start := 0
  last := unitLength text
  mode := mode
  mode' := mode
  memory := false
  memory' := true
  ends _ := stop_of_end
  sound _ := ⟨rfl, rfl, fun _ => not_fallsBack_of_commits⟩

/-! ### Statements to the end of the input -/

/-- The statements of a script. -/
def Grammar.script (g : Grammar) : Parse (List Node) := collectUntil (·.atEnd) (listedStatement g)

theorem built_script {last : Nat} : Built last s (AnyOpen last) script :=
  .nodes (fun _ _ h => by rw [ParserState.atEnd, ParserState.atEnd, h.1]) fun _ _ => .listedStatement

/-- Statements are read in so many rounds that all tokens are, as each reads one. -/
theorem atEnd_of_collect {levels : Nat} : ∀ rounds {s t : ParserState} {l : List Node}, s.Closed →
    s.rounds ≤ s.position + rounds →
    CleanRun (collect (·.atEnd) (listedStatement (parseLevel levels)) rounds) s l t → t.atEnd = true
  | rounds, s, t, l, hc, hr, h => by
    have hg := parseLevel_proceeds levels
    rcases h.of_collect (Proceeds.listedStatement hg) with
      ⟨rfl, hend | rfl⟩ | ⟨n, o, u, rest, rfl, hnot, ho, hrest, -⟩
    · exact hend
    · by_contra hk
      have hlt := t.position_lt_advance hc fun h => hk (beq_iff_eq.2 h)
      have hlast : ¬ t.stream.position < t.stream.lastIndex := by
        have hr : t.stream.tokens.size ≤ t.stream.position + 0 := hr
        rw [TokenStream.lastIndex]
        omega
      have hstay : t.advance.stream = t.stream := if_neg hlast
      rw [ParserState.position, ParserState.position, hstay] at hlt
      exact Nat.lt_irrefl _ hlt
    · obtain ⟨node, -, hnode⟩ := ho.of_listedStatement hg
      have hfollows := (hg .statement s).ok hnode.1
      have hlt := parseLevel_reads levels .statement s hc node u hnode.1
      have hrounds : u.rounds = s.rounds := by
        rw [ParserState.rounds, hfollows.tokens]
        rfl
      exact atEnd_of_collect n (hc.of_tokens hfollows.tokens) (by omega) hrest

/-- **A clean run over a script ends at the end of the input.** -/
theorem script_atEnd {levels : Nat} {body : List Node} (hc : s.Closed)
    (h : CleanRun (script (parseLevel levels)) s body t) : t.atEnd = true :=
  atEnd_of_collect s.rounds hc (Nat.le_add_left _ _) h

/-- A script before it is read, in a mode and with memory or without. -/
def ParserState.startOf (text : List Char) (recovering remembersArrows : Bool) : ParserState :=
  { ParserState.ofText text with recovering, remembersArrows }

theorem Comparison.Pair.ofText {c : Comparison} (ht : c.tokens = (TokenStream.ofText text).tokens)
    (hstart : c.start = 0) :
    c.Pair (.startOf text c.mode c.memory) (.startOf text c.mode' c.memory') where
  tokens := ht.symm
  started := hstart ▸ Nat.zero_le _
  mode := rfl
  memory := rfl
  mode' := rfl
  memory' := rfl
  view := .rfl _
  depth := Nat.le_refl _
  remembers _ p hp := by cases hp

/-- A clean run over a script is carried over by a comparison. -/
theorem Comparison.script_carried {c : Comparison} {levels : Nat} {body : List Node}
    (ht : c.tokens = (TokenStream.ofText text).tokens) (hstart : c.start = 0)
    (hopen : c.mode = true → c.mode' = false → ¬ AnyOpen c.last body)
    (h : CleanRun (script (parseLevel levels)) (.startOf text c.mode c.memory) body s) :
    ∃ t, CleanRun (script (parseLevel levels)) (.startOf text c.mode' c.memory') body t ∧
      t.stream = s.stream := by
  have hclosed : ParserState.Closed (.startOf text c.mode c.memory) :=
    closed_ofText (rfl : _ = (TokenStream.ofText text).tokens)
  have hend : s.kind = .endOfInput := beq_iff_eq.1 (script_atEnd hclosed h)
  rcases Comparison.carriesAt levels levels (Nat.le_refl _) built_script (.rfl _) (.ofText ht hstart) h with
    ⟨t, hrun, hp⟩ | harrow | ⟨h₁, h₂, -, h₃⟩
  · exact ⟨t, hrun, hp.view.1⟩
  · cases hend.symm.trans harrow
  · exact absurd h₃ (hopen h₁ h₂)

/-- **A script that is read with no fault in one way is read so in every way**, unless a node
is open that only the recovering parser closes. -/
theorem script_clean (mode mode' memory memory' : Bool) {levels : Nat} {body : List Node}
    (hopen : mode = true → mode' = false → ¬ AnyOpen (unitLength text) body)
    (h : CleanRun (script (parseLevel levels)) (.startOf text mode memory) body s) :
    ∃ t, CleanRun (script (parseLevel levels)) (.startOf text mode' memory') body t ∧
      t.stream = s.stream := by
  obtain ⟨u, hu, hus⟩ :=
    (Comparison.script_carried (c := .forgetting text mode mode' memory) rfl rfl hopen h)
  cases memory' with
  | false => exact ⟨u, hu, hus⟩
  | true =>
    obtain ⟨t, ht, hts⟩ := (Comparison.script_carried (c := .remembering text mode') rfl rfl
      (fun h₁ h₂ => by rw [show mode' = true from h₁] at h₂; cases h₂) hu)
    exact ⟨t, ht, hts.trans hus⟩

end Typeahead
