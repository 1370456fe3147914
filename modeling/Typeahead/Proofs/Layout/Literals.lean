/-
# The layout of literals, bodies and classes

What the productions between brackets read is in order. A bracket is read before and after
the pieces, so a node is never empty, even where it has none.

Key theorems: `lays_objectLiteral`, `lays_parameterList`, `lays_block`, `lays_classParts`.
-/
import Typeahead.Proofs.Layout.Run
import Typeahead.Proofs.Parse.Items

namespace Typeahead

open Parse Grammar

variable {depth : Nat} {s t : ParserState} {g : Grammar}

/-! ### Expressions in brackets -/

theorem lays_sequenceOf {most : Nat} {x : Parse Node} {n : Node} (hs : s.Sound)
    (hx : ∀ u n v, s.Follows u → u.Sound → x u = .ok n v → Lays (Node.ScopesWithin most) u v [n])
    (h : sequenceOf x s = .ok n t) : Lays (Node.ScopesWithin most) s t [n] := by
  rw [sequenceOf, run_offset] at h
  obtain ⟨first, u, hu, h⟩ := bind_ok.1 h
  have hfirst := hx s first u (.rfl s) hs hu
  rw [get_run] at h
  split at h
  · cases h
    exact hfirst
  · obtain ⟨others, v, hv, h⟩ := bind_ok.1 h
    cases h
    have hothers : Lays (Node.ScopesWithin most) u t others := by
      refine .collectUntil hfirst.sound_after (fun w o y hw hsw hstep => ?_) hv
      rw [run_next] at hstep
      obtain ⟨item, z, hz, hstep⟩ := bind_ok.1 hstep
      cases hstep
      have hfollows := (hfirst.follows.trans hw).trans w.follows_advance
      exact .after hsw w.follows_advance (hx _ item _ hfollows (hsw.follows w.follows_advance) hz)
    have hall := hfirst.append hothers
    exact Lays.finish hall (hall.progress (by simp)) rfl rfl rfl

variable (hg : g.Lays)
include hg

theorem lays_innerSequence {n : Node} (hs : s.SoundAt depth) (h : innerSequence g s = .ok n t) :
    Lays (Node.ScopesWithin (scopesAt depth)) s t [n] :=
  lays_sequenceOf hs.toSound (fun _ _ _ hu _ hrun => hg.assignment (hs.follows hu) hrun) h

theorem lays_computedKey {n : Node} (hs : s.SoundAt depth) (h : computedKey g s = .ok n t) :
    Lays (Node.ScopesWithin (scopesAt depth)) s t [n] := by
  obtain ⟨_, u, hu, h⟩ := bind_ok.1 h
  obtain ⟨key, v, hv, h⟩ := bind_ok.1 h
  obtain ⟨_, w, hw, h⟩ := bind_ok.1 h
  cases h
  have hopen := (expect_progress hs.toSound hu).1
  have hkey := Lays.allowIn (l := fun n => [n]) (hs.follows hopen) hv (lays_innerSequence hg)
  exact (Lays.after hs.toSound hopen hkey).step (expect_progress hkey.sound_after hw).1

theorem lays_spreadOrAssignment {n : Node} (hs : s.SoundAt depth)
    (h : spreadOrAssignment g s = .ok n t) : Lays (Node.ScopesWithin (scopesAt depth)) s t [n] := by
  rw [spreadOrAssignment, run_offset] at h
  rcases run_nextIf h with ⟨-, h⟩ | ⟨-, h⟩
  · obtain ⟨argument, v, hv, h⟩ := bind_ok.1 h
    cases h
    have hargument := Lays.after hs.toSound s.follows_advance
      (hg.lays (hs.follows s.follows_advance) hv)
    exact Lays.finish hargument (hargument.progress (by simp)) rfl rfl rfl
  · exact hg.lays hs h

theorem lays_item {close : Punctuator} {o : Option Node} (hs : s.SoundAt depth)
    (h : (do
      let item ← spreadOrAssignment g
      separator close
      return some item) s = .ok o t) : Lays (Node.ScopesWithin (scopesAt depth)) s t o.toList := by
  obtain ⟨item, u, hu, h⟩ := bind_ok.1 h
  obtain ⟨_, v, hv, h⟩ := bind_ok.1 h
  cases h
  exact (lays_spreadOrAssignment hg hs hu).step ((proceeds_separator close u).ok hv)

theorem lays_arguments {items : List Node} (hs : s.SoundAt depth) (h : arguments g s = .ok items t) :
    Lays (Node.ScopesWithin (scopesAt depth)) s t items := by
  obtain ⟨_, u, hu, h⟩ := bind_ok.1 h
  obtain ⟨items, v, hv, h⟩ := bind_ok.1 h
  obtain ⟨_, w, hw, h⟩ := bind_ok.1 h
  cases h
  have hopen := (expect_progress hs.toSound hu).1
  have hitems := Lays.allowIn (l := id) (hs.follows hopen) hv fun hs' hrun =>
    .collectUntil hs'.toSound (fun _ _ _ hf _ hstep => lays_item hg (hs'.follows hf) hstep) hrun
  exact (Lays.after hs.toSound hopen hitems).step (expect_progress hitems.sound_after hw).1

theorem lays_arrayLiteral {n : Node} (hs : s.SoundAt depth) (h : arrayLiteral g s = .ok n t) :
    Lays (fun n => n.ScopesWithin (scopesAt depth) ∧ n.PatternWithin (scopesAt depth)) s t [n] := by
  rw [arrayLiteral, run_offset] at h
  obtain ⟨_, u, hu, h⟩ := bind_ok.1 h
  obtain ⟨elements, v, hv, h⟩ := bind_ok.1 h
  obtain ⟨_, w, hw, h⟩ := bind_ok.1 h
  cases h
  obtain ⟨hopen, hlt⟩ := expect_progress hs.toSound hu
  have helements := Lays.allowIn (P := Node.ScopesWithin (scopesAt depth)) (l := id) (hs.follows hopen) hv fun hs' hrun =>
    .collectUntil hs'.toSound (fun y o z hf hy hstep => by
      rcases run_nextIf hstep with ⟨-, hstep⟩ | ⟨-, hstep⟩
      · cases hstep
        exact .nil hy y.follows_advance
      · exact lays_item hg (hs'.follows hf) hstep) hrun
  have hclose := (expect_progress helements.sound_after hw).1
  have hall := (Lays.after hs.toSound hopen helements).step hclose
  have hnode : Lays (Node.ScopesWithin (scopesAt depth)) s t
      [⟨⟨s.offset, max t.lastStop s.offset⟩, .arrayLiteral elements⟩] :=
    Lays.finish hall (Nat.lt_of_lt_of_le hlt (helements.follows.trans hclose).position) rfl rfl rfl
  exact hnode.also fun m hm => hnode.holds m hm

/-! ### Objects -/

omit hg in
theorem literalOfToken_plain (token : Token) : (literalOfToken token).opensScope = false ∧
    (literalOfToken token).pieces = [] ∧ (literalOfToken token).children = [] ∧
      (literalOfToken token).counted = [] := by
  rw [literalOfToken]
  split
  · exact ⟨rfl, rfl, rfl, rfl⟩
  · split <;> exact ⟨rfl, rfl, rfl, rfl⟩

/-- A key that is not computed is the first token. -/
theorem lays_propertyKey {key : Node × Bool} (hs : s.SoundAt depth) (h : propertyKey g s = .ok key t) :
    Lays (Node.ScopesWithin (scopesAt depth)) s t [key.1] ∧ (key.2 = false → key.1.start = s.offset) := by
  have hliteral : s.kind ≠ .endOfInput → (do
      let token ← next
      return (← finish token.start (literalOfToken token), false)) s = .ok key t →
      Lays (Node.ScopesWithin (scopesAt depth)) s t [key.1] ∧ (key.2 = false → key.1.start = s.offset) := by
    intro hk h
    cases h
    obtain ⟨hplain, hp, hc, hcount⟩ := literalOfToken_plain s.current
    exact ⟨.leaf hs.toSound hk hplain hp hc hcount, fun _ => rfl⟩
  have hword : ∀ kind, s.kind = kind → (if kind.isWord then do
      let token ← next
      return (← finish token.start (.identifier token.text), false)
    else throw (s.unexpected .identifier) : Parse (Node × Bool)) s = .ok key t →
      Lays (Node.ScopesWithin (scopesAt depth)) s t [key.1] ∧ (key.2 = false → key.1.start = s.offset) := by
    intro kind hk h
    split at h
    · rename_i hw
      cases h
      refine ⟨.leaf hs.toSound (fun hend => ?_) rfl rfl rfl rfl, fun _ => rfl⟩
      rw [← hk, hend] at hw
      cases hw
    · cases h
  rw [propertyKey, get_run] at h
  cases hk : s.current.kind with
  | punct mark =>
    simp only [hk] at h
    cases mark
    case openBracket =>
      obtain ⟨n, u, hu, h⟩ := bind_ok.1 h
      cases h
      exact ⟨lays_computedKey hg hs hu, nofun⟩
    all_goals exact hword _ hk h
  | string | number =>
    simp only [hk] at h
    exact hliteral (by rw [ParserState.kind, hk]; simp) h
  | _ =>
    simp only [hk] at h
    exact hword _ hk h

/-- The value of a shorthand property is its key or has it as its target. -/
theorem lays_shorthandValue {u : ParserState} {key value : Node} (hs : s.SoundAt depth)
    (hkey : Lays (Node.ScopesWithin (scopesAt depth)) s u [key]) (hstart : key.start = s.offset)
    (h : shorthandValue g key u = .ok value t) :
    Lays (Node.ScopesWithin (scopesAt depth)) s t [value] ∧ value.Contains key := by
  rcases run_nextIf h with ⟨-, h⟩ | ⟨-, h⟩
  · obtain ⟨fallback, w, hw, h⟩ := bind_ok.1 h
    cases h
    have hread := hkey.step u.follows_advance
    have hboth := hread.append (hg.assignment (hs.follows hread.follows) hw)
    refine ⟨?_, .inside List.mem_cons_self (.self key)⟩
    rw [hstart]
    exact Lays.flat hboth (Lays.stops_last hboth) rfl rfl rfl
  · cases h
    exact ⟨hkey, .self key⟩

/-- In an item of an object at most so many scopes lie one in another, and fewer in what it
takes apart into where the object is a pattern. -/
def Node.ItemWithin (most : Nat) (n : Node) : Prop :=
  n.ScopesWithin (most + 2) ∧ ∀ m ∈ n.unpackedItem, m.ScopesWithin most

omit hg in
theorem unpackedItem_property {range : TextRange} {key value n : Node} {computed shorthand method : Bool}
    (h : n ∈ Node.unpackedItem ⟨range, .property key value computed shorthand method⟩) : n = value := by
  obtain ⟨_, kind⟩ := value
  cases kind
  case functionExpression => cases h
  all_goals exact List.mem_singleton.1 h

theorem lays_propertyFrom {u : ParserState} {isAsync : Bool} {n : Node} (hs : s.SoundAt depth)
    (hu : s.Follows u) (h : propertyFrom g s.offset isAsync u = .ok n t) :
    Lays (Node.ItemWithin (scopesAt depth)) s t [n] := by
  have hsu := hs.follows hu
  obtain ⟨⟨key, computed⟩, v, hv, h⟩ := bind_ok.1 h
  obtain ⟨hkey, hstart⟩ := lays_propertyKey hg hsu hv
  have hsv := hsu.follows hkey.follows
  dsimp only at h hkey hstart
  rw [get_run] at h
  split at h
  · obtain ⟨value, w, hw, h⟩ := bind_ok.1 h
    cases h
    obtain ⟨parts, hparts⟩ := hg.methods hw
    obtain ⟨range, _⟩ := value
    obtain rfl := hparts
    have hboth := Lays.after hs.toSound hu
      ((hkey.mono (Nat.le_add_right ..)).append (hg.lays (q := .method isAsync) hsv hw))
    exact (Lays.finish hboth (hboth.progress (by simp)) rfl rfl rfl).also fun m hm => by cases hm
  · rcases run_nextIf h with ⟨-, h⟩ | ⟨-, h⟩
    · obtain ⟨value, w, hw, h⟩ := bind_ok.1 h
      cases h
      have hvalue := hg.assignment (hsv.follows v.follows_advance) hw
      have hboth := Lays.after hs.toSound hu ((hkey.step v.follows_advance).append hvalue)
      refine ((Lays.finish hboth (hboth.progress (by simp)) rfl rfl rfl).mono
        (Nat.le_add_right ..)).also fun m hm => ?_
      rw [unpackedItem_property hm]
      exact hvalue.holds value (by simp)
    · simp only [Bool.false_eq_true, ↓reduceIte] at h
      split at h
      · rename_i hplain
        obtain ⟨value, w, hw, h⟩ := bind_ok.1 h
        cases h
        rw [Bool.and_eq_true, Bool.not_eq_true'] at hplain
        obtain ⟨hvalue, hcontains⟩ := lays_shorthandValue hg hsu hkey (hstart hplain.1) hw
        have hafter := Lays.after hs.toSound hu hvalue
        have hin : ∀ m ∈ [key, value], m.ScopesWithin (scopesAt depth) := by
          simpa using And.intro (hkey.holds key (by simp)) (hvalue.holds value (by simp))
        have hconsists : (NodeKind.property key value false true false).Consists [value] :=
          ⟨rfl, by simpa [NodeKind.children] using And.intro hcontains (.self value)⟩
        have hstops := hafter.stops_finish (hafter.progress (by simp))
        refine ((hafter.plain hstops hconsists rfl hin).mono (Nat.le_add_right ..)).also fun m hm => ?_
        rw [unpackedItem_property hm]
        exact hvalue.holds value (by simp)
      · cases h

theorem lays_objectMember {n : Node} (hs : s.SoundAt depth) (h : objectMember g s = .ok n t) :
    Lays (Node.ItemWithin (scopesAt depth)) s t [n] := by
  rw [objectMember, run_offset] at h
  rcases run_nextIf h with ⟨-, h⟩ | ⟨-, h⟩
  · obtain ⟨argument, v, hv, h⟩ := bind_ok.1 h
    cases h
    have hargument := hg.assignment (hs.follows s.follows_advance) hv
    have hafter := Lays.after hs.toSound s.follows_advance hargument
    refine ((Lays.finish hafter (hafter.progress (by simp)) rfl rfl rfl).mono
      (Nat.le_add_right ..)).also fun m hm => ?_
    rw [List.mem_singleton.1 hm]
    exact hargument.holds argument (by simp)
  · obtain ⟨_, u, hu, h⟩ := bind_ok.1 h
    obtain ⟨_, v, hv, h⟩ := bind_ok.1 h
    obtain ⟨_, w, hw, h⟩ := bind_ok.1 h
    exact lays_propertyFrom hg hs ((nextIf_follows hu).trans ((nextIf_follows hv).trans (nextIf_follows hw))) h

/-- What an object takes apart into, should it be a pattern, is one level deeper than itself. -/
theorem lays_objectLiteral {n : Node} (hs : s.SoundAt depth) (h : objectLiteral g s = .ok n t) :
    Lays (fun n => n.ScopesWithin (scopesAt depth + 2) ∧ n.PatternWithin (scopesAt depth)) s t [n] := by
  rw [objectLiteral, run_offset] at h
  obtain ⟨_, u, hu, h⟩ := bind_ok.1 h
  obtain ⟨properties, v, hv, h⟩ := bind_ok.1 h
  obtain ⟨_, w, hw, h⟩ := bind_ok.1 h
  cases h
  obtain ⟨hopen, hlt⟩ := expect_progress hs.toSound hu
  have hitems := Lays.allowIn (P := Node.ItemWithin (scopesAt depth)) (l := id) (hs.follows hopen) hv
    fun hs' hrun => .collectUntil hs'.toSound (fun y o z hf hy hstep => by
      obtain ⟨property, y', hy', hstep⟩ := bind_ok.1 hstep
      obtain ⟨_, z', hz', hstep⟩ := bind_ok.1 hstep
      cases hstep
      exact (lays_objectMember hg (hs'.follows hf) hy').step ((proceeds_separator _ _).ok hz')) hrun
  have hclose := (expect_progress hitems.sound_after hw).1
  have hall := (Lays.after hs.toSound hopen hitems).step hclose
  refine (Lays.finish (hall.weaken fun _ hn => hn.1)
    (Nat.lt_of_lt_of_le hlt (hitems.follows.trans hclose).position) rfl rfl rfl).also fun m hm => ?_
  obtain ⟨item, hitem, hm⟩ := List.mem_flatMap.1 hm
  exact (hitems.holds item hitem).2 m hm

/-! ### Parameters -/

omit hg in
theorem bindingName_progress {u : ParserState} {name : String} (hs : s.Sound)
    (h : bindingName s = .ok name u) : s.Follows u ∧ s.position < u.position := by
  rw [bindingName] at h
  split at h <;> rename_i hname <;> cases h
  exact ⟨s.follows_advance, s.position_lt_advance hs.closed fun hk =>
    not_isStuck_of_atBindingName hname (.inl hk)⟩

theorem lays_parameterFrom {u : ParserState} {isRest : Bool} {n : Node} (hs : s.SoundAt depth)
    (hu : s.Follows u) (h : parameterFrom g s.offset isRest u = .ok n t) :
    Lays (Node.ScopesWithin (scopesAt depth)) s t [n] := by
  have hsu := hs.follows hu
  have hrest : ∀ name (pattern : Option Node) v, Lays (Node.PatternWithin (scopesAt depth)) u v pattern.toList →
      u.position < v.position → (do
        let fallback ← if ← nextMark .equals then some <$> allowIn (g .assignment) else pure none
        finish s.offset (.parameter name pattern fallback isRest)) v = .ok n t →
      Lays (Node.ScopesWithin (scopesAt depth)) s t [n] := by
    intro name pattern v hpattern hlt h
    have hend : ∀ (fallback : Option Node) w, Lays (Node.ScopesWithin (scopesAt depth)) v w fallback.toList →
        finish s.offset (.parameter name pattern fallback isRest) w = .ok n t →
        Lays (Node.ScopesWithin (scopesAt depth)) s t [n] := by
      intro fallback w hfallback h
      cases h
      have hall : Lays (fun _ => True) s t (pattern.toList ++ fallback.toList) :=
        .after hs.toSound hu ((hpattern.weaken fun _ _ => trivial).append (hfallback.weaken fun _ _ => trivial))
      have hp : s.position < t.position :=
        Nat.lt_of_le_of_lt hu.position (Nat.lt_of_lt_of_le hlt hfallback.follows.position)
      refine hall.plain (hall.stops_finish hp) (.of_eq rfl rfl) rfl fun m hm => ?_
      rcases List.mem_append.1 hm with hm | hm
      · obtain ⟨p, hp, hm⟩ := List.mem_flatMap.1 hm
        exact hpattern.holds p hp m hm
      · exact hfallback.holds m hm
    have hsv := hsu.follows hpattern.follows
    rcases run_nextIf h with ⟨-, h⟩ | ⟨-, h⟩
    · obtain ⟨fallback, w, hw, h⟩ := bind_ok.1 h
      obtain ⟨value, hvalue, rfl⟩ := map_ok.1 hw
      exact hend (some value) w (.after hsv.toSound v.follows_advance (.allowIn (l := fun n => [n])
        (hsv.follows v.follows_advance) hvalue hg.assignment)) h
    · exact hend none v (.nil hsv.toSound (.rfl v)) h
  have hname : (do
      let name ← bindingName
      let p ← pure (name, none)
      let fallback ← if ← nextMark .equals then some <$> allowIn (g .assignment) else pure none
      finish s.offset (.parameter p.1 p.2 fallback isRest)) u = .ok n t →
      Lays (Node.ScopesWithin (scopesAt depth)) s t [n] := by
    intro h
    obtain ⟨name, v, hv, h⟩ := bind_ok.1 h
    obtain ⟨hf, hlt⟩ := bindingName_progress hsu.toSound hv
    exact hrest name none v (.nil hsu.toSound hf) hlt h
  rw [parameterFrom, get_run] at h
  cases hk : u.kind with
  | punct mark =>
    simp only [hk] at h
    cases mark
    case openBrace =>
      obtain ⟨pattern, v, hv, h⟩ := bind_ok.1 h
      have hpattern := lays_objectLiteral hg hsu hv
      exact hrest "" (some pattern) v (hpattern.weaken fun _ hn => hn.2) (hpattern.progress (by simp)) h
    case openBracket =>
      obtain ⟨pattern, v, hv, h⟩ := bind_ok.1 h
      have hpattern := lays_arrayLiteral hg hsu hv
      exact hrest "" (some pattern) v (hpattern.weaken fun _ hn => hn.2) (hpattern.progress (by simp)) h
    all_goals exact hname h
  | _ =>
    simp only [hk] at h
    exact hname h

theorem lays_parametersFrom : ∀ {rounds s t params}, s.SoundAt depth →
    parametersFrom g rounds s = .ok params t → Lays (Node.ScopesWithin (scopesAt depth)) s t params
  | 0, s, t, params, hs, h => by
    cases h
    exact .nil hs.toSound (.rfl s)
  | rounds + 1, s, t, params, hs, h => by
    rw [parametersFrom, get_run] at h
    split at h
    · cases h
      exact .nil hs.toSound (.rfl s)
    · rw [run_offset] at h
      obtain ⟨isRest, u, hu, h⟩ := bind_ok.1 h
      obtain ⟨parameter, v, hv, h⟩ := bind_ok.1 h
      have hparameter := lays_parameterFrom hg hs (nextIf_follows hu) hv
      rw [get_run] at h
      split at h
      · cases h
        exact hparameter
      · obtain ⟨_, w, hw, h⟩ := bind_ok.1 h
        obtain ⟨others, x, hx, h⟩ := bind_ok.1 h
        cases h
        have hread := hparameter.step (expect_progress hparameter.sound_after hw).1
        exact hread.append (lays_parametersFrom (hs.follows hread.follows) hx)

theorem lays_parameterList {params : List Node} (hs : s.SoundAt depth)
    (h : parameterList g s = .ok params t) :
    Lays (Node.ScopesWithin (scopesAt depth)) s t params ∧ s.position < t.position := by
  obtain ⟨_, u, hu, h⟩ := bind_ok.1 h
  rw [get_run] at h
  obtain ⟨params, v, hv, h⟩ := bind_ok.1 h
  obtain ⟨_, w, hw, h⟩ := bind_ok.1 h
  cases h
  obtain ⟨hopen, hlt⟩ := expect_progress hs.toSound hu
  have hparams := lays_parametersFrom hg (hs.follows hopen) hv
  have hclose := (expect_progress hparams.sound_after hw).1
  exact ⟨(Lays.after hs.toSound hopen hparams).step hclose,
    Nat.lt_of_lt_of_le hlt (hparams.follows.trans hclose).position⟩

/-! ### Bodies -/

omit hg in
/-- Braces close behind all that was read in them. -/
theorem stops_closeBrace {P : Node → Prop} {l : List Node} {u : ParserState} {stop : Nat} (hl : Lays P s u l)
    (hlt : s.position < u.position) (h : closeBrace u = .ok stop t) :
    u.Follows t ∧ Stops s t l stop ∧ u.reach ≤ stop := by
  have hu := hl.sound_after
  have hopen := hl.sound.offset_lt_lastStop hl.follows hlt
  have hcovers : u.reach ≤ stop → s.recovering = false → ∀ n ∈ l, n.EndsWithin stop := fun hle _ n hn =>
    (hl.within n hn).mono hle
  have hlast := hu.lastStop_le_offset
  have hstop := hu.offset_le_stop
  have hfollows := (proceeds_closeBrace u).ok h
  have hp : s.position < t.position := Nat.lt_of_lt_of_le hlt hfollows.position
  rcases closeBrace_ok.1 h with ⟨hend, rfl, rfl⟩ | ⟨hend, hk, rfl, rfl⟩
  · have hreach : t.reach = t.current.stop + 1 := if_pos hend
    exact ⟨hfollows, ⟨hp, by omega, by omega, hcovers (by omega)⟩, by omega⟩
  · have hreach : u.reach = u.lastStop := if_neg (by rw [hend]; exact Bool.false_ne_true)
    have hread := hu.stop_le_lastStop hfollows
      (u.position_lt_advance hu.closed (by rw [hk]; simp))
    have := (hu.follows hfollows).lastStop_le_reach
    exact ⟨hfollows, ⟨hp, by omega, by omega, hcovers (by omega)⟩, by omega⟩

theorem lays_listedStatement {o : Option Node} (hs : s.SoundAt depth)
    (h : listedStatement g s = .ok o t) : Lays (Node.ScopesWithin (scopesAt depth)) s t o.toList := by
  have hf := (Proceeds.listedStatement hg.proceeds s).ok h
  rcases listedStatement_cases g s with ⟨n, u, hu, hread⟩ | ⟨e, u, -, ⟨-, hskip⟩ | ⟨-, hfail⟩⟩
  · cases hread.symm.trans h
    exact hg.statement hs hu
  · cases hskip.symm.trans h
    exact .nil hs.toSound hf
  · cases hfail.symm.trans h

theorem lays_statementList {done : ParserState → Bool} {body : List Node} (hs : s.SoundAt depth)
    (h : statementList g done s = .ok body t) : Lays (Node.ScopesWithin (scopesAt depth)) s t body :=
  .collectUntil hs.toSound (fun _ _ _ hf _ hstep => lays_listedStatement hg (hs.follows hf) hstep) h

theorem lays_block {n : Node} (hs : s.SoundAt depth) (h : block g s = .ok n t) :
    Lays (Node.ScopesWithin (scopesAt depth + 1)) s t [n] := by
  rw [block, run_offset] at h
  obtain ⟨_, u, hu, h⟩ := bind_ok.1 h
  obtain ⟨body, v, hv, h⟩ := bind_ok.1 h
  obtain ⟨stop, w, hw, h⟩ := bind_ok.1 h
  cases h
  obtain ⟨hopen, hlt⟩ := expect_progress hs.toSound hu
  have hbody := Lays.after hs.toSound hopen (lays_statementList hg (hs.follows hopen) hv)
  obtain ⟨hclose, hstops, -⟩ := stops_closeBrace hbody
    (Nat.lt_of_lt_of_le hlt ((lays_statementList hg (hs.follows hopen) hv).follows.position)) hw
  exact Lays.scope (hbody.step hclose) hstops rfl rfl trivial rfl

theorem lays_functionRest {name : Option String} {isAsync : Bool} {parts : FunctionParts Node}
    (hs : s.SoundAt depth) (h : functionRest g name isAsync s = .ok parts t) :
    Lays (Node.ScopesWithin (scopesAt depth + 1)) s t (parts.params ++ [parts.body]) := by
  obtain ⟨params, u, hu, h⟩ := bind_ok.1 h
  obtain ⟨body, v, hv, h⟩ := bind_ok.1 h
  cases h
  obtain ⟨hparams, -⟩ := lays_parameterList hg hs hu
  exact (hparams.mono (Nat.le_succ _)).append
    (.allowIn (l := fun n => [n]) (hs.follows hparams.follows) hv (lays_block hg))

theorem lays_functionNode {u : ParserState} {name : Option String} {isAsync : Bool}
    {parts : FunctionParts Node} (hs : s.SoundAt depth) (hu : s.Follows u)
    (h : functionRest g name isAsync u = .ok parts t) :
    Lays (Node.ScopesWithin (scopesAt depth + 2)) s t [functionNode s.offset parts] := by
  have hparts := Lays.after hs.toSound hu (lays_functionRest hg (hs.follows hu) h)
  exact Lays.scope hparts (Lays.stops_last hparts) rfl rfl trivial rfl

theorem lays_method {isAsync : Bool} {n : Node} (hs : s.SoundAt depth) (h : method g isAsync s = .ok n t) :
    Lays (Node.ScopesWithin (scopesAt depth + 2)) s t [n] := by
  rw [method, run_offset] at h
  obtain ⟨parts, u, hu, h⟩ := bind_ok.1 h
  cases h
  exact lays_functionNode hg hs (.rfl s) hu

/-! ### Classes -/

omit hg in
theorem semicolon_follows {r : Unit} (h : semicolon s = .ok r t) : s.Follows t := by
  rw [semicolon] at h
  split at h
  · cases h
    exact s.follows_advance
  · split at h <;> cases h
    exact .rfl s

theorem lays_elementFrom {u : ParserState} {isStatic isAsync isGenerator : Bool} {n : Node}
    (hs : s.SoundAt depth) (hu : s.Follows u)
    (h : elementFrom g s.offset isStatic isAsync isGenerator u = .ok n t) :
    Lays (Node.ScopesWithin (scopesAt depth + 2)) s t [n] := by
  have hsu := hs.follows hu
  obtain ⟨kind, v, hv, h⟩ := bind_ok.1 h
  have hkind := hg.follows (O := fun _ => True) (built_accessorKind isAsync isGenerator) hv
  obtain ⟨key, w, hw, h⟩ := bind_ok.1 h
  have hkey := hg.follows (O := fun _ => True) begins_elementName.built hw
  have hread := hg.progress (O := fun _ => True) begins_elementName (hsu.follows hkind).toSound hw
  have hlt : s.position < w.position :=
    Nat.lt_of_le_of_lt (hu.trans hkind).position hread
  have hf := hu.trans (hkind.trans hkey)
  have hsw := hs.follows hf
  rw [get_run] at h
  split at h
  · rw [run_offset] at h
    obtain ⟨parts, x, hx, h⟩ := bind_ok.1 h
    cases h
    have hvalue := Lays.after hs.toSound hf (lays_functionNode hg hsw (.rfl w) hx)
    exact Lays.flat hvalue (Lays.stops_last (l := []) hvalue) rfl rfl rfl
  · have hend : ∀ (value : Option Node) x, Lays (Node.ScopesWithin (scopesAt depth)) w x value.toList → (do
        semicolon
        finish s.offset (.fieldMember key value isStatic)) x = .ok n t →
        Lays (Node.ScopesWithin (scopesAt depth + 2)) s t [n] := by
      intro value x hvalue h
      obtain ⟨_, y, hy, h⟩ := bind_ok.1 h
      cases h
      have hall := (Lays.after hs.toSound hf hvalue).step (semicolon_follows hy)
      exact (Lays.finish hall (Nat.lt_of_lt_of_le hlt
        (hvalue.follows.trans (semicolon_follows hy)).position) rfl rfl rfl).mono (Nat.le_add_right ..)
    rcases run_nextIf h with ⟨-, h⟩ | ⟨-, h⟩
    · obtain ⟨o, x, hx, h⟩ := bind_ok.1 h
      obtain ⟨value, hvalue, rfl⟩ := map_ok.1 hx
      exact hend (some value) x (.after hsw.toSound w.follows_advance
        (hg.assignment (hsw.follows w.follows_advance) hvalue)) h
    · exact hend none w (.nil hsw.toSound (.rfl w)) h

theorem lays_elementAfterAccess {u : ParserState} {o : Option Node} (hs : s.SoundAt depth)
    (hu : s.Follows u) (h : elementAfterAccess g s.offset u = .ok o t) :
    Lays (Node.ScopesWithin (scopesAt depth + 2)) s t o.toList := by
  rw [elementAfterAccess, get_run] at h
  split at h
  · rw [run_next] at h
    obtain ⟨body, v, hv, h⟩ := bind_ok.1 h
    cases h
    exact .nil hs.toSound ((hu.trans u.follows_advance).trans (hg.follows begins_block.built hv))
  · obtain ⟨_, v, hv, h⟩ := bind_ok.1 h
    obtain ⟨_, w, hw, h⟩ := bind_ok.1 h
    obtain ⟨_, x, hx, h⟩ := bind_ok.1 h
    obtain ⟨element, y, hy, h⟩ := bind_ok.1 h
    cases h
    exact lays_elementFrom hg hs (hu.trans ((nextIf_follows hv).trans
      ((nextIf_follows hw).trans (nextIf_follows hx)))) hy

theorem lays_classElement {o : Option Node} (hs : s.SoundAt depth) (h : classElement g s = .ok o t) :
    Lays (Node.ScopesWithin (scopesAt depth + 2)) s t o.toList := by
  rw [classElement, run_offset] at h
  obtain ⟨_, u, hu, h⟩ := bind_ok.1 h
  have hmodifiers : s.Follows u := (Proceeds.collect (fun t => Proceeds.next.bind fun _ _ _ => .pure _) _ s).ok hu
  exact lays_elementAfterAccess hg hs hmodifiers h

theorem lays_listedElement {o : Option Node} (hs : s.SoundAt depth) (h : listedElement g s = .ok o t) :
    Lays (Node.ScopesWithin (scopesAt depth + 2)) s t o.toList := by
  have hf := (Proceeds.listedElement (fun _ => hg.proceedsOn begins_classElement.built) s).ok h
  rcases listedElement_cases g s with
    ⟨-, hsemicolon⟩ | ⟨-, ⟨o', u, hu, hread⟩ | ⟨e, u, -, ⟨-, hskip⟩ | ⟨-, hfail⟩⟩⟩
  · cases hsemicolon.symm.trans h
    exact .nil hs.toSound hf
  · cases hread.symm.trans h
    exact lays_classElement hg hs hu
  · cases hskip.symm.trans h
    exact .nil hs.toSound hf
  · cases hfail.symm.trans h

/-- What a class is made of: a superclass, and members behind the brace that opens its body. -/
structure ClassParts.Laid (most : Nat) (s t : ParserState) (parts : ClassParts Node) : Prop where
  pieces : Lays (fun _ => True) s t (parts.superclass.toList ++ parts.members)
  progress : s.position < t.position
  superclass : ∀ n ∈ parts.superclass, n.ScopesWithin (most + 1) ∧ n.EndsWithin parts.bodyRange.start
  members : ∀ n ∈ parts.members, n.ScopesWithin most ∧ parts.bodyRange.start ≤ n.start
  body : Stops s t (parts.superclass.toList ++ parts.members) parts.bodyRange.stop
  opens : s.offset ≤ parts.bodyRange.start ∧ parts.bodyRange.start < parts.bodyRange.stop

theorem lays_classParts {requireName : Bool} {parts : ClassParts Node} (hs : s.SoundAt depth)
    (h : classParts g requireName s = .ok parts t) : parts.Laid (scopesAt depth + 2) s t := by
  have hbody : ∀ (name : Option String) (superclass : Option Node) v,
      Lays (Node.ScopesWithin (scopesAt depth + 3)) s v superclass.toList → s.position < v.position → (do
        let bodyStart ← offset
        let _ ← expect .openBrace
        let members ← collectUntil (fun s => s.atMark .closeBrace || s.atEnd) (listedElement g)
        let stop ← closeBrace
        return ({ name, superclass, members, bodyRange := ⟨bodyStart, stop⟩ } : ClassParts Node)) v = .ok parts t →
      parts.Laid (scopesAt depth + 2) s t := by
    intro name superclass v hsuper hlt h
    rw [run_offset] at h
    obtain ⟨_, w, hw, h⟩ := bind_ok.1 h
    obtain ⟨members, x, hx, h⟩ := bind_ok.1 h
    obtain ⟨stop, y, hy, h⟩ := bind_ok.1 h
    cases h
    have hsv := hs.follows hsuper.follows
    obtain ⟨hopen, hread⟩ := expect_progress hsv.toSound hw
    have hlist : Lays (Node.ScopesWithin (scopesAt depth + 2)) w x members :=
      .collectUntil (hsv.follows hopen).toSound (fun _ _ _ hf _ hstep =>
        lays_listedElement hg ((hsv.follows hopen).follows hf) hstep) hx
    have hmembers := Lays.after hsv.toSound hopen hlist
    have hall := (hsuper.weaken (Q := fun _ => True) fun _ _ => trivial).append
      (hmembers.weaken fun _ _ => trivial)
    obtain ⟨hclose, hstops, -⟩ := stops_closeBrace hmembers
      (Nat.lt_of_lt_of_le hread hlist.follows.position) hy
    have hopened : v.kind ≠ .endOfInput := by
      obtain ⟨hk, -, -⟩ := expect_ok hw
      rw [hk]
      simp
    have hstart := hsuper.follows.offset_le hs.toSound
    exact {
      pieces := hall.step hclose
      progress := Nat.lt_of_lt_of_le hlt ((hmembers.follows.trans hclose).position)
      superclass := fun n hn => ⟨hsuper.holds n (Option.mem_toList.2 hn),
        (hsuper.within n (Option.mem_toList.2 hn)).mono (hsv.toSound.reach_le_offset hopened)⟩
      members := fun n hn => ⟨hmembers.holds n hn, hmembers.inOrder.starts n hn⟩
      body := ⟨Nat.lt_of_lt_of_le hlt ((hmembers.follows.trans hclose).position),
        Nat.lt_of_le_of_lt hstart hstops.lt, hstops.le, fun hstrict n hn => (List.mem_append.1 hn).elim
          (fun hn => (hsuper.within n hn).mono (Nat.le_trans (hsv.toSound.reach_le_offset hopened)
            (Nat.le_of_lt hstops.lt)))
          (hstops.covers (hsuper.follows.recovering.trans hstrict) n)⟩
      opens := ⟨hstart, hstops.lt⟩ }
  have hextends : ∀ (name : Option String) v, s.Follows v → s.position < v.position → (do
      let superclass ←
        if ← nextIf (·.atKeyword .extendsWord) then some <$> g .leftHandSide else pure none
      let bodyStart ← offset
      let _ ← expect .openBrace
      let members ← collectUntil (fun s => s.atMark .closeBrace || s.atEnd) (listedElement g)
      let stop ← closeBrace
      return ({ name, superclass, members, bodyRange := ⟨bodyStart, stop⟩ } : ClassParts Node)) v = .ok parts t →
      parts.Laid (scopesAt depth + 2) s t := by
    intro name v hv hlt h
    have hsv := hs.follows hv
    rcases run_nextIf h with ⟨-, h⟩ | ⟨-, h⟩
    · obtain ⟨o, w, hw, h⟩ := bind_ok.1 h
      obtain ⟨superclass, hsuper, rfl⟩ := map_ok.1 hw
      have hlays := Lays.after hs.toSound (hv.trans v.follows_advance)
        (hg.lays (q := .leftHandSide) (hsv.follows v.follows_advance) hsuper)
      exact hbody name (some superclass) w hlays (hlays.progress (by simp)) h
    · exact hbody name none v (.nil hs.toSound hv) hlt h
  obtain ⟨_, u, hu, h⟩ := bind_ok.1 h
  obtain ⟨hclass, hlt⟩ := expectKind_progress (by simp) hs.toSound hu
  rw [get_run] at h
  split at h
  · obtain ⟨o, v, hv, h⟩ := bind_ok.1 h
    obtain ⟨name, hname, rfl⟩ := map_ok.1 hv
    obtain ⟨hf, hp⟩ := bindingName_progress (hs.toSound.follows hclass) hname
    exact hextends (some name) v (hclass.trans hf) (Nat.lt_trans hlt hp) h
  · exact hextends none u hclass hlt h

omit hg in
/-- The parts of a class make a class. -/
theorem ClassParts.Laid.node {most stop : Nat} {parts : ClassParts Node} {kind : NodeKind}
    (h : parts.Laid most s t) (hs : Stops s t (parts.superclass.toList ++ parts.members) stop)
    (hbody : s.recovering = false → parts.bodyRange.stop ≤ stop)
    (hk : kind = .classExpression parts ∨ kind = .classDeclaration parts) :
    Lays (Node.ScopesWithin (most + 1)) s t [⟨⟨s.offset, stop⟩, kind⟩] := by
  have hbraced : (NodeKind.classExpression parts).Braced ⟨s.offset, stop⟩ :=
    ⟨h.opens.1, h.opens.2, fun n hn => (h.superclass n hn).2, fun n hn => (h.members n hn).2⟩
  rcases hk with rfl | rfl
  · exact h.pieces.node hs (.of_eq rfl rfl) hbraced (fun r hr => by cases hr; exact ⟨h.body.le, hbody⟩)
      (.scope (fun n hn => (h.superclass n hn).1) fun n hn => (h.members n hn).1)
  · exact h.pieces.node hs (.of_eq rfl rfl) hbraced (fun r hr => by cases hr; exact ⟨h.body.le, hbody⟩)
      (.scope (fun n hn => (h.superclass n hn).1) fun n hn => (h.members n hn).1)

end Typeahead
