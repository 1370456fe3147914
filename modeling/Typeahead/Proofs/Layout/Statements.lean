/-
# The layout of statements

A statement reads its parts one after the other; what it drops, a pattern after `catch` or a
label, leaves no piece. The parts of a switch stand between its braces, but for what is
switched on, which comes before.

Key theorems: `lays_statement`, `parseLevel_lays`.
-/
import Typeahead.Proofs.Layout.Expressions

namespace Typeahead

open Parse Grammar

variable {depth : Nat} {s t u : ParserState} {g : Grammar} {n : Node} (hg : g.Lays)
  (hs : s.SoundAt depth)
include hg hs

/-! ### Declarations -/

theorem lays_expressionStatement (h : expressionStatement g s = .ok n t) :
    Lays (Node.ScopesWithin (scopesAt depth)) s t [n] := by
  rw [expressionStatement, run_offset] at h
  obtain ⟨expression, u, hu, h⟩ := bind_ok.1 h
  obtain ⟨_, v, hv, h⟩ := bind_ok.1 h
  cases h
  have hexpression := lays_sequenceOf hs.toSound
    (fun _ _ _ hf _ hrun => lays_assignment hg (hs.follows hf) hrun) hu
  have hall := hexpression.step (semicolon_follows hv)
  exact Lays.finish hall (hall.progress (by simp)) rfl rfl rfl

theorem lays_variableDeclarator (h : variableDeclarator g s = .ok n t) :
    Lays (Node.ScopesWithin (scopesAt depth)) s t [n] := by
  have hend : ∀ target (init : Option Node) v w, Lays (Node.PatternWithin (scopesAt depth)) s v [target] →
      Lays (Node.ScopesWithin (scopesAt depth)) v w init.toList →
      finish s.offset (.variableDeclarator target init) w = .ok n t →
      Lays (Node.ScopesWithin (scopesAt depth)) s t [n] := by
    intro target init v w htarget hinit h
    cases h
    have hall := (htarget.weaken (Q := fun _ => True) fun _ _ => trivial).append
      (hinit.weaken fun _ _ => trivial)
    refine hall.plain (hall.stops_finish (hall.progress (by simp)))
      (.of_eq rfl rfl) rfl fun m hm => ?_
    rcases List.mem_append.1 hm with hm | hm
    · exact htarget.holds target (by simp) m hm
    · exact hinit.holds m hm
  have hinit : ∀ target v, Lays (Node.PatternWithin (scopesAt depth)) s v [target] → (do
      let init ← if ← nextMark .equals then some <$> g .assignment else pure none
      finish s.offset (.variableDeclarator target init)) v = .ok n t →
      Lays (Node.ScopesWithin (scopesAt depth)) s t [n] := by
    intro target v htarget h
    have hsv := hs.follows htarget.follows
    rcases run_nextIf h with ⟨-, h⟩ | ⟨-, h⟩
    · obtain ⟨o, w, hw, h⟩ := bind_ok.1 h
      obtain ⟨value, hvalue, rfl⟩ := map_ok.1 hw
      exact hend target (some value) v w htarget (.after hsv.toSound v.follows_advance
        (hg.assignment (hsv.follows v.follows_advance) hvalue)) h
    · exact hend target none v v htarget (.nil hsv.toSound (.rfl v)) h
  have hname : (do
      let name ← bindingName
      let target ← finish s.offset (.identifier name)
      let init ← if ← nextMark .equals then some <$> g .assignment else pure none
      finish s.offset (.variableDeclarator target init)) s = .ok n t →
      Lays (Node.ScopesWithin (scopesAt depth)) s t [n] := by
    intro h
    obtain ⟨name, v, hv, h⟩ := bind_ok.1 h
    obtain ⟨hf, hlt⟩ := bindingName_progress hs.toSound hv
    have htarget : Lays (Node.ScopesWithin (scopesAt depth)) s v
        [⟨⟨s.offset, max v.lastStop s.offset⟩, .identifier name⟩] :=
      Lays.finish (.nil hs.toSound hf) hlt rfl rfl rfl
    have hpattern : Node.PatternWithin (scopesAt depth)
        ⟨⟨s.offset, max v.lastStop s.offset⟩, .identifier name⟩ := htarget.holds
    exact hinit _ v ((htarget.also hpattern).weaken fun _ hm => hm.2) h
  rw [variableDeclarator, get_run] at h
  cases hk : s.kind with
  | punct mark =>
    simp only [hk] at h
    cases mark
    case openBrace =>
      obtain ⟨pattern, v, hv, h⟩ := bind_ok.1 h
      exact hinit pattern v ((lays_objectLiteral hg hs hv).weaken fun _ hn => hn.2) h
    case openBracket =>
      obtain ⟨pattern, v, hv, h⟩ := bind_ok.1 h
      exact hinit pattern v ((lays_arrayLiteral hg hs hv).weaken fun _ hn => hn.2) h
    all_goals exact hname h
  | _ =>
    simp only [hk] at h
    exact hname h

/-- A declaration of variables has at least one. -/
theorem lays_declarators (h : variableDeclaration g s = .ok n t) : ∃ kind first others,
    n = ⟨⟨s.offset, max t.lastStop s.offset⟩, .variableDeclaration kind (first :: others)⟩ ∧
      Lays (Node.ScopesWithin (scopesAt depth)) s t (first :: others) := by
  have hread := s.follows_advance
  rw [variableDeclaration, run_next] at h
  obtain ⟨first, u, hu, h⟩ := bind_ok.1 h
  obtain ⟨others, v, hv, h⟩ := bind_ok.1 h
  cases h
  have hfirst := Lays.after hs.toSound hread (lays_variableDeclarator hg (hs.follows hread) hu)
  have hsu := hs.follows hfirst.follows
  have hothers : Lays (Node.ScopesWithin (scopesAt depth)) u t others := by
    refine .collectUntil hsu.toSound (fun w o y hw _ hstep => ?_) hv
    rw [run_next] at hstep
    obtain ⟨declarator, z, hz, hstep⟩ := bind_ok.1 hstep
    cases hstep
    have hsw := hsu.follows hw
    exact .after hsw.toSound w.follows_advance
      (lays_variableDeclarator hg (hsw.follows w.follows_advance) hz)
  exact ⟨_, first, others, rfl, hfirst.append hothers⟩

theorem lays_variableDeclaration (h : variableDeclaration g s = .ok n t) :
    Lays (Node.ScopesWithin (scopesAt depth)) s t [n] := by
  obtain ⟨kind, first, others, rfl, hall⟩ := lays_declarators hg hs h
  exact Lays.finish hall (hall.progress (by simp)) rfl rfl rfl

theorem lays_variableStatement (h : variableStatement g s = .ok n t) :
    Lays (Node.ScopesWithin (scopesAt depth)) s t [n] := by
  rw [variableStatement, run_offset] at h
  obtain ⟨declaration, u, hu, h⟩ := bind_ok.1 h
  obtain ⟨kind, first, others, rfl, hall⟩ := lays_declarators hg hs hu
  obtain ⟨_, v, hv, h⟩ := bind_ok.1 h
  cases h
  have hread := hall.step (semicolon_follows hv)
  exact Lays.finish hread (hread.progress (by simp)) rfl rfl rfl

theorem lays_functionDeclaration (h : functionDeclaration g s = .ok n t) :
    Lays (Node.ScopesWithin (scopesAt depth + 2)) s t [n] := by
  rw [functionDeclaration, run_offset] at h
  obtain ⟨isAsync, u, hu, h⟩ := bind_ok.1 h
  obtain ⟨_, v, hv, h⟩ := bind_ok.1 h
  obtain ⟨_, w, hw, h⟩ := bind_ok.1 h
  obtain ⟨name, x, hx, h⟩ := bind_ok.1 h
  obtain ⟨parts, y, hy, h⟩ := bind_ok.1 h
  cases h
  have hmodifier := nextIf_follows hu
  have hword := hmodifier.trans (expectKind_progress (by simp) (hs.toSound.follows hmodifier) hv).1
  have hstar := hword.trans (nextIf_follows hw)
  have hname := hstar.trans (bindingName_progress (hs.toSound.follows hstar) hx).1
  have hparts := Lays.after hs.toSound hname (lays_functionRest hg (hs.follows hname) hy)
  exact Lays.scope hparts (Lays.stops_last hparts) rfl rfl trivial rfl

theorem lays_classDeclaration (h : classDeclaration g s = .ok n t) :
    Lays (Node.ScopesWithin (scopesAt depth + 3)) s t [n] := by
  rw [classDeclaration, run_offset] at h
  obtain ⟨parts, u, hu, h⟩ := bind_ok.1 h
  cases h
  have hparts := lays_classParts hg hs hu
  exact hparts.node hparts.body (fun _ => Nat.le_refl _) (.inr rfl)

theorem lays_returnStatement (h : returnStatement g s = .ok n t) :
    Lays (Node.ScopesWithin (scopesAt depth)) s t [n] := by
  have hend : ∀ (argument : Option Node) v, Lays (Node.ScopesWithin (scopesAt depth)) s v argument.toList →
      s.position < v.position → (do
        semicolon
        finish s.offset (.return argument)) v = .ok n t →
      Lays (Node.ScopesWithin (scopesAt depth)) s t [n] := by
    intro argument v hargument hlt h
    obtain ⟨_, w, hw, h⟩ := bind_ok.1 h
    cases h
    have hall := hargument.step (semicolon_follows hw)
    exact Lays.finish hall (Nat.lt_of_lt_of_le hlt (semicolon_follows hw).position) rfl rfl rfl
  rw [returnStatement, run_offset] at h
  obtain ⟨_, u, hu, h⟩ := bind_ok.1 h
  obtain ⟨hword, hlt⟩ := expectKind_progress (by simp) hs.toSound hu
  rw [get_run] at h
  split at h
  · exact hend none u (.nil hs.toSound hword) hlt h
  · obtain ⟨o, v, hv, h⟩ := bind_ok.1 h
    obtain ⟨argument, hrun, rfl⟩ := map_ok.1 hv
    have hargument := Lays.after hs.toSound hword (lays_innerSequence hg (hs.follows hword) hrun)
    exact hend (some argument) v hargument (hargument.progress (by simp)) h

/-! ### Control flow -/

theorem lays_condition (h : condition g s = .ok n t) :
    Lays (Node.ScopesWithin (scopesAt depth)) s t [n] := by
  obtain ⟨_, u, hu, h⟩ := bind_ok.1 h
  obtain ⟨test, v, hv, h⟩ := bind_ok.1 h
  obtain ⟨_, w, hw, h⟩ := bind_ok.1 h
  cases h
  have hopen := (expect_progress hs.toSound hu).1
  have htest := Lays.after hs.toSound hopen
    (.allowIn (l := fun n => [n]) (hs.follows hopen) hv (lays_innerSequence hg))
  exact htest.step (expect_progress htest.sound_after hw).1

theorem lays_ifStatement (h : ifStatement g s = .ok n t) :
    Lays (Node.ScopesWithin (scopesAt depth)) s t [n] := by
  rw [ifStatement, run_offset] at h
  obtain ⟨_, u, hu, h⟩ := bind_ok.1 h
  obtain ⟨test, v, hv, h⟩ := bind_ok.1 h
  obtain ⟨consequent, w, hw, h⟩ := bind_ok.1 h
  have hword := (expectReserved_progress hs.toSound hu).1
  have htest := Lays.after hs.toSound hword (lays_condition hg (hs.follows hword) hv)
  have hboth := htest.append (hg.statement (hs.follows htest.follows) hw)
  rcases run_nextIf h with ⟨-, h⟩ | ⟨-, h⟩
  · obtain ⟨o, x, hx, h⟩ := bind_ok.1 h
    obtain ⟨alternate, hrun, rfl⟩ := map_ok.1 hx
    cases h
    have hread := hboth.step w.follows_advance
    have hall := hread.append (hg.statement (hs.follows hread.follows) hrun)
    exact Lays.finish hall (hall.progress (by simp)) rfl rfl rfl
  · cases h
    exact Lays.finish hboth (hboth.progress (by simp)) rfl rfl rfl

theorem lays_whileStatement (h : whileStatement g s = .ok n t) :
    Lays (Node.ScopesWithin (scopesAt depth)) s t [n] := by
  rw [whileStatement, run_offset] at h
  obtain ⟨_, u, hu, h⟩ := bind_ok.1 h
  obtain ⟨test, v, hv, h⟩ := bind_ok.1 h
  obtain ⟨body, w, hw, h⟩ := bind_ok.1 h
  cases h
  have hword := (expectReserved_progress hs.toSound hu).1
  have htest := Lays.after hs.toSound hword (lays_condition hg (hs.follows hword) hv)
  have hall := htest.append (hg.statement (hs.follows htest.follows) hw)
  exact Lays.finish hall (hall.progress (by simp)) rfl rfl rfl

theorem lays_doStatement (h : doStatement g s = .ok n t) :
    Lays (Node.ScopesWithin (scopesAt depth)) s t [n] := by
  rw [doStatement, run_offset] at h
  obtain ⟨_, u, hu, h⟩ := bind_ok.1 h
  obtain ⟨body, v, hv, h⟩ := bind_ok.1 h
  obtain ⟨_, w, hw, h⟩ := bind_ok.1 h
  obtain ⟨test, x, hx, h⟩ := bind_ok.1 h
  obtain ⟨_, y, hy, h⟩ := bind_ok.1 h
  cases h
  have hdo := (expectReserved_progress hs.toSound hu).1
  have hbody := Lays.after hs.toSound hdo (hg.statement (hs.follows hdo) hv)
  have hread := hbody.step (expectReserved_progress hbody.sound_after hw).1
  have hall := (hread.append (lays_condition hg (hs.follows hread.follows) hx)).step (nextIf_follows hy)
  have hin : ∀ m ∈ [test, body], m.ScopesWithin (scopesAt depth) := by
    simpa using And.intro (hall.holds test (by simp)) (hall.holds body (by simp))
  refine hall.plain (hall.stops_finish (hall.progress (by simp)))
    ⟨rfl, fun m hm => ⟨m, ?_, .self m⟩⟩ rfl hin
  simpa [NodeKind.children, or_comm] using hm

/-! ### Loops with a head -/

theorem lays_forInit {init : Option Node} (h : forInit g s = .ok init t) :
    Lays (Node.ScopesWithin (scopesAt depth)) s t init.toList := by
  rw [forInit, get_run] at h
  split at h
  · cases h
    exact .nil hs.toSound (.rfl s)
  · obtain ⟨left, u, hu, h⟩ := bind_ok.1 h
    cases h
    refine .withNoIn hu fun v hv => ?_
    have hin := hs.withNoIn true
    split at hv
    · exact lays_variableDeclaration hg hin hv
    · exact lays_innerSequence hg hin hv

/-- The body of a loop after what was read of its head. -/
theorem lays_loopBody {head : List Node} {body : Node} (hhead : Lays (Node.ScopesWithin (scopesAt depth)) s u head)
    {v : ParserState} {token : Token} (hv : expect .closeParen u = .ok token v)
    (hbody : g .statement v = .ok body t) :
    Lays (Node.ScopesWithin (scopesAt depth)) s t (head ++ [body]) := by
  have hread := hhead.step (expect_progress hhead.sound_after hv).1
  exact hread.append (hg.statement (hs.follows hread.follows) hbody)

theorem lays_forInOfRest {left : Node} (hleft : Lays (Node.ScopesWithin (scopesAt depth)) s u [left])
    (h : forInOfRest g s.offset left u = .ok n t) :
    Lays (Node.ScopesWithin (scopesAt depth + 1)) s t [n] := by
  have hword := hleft.step u.follows_advance
  have hsw := hs.follows hword.follows
  have hright : ∀ right v, Lays (Node.ScopesWithin (scopesAt depth)) u.advance v [right] → (do
      let _ ← expect .closeParen
      let body ← g .statement
      finish s.offset (.forInOf left right body (u.current.kind == TokenKind.keyword .ofWord))) v = .ok n t →
      Lays (Node.ScopesWithin (scopesAt depth + 1)) s t [n] := by
    intro right v hright h
    obtain ⟨_, w, hw, h⟩ := bind_ok.1 h
    obtain ⟨body, x, hx, h⟩ := bind_ok.1 h
    cases h
    have hall := lays_loopBody hg hs (hword.append hright) hw hx
    exact Lays.scope hall (hall.stops_finish (hall.progress (by simp)))
      rfl rfl trivial rfl
  rw [forInOfRest, run_next] at h
  dsimp only at h
  split at h <;> obtain ⟨right, v, hv, h⟩ := bind_ok.1 h
  · exact hright right v (hg.assignment hsw hv) h
  · exact hright right v (lays_innerSequence hg hsw hv) h

/-- A part of the head of a loop that may be absent, and what is read after it. -/
theorem lays_headPart {mark : Punctuator} {rest : Option Node → Parse Node}
    (h : (if s.atMark mark then (do let part ← pure none; rest part)
      else (do let part ← some <$> innerSequence g; rest part)) s = .ok n t) :
    ∃ part u, Lays (Node.ScopesWithin (scopesAt depth)) s u part.toList ∧ rest part u = .ok n t := by
  split at h
  · exact ⟨none, s, .nil hs.toSound (.rfl s), h⟩
  · obtain ⟨part, u, hu, h⟩ := bind_ok.1 h
    obtain ⟨expression, hrun, rfl⟩ := map_ok.1 hu
    exact ⟨some expression, u, lays_innerSequence hg hs hrun, h⟩

theorem lays_forRest {init : Option Node} (hinit : Lays (Node.ScopesWithin (scopesAt depth)) s u init.toList)
    (h : forRest g s.offset init u = .ok n t) :
    Lays (Node.ScopesWithin (scopesAt depth + 1)) s t [n] := by
  obtain ⟨_, v, hv, h⟩ := bind_ok.1 h
  have hfirst := hinit.step (expect_progress hinit.sound_after hv).1
  rw [get_run] at h
  obtain ⟨test, w, hw, h⟩ := lays_headPart hg (hs.follows hfirst.follows) h
  have htest := hfirst.append hw
  obtain ⟨_, x, hx, h⟩ := bind_ok.1 h
  have hsecond := htest.step (expect_progress htest.sound_after hx).1
  rw [get_run] at h
  obtain ⟨update, y, hy, h⟩ := lays_headPart hg (hs.follows hsecond.follows) h
  obtain ⟨_, z, hz, h⟩ := bind_ok.1 h
  obtain ⟨body, z', hz', h⟩ := bind_ok.1 h
  cases h
  have hall := lays_loopBody hg hs (hsecond.append hy) hz hz'
  exact Lays.scope hall (hall.stops_finish (hall.progress (by simp)))
    rfl rfl trivial rfl

theorem lays_forStatement (h : forStatement g s = .ok n t) :
    Lays (Node.ScopesWithin (scopesAt depth + 1)) s t [n] := by
  rw [forStatement, run_offset] at h
  obtain ⟨_, u, hu, h⟩ := bind_ok.1 h
  obtain ⟨_, v, hv, h⟩ := bind_ok.1 h
  obtain ⟨_, w, hw, h⟩ := bind_ok.1 h
  obtain ⟨init, x, hx, h⟩ := bind_ok.1 h
  have hword := (expectReserved_progress hs.toSound hu).1
  have hawait := hword.trans (nextIf_follows hv)
  have hopen := hawait.trans (expect_progress (hs.toSound.follows hawait) hw).1
  have hinit := Lays.after hs.toSound hopen (lays_forInit hg (hs.follows hopen) hx)
  rw [get_run] at h
  cases init with
  | none => exact lays_forRest hg hs hinit h
  | some left =>
    dsimp only at h
    split at h
    · exact lays_forInOfRest hg hs hinit h
    · exact lays_forRest hg hs hinit h

/-! ### Switches, handlers and jumps -/

theorem lays_switchCase (h : switchCase g s = .ok n t) :
    Lays (Node.ScopesWithin (scopesAt depth)) s t [n] := by
  have hrest : ∀ (test : Option Node) u, Lays (Node.ScopesWithin (scopesAt depth)) s u test.toList →
      s.position < u.position → (do
        let _ ← expect .colon
        let consequent ← statementList g fun s =>
          s.atMark .closeBrace || s.atReserved "case" || s.atReserved "default"
        finish s.offset (.switchCase test consequent)) u = .ok n t →
      Lays (Node.ScopesWithin (scopesAt depth)) s t [n] := by
    intro test u htest hlt h
    obtain ⟨_, v, hv, h⟩ := bind_ok.1 h
    obtain ⟨consequent, w, hw, h⟩ := bind_ok.1 h
    cases h
    have hcolon := htest.step (expect_progress htest.sound_after hv).1
    have hlist := lays_statementList hg (hs.follows hcolon.follows) hw
    have hp := (expect_progress htest.sound_after hv).2
    exact Lays.finish (hcolon.append hlist)
      (Nat.lt_trans hlt (Nat.lt_of_lt_of_le hp hlist.follows.position)) rfl rfl rfl
  rw [switchCase, run_offset] at h
  rcases run_nextIf h with ⟨hdefault, h⟩ | ⟨-, h⟩
  · have hk : s.kind ≠ .endOfInput := fun hk => ParserState.not_isStuck_of_atReserved hdefault (.inl hk)
    exact hrest none s.advance (.nil hs.toSound s.follows_advance)
      (s.position_lt_advance hs.closed hk) h
  · obtain ⟨_, v, hv, h⟩ := bind_ok.1 h
    obtain ⟨o, u, hu, h⟩ := bind_ok.1 h
    obtain ⟨test, hrun, rfl⟩ := map_ok.1 hu
    obtain ⟨hcase, -⟩ := expectReserved_progress hs.toSound hv
    have htest := Lays.after hs.toSound hcase
      (.allowIn (l := fun n => [n]) (hs.follows hcase) hrun (lays_innerSequence hg))
    exact hrest (some test) u htest (htest.progress (by simp)) h

theorem lays_switchStatement (h : switchStatement g s = .ok n t) :
    Lays (Node.ScopesWithin (scopesAt depth + 1)) s t [n] := by
  rw [switchStatement, run_offset] at h
  obtain ⟨_, u, hu, h⟩ := bind_ok.1 h
  obtain ⟨discriminant, v, hv, h⟩ := bind_ok.1 h
  obtain ⟨_, w, hw, h⟩ := bind_ok.1 h
  obtain ⟨branches, x, hx, h⟩ := bind_ok.1 h
  obtain ⟨stop, y, hy, h⟩ := bind_ok.1 h
  cases h
  have hword := (expectReserved_progress hs.toSound hu).1
  have hdiscriminant := Lays.after hs.toSound hword (lays_condition hg (hs.follows hword) hv)
  obtain ⟨hopen, hlt⟩ := expect_progress hdiscriminant.sound_after hw
  have hread := hdiscriminant.step hopen
  have hsw := hs.follows hread.follows
  have hbranches : Lays (Node.ScopesWithin (scopesAt depth)) w x branches := by
    refine .collectUntil hsw.toSound (fun y o z hf _ hstep => ?_) hx
    obtain ⟨branch, hrun, rfl⟩ := map_ok.1 hstep
    exact lays_switchCase hg (hsw.follows hf) hrun
  have hboth := hread.append hbranches
  obtain ⟨hclose, hstops, hreach⟩ := stops_closeBrace hboth
    (hboth.progress (by simp)) hy
  have hin : discriminant.EndsWithin stop :=
    (hdiscriminant.within discriminant (by simp)).mono
      (Nat.le_trans ((hopen.trans hbranches.follows).reach_le hdiscriminant.sound_after) hreach)
  exact Lays.scope (hboth.step hclose) hstops rfl rfl hin rfl

omit hs in
/-- What a `catch` binds leaves no piece. -/
theorem catchParam_follows {param : Option String} (h : catchParam g s = .ok param t) : s.Follows t :=
  hg.follows (O := fun _ => True) built_catchParam h

theorem lays_catchClause {handler : Option Node} (h : catchClause g s = .ok handler t) :
    Lays (Node.ScopesWithin (scopesAt depth + 2)) s t handler.toList := by
  rw [catchClause, run_offset] at h
  rcases run_nextIf h with ⟨-, h⟩ | ⟨-, h⟩
  · obtain ⟨param, u, hu, h⟩ := bind_ok.1 h
    obtain ⟨body, v, hv, h⟩ := bind_ok.1 h
    cases h
    have hparam := s.follows_advance.trans (catchParam_follows hg hu)
    have hbody := Lays.after hs.toSound hparam (lays_block hg (hs.follows hparam) hv)
    exact Lays.scope hbody (Lays.stops_last (l := []) hbody) rfl rfl trivial rfl
  · cases h
    exact .nil hs.toSound (.rfl s)

theorem lays_tryStatement (h : tryStatement g s = .ok n t) :
    Lays (Node.ScopesWithin (scopesAt depth + 2)) s t [n] := by
  rw [tryStatement, run_offset] at h
  obtain ⟨_, u, hu, h⟩ := bind_ok.1 h
  obtain ⟨tried, v, hv, h⟩ := bind_ok.1 h
  obtain ⟨handler, w, hw, h⟩ := bind_ok.1 h
  have hword := (expectReserved_progress hs.toSound hu).1
  have htried := Lays.after hs.toSound hword (lays_block hg (hs.follows hword) hv)
  have hhandler := (htried.mono (Nat.le_succ _)).append (lays_catchClause hg (hs.follows htried.follows) hw)
  have hrest : ∀ (finalizer : Option Node) x last l, Lays (Node.ScopesWithin (scopesAt depth + 2)) w x finalizer.toList →
      [tried] ++ handler.toList ++ finalizer.toList = l ++ [last] →
      Lays (Node.ScopesWithin (scopesAt depth + 2)) s x [⟨⟨s.offset, last.stop⟩, .try tried handler finalizer⟩] := by
    intro finalizer x last l hfinalizer hl
    have hall := hhandler.append hfinalizer
    have hstops : Stops s x ([tried] ++ handler.toList ++ finalizer.toList) last.stop := by
      rw [hl] at hall ⊢
      exact Lays.stops_last hall
    exact Lays.flat hall hstops rfl rfl rfl
  rcases run_nextIf h with ⟨-, h⟩ | ⟨-, h⟩
  · obtain ⟨o, x, hx, h⟩ := bind_ok.1 h
    obtain ⟨final, hrun, rfl⟩ := map_ok.1 hx
    have hsw := hs.follows hhandler.follows
    cases h
    exact hrest (some final) _ final _ (.after hsw.toSound w.follows_advance
      ((lays_block hg (hsw.follows w.follows_advance) hrun).mono (Nat.le_succ _))) rfl
  · cases handler with
    | none => cases h
    | some last =>
      cases h
      exact hrest none _ last [tried] (.nil hhandler.sound_after (.rfl _)) rfl

theorem lays_throwStatement (h : throwStatement g s = .ok n t) :
    Lays (Node.ScopesWithin (scopesAt depth)) s t [n] := by
  rw [throwStatement, run_offset] at h
  obtain ⟨_, u, hu, h⟩ := bind_ok.1 h
  obtain ⟨argument, v, hv, h⟩ := bind_ok.1 h
  obtain ⟨_, w, hw, h⟩ := bind_ok.1 h
  cases h
  have hword := (expectReserved_progress hs.toSound hu).1
  have hall := (Lays.after hs.toSound hword (lays_innerSequence hg (hs.follows hword) hv)).step
    (semicolon_follows hw)
  exact Lays.finish hall (hall.progress (by simp)) rfl rfl rfl

omit hg in
theorem lays_jumpStatement {most : Nat} {kind : NodeKind} (hk : s.kind ≠ .endOfInput)
    (hkind : kind = .break ∨ kind = .continue) (h : jumpStatement kind s = .ok n t) :
    Lays (Node.ScopesWithin most) s t [n] := by
  rw [jumpStatement, run_offset, run_next] at h
  obtain ⟨_, u, hu, h⟩ := bind_ok.1 h
  obtain ⟨_, v, hv, h⟩ := bind_ok.1 h
  cases h
  have hf := (s.follows_advance.trans (nextIf_follows hu)).trans (semicolon_follows hv)
  have hlt : s.position < t.position := Nat.lt_of_lt_of_le (s.position_lt_advance hs.closed hk)
    ((nextIf_follows hu).trans (semicolon_follows hv)).position
  rcases hkind with rfl | rfl <;> exact Lays.finish (.nil hs.toSound hf) hlt rfl rfl rfl

/-! ### All statements -/

theorem lays_reservedStatement {word : String} (hk : s.kind = .reserved)
    (h : reservedStatement g word s = .ok n t) :
    Lays (Node.ScopesWithin (scopesAt depth + 3)) s t [n] := by
  have hend : s.kind ≠ .endOfInput := by rw [hk]; simp
  unfold reservedStatement at h
  split at h
  · exact (lays_ifStatement hg hs h).mono (Nat.le_add_right ..)
  · exact (lays_whileStatement hg hs h).mono (Nat.le_add_right ..)
  · exact (lays_doStatement hg hs h).mono (Nat.le_add_right ..)
  · exact (lays_forStatement hg hs h).mono (by omega)
  · exact (lays_tryStatement hg hs h).mono (by omega)
  · exact (lays_throwStatement hg hs h).mono (Nat.le_add_right ..)
  · exact (lays_switchStatement hg hs h).mono (by omega)
  · exact lays_jumpStatement hs hend (.inl rfl) h
  · exact lays_jumpStatement hs hend (.inr rfl) h
  · exact (lays_expressionStatement hg hs h).mono (Nat.le_add_right ..)

theorem lays_statement (h : statement g s = .ok n t) :
    Lays (Node.ScopesWithin (scopesAt depth)) s t [n] := by
  refine lays_nested hs h fun u hs' h => ?_
  generalize ({ s with depth := s.depth + 1 } : ParserState) = s' at *
  have hname : ∀ kind, s'.kind = kind → (if beginsVariables s' then variableStatement g
      else if kind == .keyword .asyncWord && s'.following.kind == .keyword .functionWord &&
          !s'.following.afterLineBreak then functionDeclaration g
      else expressionStatement g) s' = .ok n u →
      Lays (Node.ScopesWithin (scopesAt (depth + 1) + 3)) s' u [n] := by
    intro kind _ h
    split at h
    · exact (lays_variableStatement hg hs' h).mono (Nat.le_add_right ..)
    · split at h
      · exact (lays_functionDeclaration hg hs' h).mono (by omega)
      · exact (lays_expressionStatement hg hs' h).mono (Nat.le_add_right ..)
  rw [get_run] at h
  cases hk : s'.kind with
  | punct mark =>
    simp only [hk] at h
    cases mark
    case openBrace => exact (lays_block hg hs' h).mono (by omega)
    case semicolon => exact lays_leaf hs'.toSound (by rw [hk]; simp) rfl rfl rfl rfl h
    all_goals exact hname _ hk h
  | keyword word =>
    simp only [hk] at h
    cases word
    case functionWord => exact (lays_functionDeclaration hg hs' h).mono (by omega)
    case classWord => exact lays_classDeclaration hg hs' h
    case returnWord => exact (lays_returnStatement hg hs' h).mono (Nat.le_add_right ..)
    all_goals exact hname _ hk h
  | reserved =>
    simp only [hk] at h
    exact lays_reservedStatement hg hs' hk h
  | _ =>
    simp only [hk] at h
    exact hname _ hk h

theorem lays_produce (q : Production) (h : produce g q s = .ok n t) :
    Lays (Node.ScopesWithin (scopesAt depth + q.moreScopes)) s t [n] := by
  cases q with
  | assignment => exact lays_assignment hg hs h
  | unary => exact lays_unary hg hs h
  | binary precedence => exact lays_binary hg hs h
  | leftHandSide => exact lays_leftHandSide hg hs h
  | newExpression => exact lays_newExpression hg hs h
  | method isAsync => exact lays_method hg hs h
  | statement => exact lays_statement hg hs h

omit hg hs

/-- **What is parsed is laid out in order**, with any number of levels. -/
theorem parseLevel_lays : ∀ levels, (parseLevel levels).Lays
  | 0 =>
    { proceeds := parseLevel_proceeds 0
      reads := parseLevel_reads 0
      lays := fun _ h => by cases h
      methods := fun h => by cases h }
  | levels + 1 =>
    { proceeds := parseLevel_proceeds (levels + 1)
      reads := parseLevel_reads (levels + 1)
      lays := fun {q _ _ _ _} hs h => lays_produce (parseLevel_lays levels) hs q h
      methods := fun {isAsync s n t} h => by
        have hmethod : method (parseLevel levels) isAsync s = .ok n t := h
        obtain ⟨start, _, -, hmethod⟩ := bind_ok.1 hmethod
        obtain ⟨parts, _, -, hmethod⟩ := bind_ok.1 hmethod
        cases hmethod
        exact ⟨parts, rfl⟩ }

end Typeahead
