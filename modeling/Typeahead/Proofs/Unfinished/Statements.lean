/-
# Statements that a text breaks off in

While it recovers, the parser closes what is in braces where the input ends, with one offset more
than the text has. So a block whose statements go on up to the end is read, and with it each
statement that it is the last part of.

Key definitions: `RunsOn`, `StaysOpen`, `ReadsOut`.
Key theorems: `ReadsOut.block`, `ReadsHead.statement`, `ReadsOut.switchStatement`,
`ReadsOut.functionStatement`, `ReadsOut.classStatement`.
-/
import Typeahead.Proofs.Unfinished.Parse

namespace Typeahead

open Text Parse Grammar

variable {text : List Char} {s t : ParserState}

/-! ### Heads -/

section

variable {g : Grammar}

theorem condition_follows (hg : g.Lays) {n : Node} (h : condition g s = .ok n t) : s.Follows t :=
  hg.follows (O := fun _ => True) built_condition h

theorem parameterList_follows (hg : g.Lays) {params : List Node} (h : parameterList g s = .ok params t) : s.Follows t :=
  hg.follows (O := fun _ => True) begins_parameterList.built h

/-- An expression on its own, as after a `case`. -/
theorem lays_allowInSequence (hg : g.Lays) (hs : s.Edits text) {n : Node} (h : allowIn (innerSequence g) s = .ok n t) :
    Lays (Node.ScopesWithin (scopesAt s.depth)) s t [n] :=
  Lays.allowIn (l := fun n => [n]) hs.soundAt h (lays_innerSequence hg)

theorem forPart_follows (hg : g.Lays) (hs : s.Edits text) {mark : Punctuator} {part : Option Node}
    (h : forPart g mark s = .ok part t) : s.Follows t := by
  rw [forPart, get_run] at h
  split at h
  · cases h
    exact .rfl s
  · obtain ⟨n, hn, -⟩ := map_ok.1 h
    exact (lays_innerSequence hg hs.soundAt hn).follows

theorem ReadsHead.follows (hg : g.Lays) (hs : s.Edits text) {kind : Node → NodeKind} (h : ReadsHead g s kind t) :
    s.Follows t := by
  cases h with
  | ifHead _ htest | whileHead _ htest => exact s.follows_advance.trans (condition_follows hg htest)
  | forHead hword _ hinit _ htest _ hupdate =>
    have hfirst := (s.follows_advance.trans (s.advance.follows_advance)).trans (hg.follows built_forInit hinit)
    have hsecond := (hfirst.trans (ParserState.follows_advance _)).trans
      (forPart_follows hg (hs.follows (hfirst.trans (ParserState.follows_advance _))) htest)
    have hthird := (hsecond.trans (ParserState.follows_advance _)).trans
      (forPart_follows hg (hs.follows (hsecond.trans (ParserState.follows_advance _))) hupdate)
    exact hthird.trans (ParserState.follows_advance _)

end

/-! ### Blocks -/

/-- Statements go on up to the end of the text, and leave some scopes open. -/
def RunsOn (text : List Char) (most : Nat) (names : List String) (body : List Node) : Prop :=
  ∃ scopes, scopes ≤ most ∧ Trailing (unitLength text) scopes body names

/-- A statement is open at the end of the text, and leaves some scopes open. -/
def StaysOpen (text : List Char) (most : Nat) (names : List String) (n : Node) : Prop :=
  ∃ scopes, scopes ≤ most ∧ n.Unclosed (unitLength text) scopes names

/-- Wherever a list of statements is done, the statements here go on up to the end of the text. -/
def ReadsOut (text : List Char) (g : Grammar) (most : Nat) (s : ParserState) (names : List String) : Prop :=
  ∀ done, EndsList done → ∀ rounds, s.stream.tokens.size ≤ s.position + rounds →
    RunsToEnd text (collect done (listedStatement g) rounds) s (RunsOn text most names)

section

variable {g : Grammar} {most : Nat} {names : List String}

theorem ReadsOut.statementList {done : ParserState → Bool} (h : ReadsOut text g most s names)
    (hdone : EndsList fun s => s.atEnd || done s) : RunsToEnd text (statementList g done) s (RunsOn text most names) :=
  .after (a := s) rfl (h _ hdone _ (Nat.le_add_left ..))

/-- A block that the input breaks off in. -/
def IsOpenBlock (text : List Char) (most : Nat) (names : List String) (n : Node) : Prop :=
  ∃ start body, n = ⟨⟨start, unitLength text + 1⟩, .block body⟩ ∧ RunsOn text most names body

theorem ReadsOut.block (hopen : s.atMark .openBrace = true) (h : ReadsOut text g most s.advance names) :
    RunsToEnd text (block g) s (IsOpenBlock text most names) := by
  refine .after (a := s.offset) rfl (.after (expect_of_atMark hopen) ((h.statementList endsList_block).bind ?_))
  intro body t ht hend hbody
  exact .after (closeBrace_of_atEnd ht hend) (.done ht hend ⟨_, body, rfl, hbody⟩)

/-- The parameters of a function, and its body that the input breaks off in. -/
theorem ReadsOut.functionRest {u : ParserState} {params : List Node} (hu : u.Edits text)
    (hparams : parameterList g s = .ok params u) (hopen : u.atMark .openBrace = true)
    (h : ReadsOut text g most u.advance names) (name : Option String) (isAsync : Bool) :
    RunsToEnd text (functionRest g name isAsync) s fun parts =>
      ∃ body, parts = ⟨name, params, body, isAsync⟩ ∧ IsOpenBlock text most names body := by
  refine .after hparams ((RunsToEnd.allowIn hu (h.block hopen)).bind ?_)
  intro body t ht hend hbody
  exact .done ht hend ⟨body, rfl, hbody⟩

/-! ### Lists of statements -/

theorem ReadsOut.nil (hs : s.Edits text) (hend : s.atEnd = true) : ReadsOut text g most s [] :=
  fun _ hdone _ _ => ⟨[], s, collect_of_done (hdone.atEnd s hend), hs, hend, 0, Nat.zero_le _, .nil⟩

/-- A complete declaration is read, and what comes next goes on behind it. -/
theorem ReadsOut.declaration {n : Node} (hg : g.Lays) (hs : s.Edits text)
    (hword : s.atKeyword .letWord = true ∨ s.atKeyword .constWord = true) (hrun : g .statement s = .ok n t)
    (hcomplete : n.EndsWithin t.offset) (h : ReadsOut text g most t names) :
    ReadsOut text g most s (n.lexicalNames ++ names) := by
  intro done hdone rounds hrounds
  have hfollows := (hg.proceeds .statement s).ok hrun
  have hprogress := hg.reads .statement s hs.closed n t hrun
  have hinside := hs.inside
  obtain ⟨rounds, rfl⟩ : ∃ k, rounds = k + 1 := ⟨rounds - 1, by omega⟩
  have hleft : t.stream.tokens.size ≤ t.position + rounds := by
    rw [hfollows.tokens]
    omega
  rw [collect]
  refine .after (a := s) rfl ?_
  rw [if_neg (by simp [hdone.declaration s hword])]
  refine .after (listedStatement_of_ok hrun) ((h done hdone rounds hleft).bind ?_)
  rintro body u hu hend ⟨scopes, hle, hbody⟩
  exact .done hu hend ⟨scopes, hle, .cons (hcomplete.mono (hs.follows hfollows).offset_le) hbody⟩

/-- A statement that the input breaks off in is the last of a list. -/
theorem ReadsOut.last {levels inner : Nat} {bound : List String} (hs : s.Edits text)
    (hopens : OpensBlock levels s inner t bound)
    (h : RunsToEnd text (g .statement) s (StaysOpen text most names)) : ReadsOut text g most s names := by
  intro done hdone rounds hrounds
  have hinside := hs.inside
  obtain ⟨n, t, hrun, ht, hend, scopes, hle, hn⟩ := h
  have hlisted : RunsToEnd text (listedStatement g) s (· = some n) :=
    ⟨some n, t, listedStatement_of_ok hrun, ht, hend, rfl⟩
  obtain ⟨_, u, hu, hu', hend', _, rfl, rfl⟩ :=
    hlisted.collect (show 0 < rounds by omega) (hdone.opensBlock hopens) hdone.atEnd
  exact ⟨[n], u, hu, hu', hend', scopes, hle, .last hn⟩

/-! ### Statements -/

theorem IsOpenBlock.staysOpen {n : Node} (h : IsOpenBlock text most names n) : StaysOpen text (most + 1) names n := by
  obtain ⟨start, body, rfl, scopes, hle, hbody⟩ := h
  exact ⟨scopes + 1, Nat.succ_le_succ hle, .block hbody⟩

theorem StaysOpen.mono {most' : Nat} {n : Node} (h : StaysOpen text most names n) (hle : most ≤ most') :
    StaysOpen text most' names n := by
  obtain ⟨scopes, hscopes, hn⟩ := h
  exact ⟨scopes, Nat.le_trans hscopes hle, hn⟩

/-- What begins with a reserved word is read as such a statement. -/
theorem RunsToEnd.reserved {word : String} {P : Node → Prop} (hd : s.depth < maxParseDepth)
    (hword : s.deeper.atReserved word = true) (h : RunsToEnd text (reservedStatement g word) s.deeper P) :
    RunsToEnd text (statement g) s P := by
  obtain ⟨hkind, rfl⟩ := ParserState.atReserved_iff.1 hword
  refine .nested hd (.after (a := s.deeper) rfl ?_)
  rw [hkind]
  exact h

theorem ReadsOut.blockStatement (hd : s.depth < maxParseDepth) (hopen : s.atMark .openBrace = true)
    (h : ReadsOut text g most s.deeper.advance names) :
    RunsToEnd text (statement g) s (StaysOpen text (most + 1) names) := by
  have hkind : s.deeper.kind = .punct .openBrace := ParserState.atMark_iff.1 hopen
  refine .nested hd (.after (a := s.deeper) rfl ?_)
  rw [hkind]
  obtain ⟨n, t, hrun, ht, hend, hn⟩ := ReadsOut.block (s := s.deeper) hopen h
  exact ⟨n, t, hrun, ht, hend, hn.staysOpen⟩

/-- A part of the head of a `for` is read, or is absent. -/
theorem RunsToEnd.headPart {mark : Punctuator} {part : Option Node} {rest : Option Node → Parse Node} {P : Node → Prop}
    (hpart : forPart g mark s = .ok part t) (h : RunsToEnd text (rest part) t P) :
    RunsToEnd text (if s.atMark mark then (do let part ← pure none; rest part)
      else (do let part ← some <$> innerSequence g; rest part)) s P := by
  rw [forPart, get_run] at hpart
  split at hpart <;> rename_i hmark
  · cases hpart
    rw [if_pos hmark]
    exact h
  · rw [if_neg hmark]
    exact .after hpart h

/-- With a body that the input breaks off in, a head makes a statement that it breaks off in. -/
theorem ReadsHead.statement {kind : Node → NodeKind} (hd : s.depth < maxParseDepth)
    (hhead : ReadsHead g s.deeper kind t) (hbody : RunsToEnd text (g .statement) t (StaysOpen text most names)) :
    RunsToEnd text (statement g) s (StaysOpen text (most + 1) names) := by
  cases hhead with
  | @ifHead test _ hword htest =>
    refine .reserved hd hword (.after (a := s.deeper.offset) rfl (.after (expectReserved_of_atReserved hword) ?_))
    refine .after htest (hbody.bind ?_)
    rintro body u hu hend ⟨scopes, hle, hn⟩
    have helse : u.atReserved "else" = false :=
      ParserState.atReserved_of_kind (ParserState.kind_of_atEnd hend) (by simp) _
    exact .after (nextIf_of_false helse) (.done hu hend ⟨scopes, Nat.le_succ_of_le hle, .ifThen hn⟩)
  | @whileHead test _ hword htest =>
    refine .reserved hd hword (.after (a := s.deeper.offset) rfl (.after (expectReserved_of_atReserved hword) ?_))
    refine .after htest (hbody.bind ?_)
    rintro body u hu hend ⟨scopes, hle, hn⟩
    exact .done hu hend ⟨scopes, Nat.le_succ_of_le hle, .whileLoop hn⟩
  | @forHead init test update u v w hword hopen hinit hfirst htest hsecond hupdate hclose =>
    refine .reserved hd hword (.after (a := s.deeper.offset) rfl (.after (expectReserved_of_atReserved hword) ?_))
    have hawait : s.deeper.advance.atReserved "await" = false :=
      ParserState.atReserved_of_kind (ParserState.atMark_iff.1 hopen) (by simp) _
    have hin : u.atKeyword .inWord = false ∧ u.atKeyword .ofWord = false := by
      rw [ParserState.atKeyword, ParserState.atKeyword, ParserState.atMark_iff.1 hfirst]
      exact ⟨rfl, rfl⟩
    have hrest : RunsToEnd text (forRest g s.deeper.offset init) u (StaysOpen text (most + 1) names) := by
      refine .after (expect_of_atMark hfirst) (.after (a := u.advance) rfl (.headPart htest ?_))
      refine .after (expect_of_atMark hsecond) (.after (a := v.advance) rfl (.headPart hupdate ?_))
      refine .after (expect_of_atMark hclose) (hbody.bind ?_)
      rintro body z hz hend ⟨scopes, hle, hn⟩
      exact .done hz hend ⟨scopes + 1, Nat.succ_le_succ hle, .forLoop hn⟩
    refine .after (nextIf_of_false hawait) (.after (expect_of_atMark hopen) (.after hinit (.after (a := u) rfl ?_)))
    cases init with
    | none => exact hrest
    | some left =>
      dsimp only
      rw [hin.1, hin.2]
      exact hrest

/-- A case that the input breaks off in. -/
theorem ReadsOut.switchCase (hg : g.Lays) (hs : s.Edits text) (hcase : s.atReserved "case" = true) {test : Node}
    (htest : allowIn (innerSequence g) s.advance = .ok test t) (hcolon : t.atMark .colon = true)
    (h : ReadsOut text g most t.advance names) :
    RunsToEnd text (switchCase g) s fun n => ∃ range body, n = ⟨range, .switchCase (some test) body⟩ ∧
      test.EndsWithin (unitLength text) ∧ RunsOn text most names body := by
  have hdefault : s.atReserved "default" = false := by
    obtain ⟨-, htext⟩ := ParserState.atReserved_iff.1 hcase
    exact Bool.eq_false_iff.2 fun hword => by
      have := htext.symm.trans (ParserState.atReserved_iff.1 hword).2
      simp at this
  have hlays := lays_allowInSequence hg hs.advance htest
  have ht : t.Edits text := hs.advance.follows hlays.follows
  have hends : test.EndsWithin (unitLength text) := by
    have hreach := hlays.sound_after.reach_le_offset (by rw [ParserState.atMark_iff.1 hcolon]; simp)
    exact (hlays.within test List.mem_cons_self).mono (Nat.le_trans hreach ht.offset_le)
  refine .after (a := s.offset) rfl (.after (nextIf_of_false hdefault) (.after (expectReserved_of_atReserved hcase) ?_))
  refine .after (map_ok.2 ⟨test, htest, rfl⟩) (.after (expect_of_atMark hcolon) ?_)
  refine (h.statementList endsList_cases).bind ?_
  exact fun body u hu hend hbody => .done hu hend ⟨_, body, rfl, hends, hbody⟩

theorem ReadsOut.switchStatement (hg : g.Lays) (hd : s.depth < maxParseDepth) (hs : s.Edits text)
    (hword : s.atReserved "switch" = true) {discriminant test : Node} {u : ParserState}
    (hdiscriminant : condition g s.deeper.advance = .ok discriminant t) (hopen : t.atMark .openBrace = true)
    (hcase : t.advance.atReserved "case" = true)
    (htest : allowIn (innerSequence g) t.advance.advance = .ok test u) (hcolon : u.atMark .colon = true)
    (h : ReadsOut text g most u.advance names) : RunsToEnd text (statement g) s (StaysOpen text (most + 1) names) := by
  have ht : t.Edits text := hs.deeper.advance.follows (condition_follows hg hdiscriminant)
  have hgoes := ParserState.goes_of_kind (ParserState.atReserved_iff.1 hcase).1 (by simp) (by simp)
  refine .reserved hd hword (.after (a := s.deeper.offset) rfl (.after (expectReserved_of_atReserved hword) ?_))
  refine .after hdiscriminant (.after (expect_of_atMark hopen) (.bind (.collectUntil ht.advance.toSound hgoes
    (fun v hend => by rw [hend, Bool.or_true]) ((h.switchCase hg ht.advance hcase htest hcolon).map some)) ?_))
  rintro _ v hv hend ⟨_, ⟨_, ⟨range, body, rfl, hends, scopes, hle, hbody⟩, rfl⟩, rfl⟩
  refine .after (closeBrace_of_atEnd hv hend) (.done hv hend ⟨scopes + 1, Nat.succ_le_succ hle, ?_⟩)
  exact .switchCase hends hbody

theorem ReadsOut.functionStatement (hg : g.Lays) (hd : s.depth < maxParseDepth) (hs : s.Edits text)
    (hword : s.atKeyword .functionWord = true) (hname : s.advance.atBindingName = true) {params : List Node}
    (hparams : parameterList g s.deeper.advance.advance = .ok params t) (hopen : t.atMark .openBrace = true)
    (h : ReadsOut text g most t.advance names) :
    RunsToEnd text (statement g) s (StaysOpen text (most + 1) (parameterBoundNames params ++ names)) := by
  have hkind : s.deeper.kind = .keyword .functionWord := beq_iff_eq.1 hword
  have hasync : s.deeper.atKeyword .asyncWord = false := by
    rw [ParserState.atKeyword, hkind]
    rfl
  have hasterisk : s.deeper.advance.atMark .asterisk = false :=
    ParserState.atMark_of_isWord (ParserState.isWord_of_atBindingName hname) _
  have ht : t.Edits text := hs.deeper.advance.advance.follows (parameterList_follows hg hparams)
  refine .nested hd (.after (a := s.deeper) rfl ?_)
  rw [hkind]
  refine .after (a := s.deeper.offset) rfl (.after (nextIf_of_false hasync) (.after (if_pos hword) ?_))
  refine .after (nextMark_of_false hasterisk) (.after (bindingName_of_atBindingName hname) ?_)
  refine (h.functionRest ht hparams hopen _ _).bind ?_
  rintro _ u hu hend ⟨_, rfl, start, body, rfl, scopes, hle, hbody⟩
  exact .done hu hend ⟨scopes + 1, Nat.succ_le_succ hle, .function hbody⟩

/-- A method whose body the input breaks off in. -/
def IsOpenMethod (text : List Char) (most : Nat) (params : List Node) (names : List String) (n : Node) : Prop :=
  ∃ range functionRange key kind isStatic name body isAsync, n = ⟨range, .methodMember key kind isStatic
    ⟨functionRange, .functionExpression ⟨name, params, body, isAsync⟩⟩⟩ ∧ IsOpenBlock text most names body

/-- A word names an element of a class. -/
theorem elementName_of_isWord (hkey : s.kind.isWord = true) : elementName g s = .ok s.current.text s.advance := by
  have hkind : s.current.kind.isWord = true := hkey
  rw [elementName, get_run]
  cases hk : s.current.kind with
  | identifier | reserved | keyword => rfl
  | _ =>
    rw [hk] at hkind
    cases hkind

/-- A word before the parameters of a method modifies nothing. -/
theorem modifiesKey_of_atMark (h : s.advance.atMark .openParen = true) : modifiesKey s = false := by
  have hfollowing : s.following.kind = .punct .openParen := by
    rw [← s.current_advance]
    exact ParserState.atMark_iff.1 h
  rw [modifiesKey, hfollowing]
  rfl

theorem ReadsOut.classElement (hkey : s.kind.isWord = true) {params : List Node} (ht : t.Edits text)
    (hparams : parameterList g s.advance = .ok params t) (hopen : t.atMark .openBrace = true)
    (h : ReadsOut text g most t.advance names) :
    RunsToEnd text (classElement g) s fun o => ∃ n, IsOpenMethod text most params names n ∧ o = some n := by
  have hparen : s.advance.atMark .openParen = true := by
    obtain ⟨_, u, hu, -⟩ := bind_ok.1 hparams
    exact ParserState.atMark_iff.2 (expect_ok hu).1
  have hmodifies := modifiesKey_of_atMark hparen
  have haccess : (!atAccessModifier s) = true := by rw [atAccessModifier, hmodifies, Bool.and_false]; rfl
  have hblock : (s.atKeyword .staticWord && s.following.kind == .punct .openBrace) = false := by
    rw [← s.current_advance, show s.advance.current.kind = _ from ParserState.atMark_iff.1 hparen]
    exact Bool.and_false _
  have haccessor : accessorKind false false s = .ok .method s := by
    rw [accessorKind, get_run, if_neg (by simp [atAccessor, hmodifies])]
    rfl
  have helement (start : Nat) : RunsToEnd text (elementFrom g start false false false) s
      (IsOpenMethod text most params names) := by
    refine .after haccessor (.after (elementName_of_isWord hkey) (.after (a := s.advance) rfl ?_))
    rw [if_pos hparen]
    refine .after (a := s.advance.offset) rfl ((h.functionRest ht hparams hopen _ _).bind ?_)
    rintro _ u hu hend ⟨body, rfl, hbody⟩
    exact .done hu hend ⟨_, _, _, _, _, _, body, _, rfl, hbody⟩
  refine .after (a := s.offset) rfl (.after (a := ([] : List Unit)) (t := s) (collect_of_done haccess) ?_)
  refine .after (a := s) rfl ?_
  rw [if_neg (by simp [hblock])]
  refine .after (nextIf_of_false (by rw [hmodifies, Bool.and_false])) (.after (nextIf_of_false ?_)
    (.after (nextMark_of_false (ParserState.atMark_of_isWord hkey _)) ((helement _).map some)))
  rw [hmodifies, Bool.and_false, Bool.false_and]

theorem ReadsOut.classStatement (hg : g.Lays) (hd : s.depth < maxParseDepth) (hs : s.Edits text)
    (hword : s.atKeyword .classWord = true) (hname : s.advance.atBindingName = true)
    (hclass : s.advance.advance.atMark .openBrace = true) (hkey : s.advance.advance.advance.kind.isWord = true)
    {params : List Node} (hparams : parameterList g s.deeper.advance.advance.advance.advance = .ok params t)
    (hopen : t.atMark .openBrace = true) (h : ReadsOut text g most t.advance names) :
    RunsToEnd text (statement g) s (StaysOpen text (most + 2) (parameterBoundNames params ++ names)) := by
  have hkind : s.deeper.kind = .keyword .classWord := beq_iff_eq.1 hword
  have hm := hs.deeper.advance.advance.advance
  have ht : t.Edits text := hm.advance.follows (parameterList_follows hg hparams)
  have hextends : s.deeper.advance.advance.atKeyword .extendsWord = false := by
    rw [ParserState.atKeyword, show s.deeper.advance.advance.kind = _ from ParserState.atMark_iff.1 hclass]
    rfl
  have hgoes : (s.deeper.advance.advance.advance.atMark .closeBrace || s.deeper.advance.advance.advance.atEnd) = false :=
    ParserState.goes_of_kind rfl (fun hk => by rw [show s.advance.advance.advance.kind = _ from hk] at hkey; cases hkey)
      fun hk => by rw [show s.advance.advance.advance.kind = _ from hk] at hkey; cases hkey
  have hsemicolon : s.deeper.advance.advance.advance.atMark .semicolon = false := ParserState.atMark_of_isWord hkey _
  have helement : RunsToEnd text (listedElement g) s.deeper.advance.advance.advance fun o =>
      ∃ n, IsOpenMethod text most params names n ∧ o = some n := by
    refine .after (nextMark_of_false hsemicolon) (.after (a := s.deeper.advance.advance.advance) rfl ?_)
    refine (h.classElement (s := s.deeper.advance.advance.advance) hkey ht hparams hopen).attempt.bind ?_
    rintro _ u hu hend ⟨o, ho, rfl⟩
    exact .done hu hend ho
  have hparts : RunsToEnd text (classParts g true) s.deeper fun parts => ∃ name n start,
      parts = ⟨name, none, [n], ⟨start, unitLength text + 1⟩⟩ ∧ IsOpenMethod text most params names n := by
    have hnamed : (some <$> bindingName) s.deeper.advance = .ok (some s.advance.current.text) s.deeper.advance.advance :=
      map_ok.2 ⟨_, bindingName_of_atBindingName (s := s.deeper.advance) hname, rfl⟩
    refine .after (if_pos hword) (.after (a := s.deeper.advance) rfl ?_)
    rw [Bool.true_or, if_pos rfl]
    refine .after hnamed (.after (nextIf_of_false hextends) (.after (a := none) rfl ?_))
    refine .after (a := s.deeper.advance.advance.offset) rfl (.after (expect_of_atMark hclass) ?_)
    refine .bind (.collectUntil hm.toSound hgoes (fun v hend => by rw [hend, Bool.or_true]) helement) ?_
    rintro _ u hu hend ⟨_, ⟨n, hn, rfl⟩, rfl⟩
    exact .after (closeBrace_of_atEnd hu hend) (.done hu hend ⟨_, n, _, rfl, hn⟩)
  refine .nested hd (.after (a := s.deeper) rfl ?_)
  rw [hkind]
  refine .after (a := s.deeper.offset) rfl (hparts.bind ?_)
  rintro _ u hu hend ⟨name, _, start, rfl, _, _, _, _, _, _, _, _, rfl, bodyStart, body, rfl, scopes, hle, hbody⟩
  exact .done hu hend ⟨scopes + 2, Nat.add_le_add_right hle 2, .method hbody⟩

end

end Typeahead
