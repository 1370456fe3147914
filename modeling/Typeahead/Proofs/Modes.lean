/-
# The strict and the recovering parser agree

A script that is a program is, as a document that is being edited, the same program with no
fault. A document with no fault is a program, unless a block or the body of a class is closed
only by the end of the input: such a span stops one unit past the end of the text.

Key definition: `Grammar.scriptNode`.
Key theorems: `program_ok`, `document_ok`, `parseProgram_iff_parseDocument`.
-/
import Typeahead.Proofs.Parse.Script

namespace Typeahead

open Text Parse Grammar

variable {α : Type} {text : List Char} {memory : Bool} {P : Node}

/-! ### Programs and documents are scripts -/

/-- Loops whose steps agree wherever they come do the same. -/
theorem collect_congr {I : ParserState → Prop} {done : ParserState → Bool} {x y : Parse (Option α)}
    (hxy : ∀ s, I s → x s = y s) (hx : ∀ s a t, I s → x s = .ok a t → I t) :
    ∀ rounds s, I s → collect done x rounds s = collect done y rounds s
  | 0, _, _ => rfl
  | rounds + 1, s, hs => by
    rw [collect, get_run, collect, get_run]
    split
    · rfl
    · cases hrun : x s with
      | ok a t =>
        rw [bind_of_ok hrun, bind_of_ok ((hxy s hs).symm.trans hrun)]
        exact bind_of_eq (collect_congr hxy hx rounds t (hx s a t hs hrun))
      | error e t => rw [bind_of_error hrun, bind_of_error ((hxy s hs).symm.trans hrun)]

/-- The levels with which a text is parsed. -/
def levelsOf (text : List Char) : Nat := (TokenStream.ofText text).tokens.size + 1

/-- A parse of a text, in a mode. -/
def ParserState.Parses (s : ParserState) (text : List Char) (recovering : Bool) : Prop :=
  s.stream.tokens = (TokenStream.ofText text).tokens ∧ s.recovering = recovering

theorem ParserState.Follows.parses {s t : ParserState} {recovering : Bool} (h : s.Follows t)
    (hs : s.Parses text recovering) : t.Parses text recovering :=
  ⟨h.tokens.trans hs.1, h.recovering.trans hs.2⟩

theorem parse_of_parses {s : ParserState} {recovering : Bool} (hs : s.Parses text recovering)
    (q : Production) : parse q s = parseLevel (levelsOf text) q s := by
  rw [parse, get_run, ParserState.rounds, hs.1]
  rfl

/-- The statements of a program are read as those of a script in the strict mode. -/
theorem strict_script (text : List Char) (memory : Bool) :
    collectUntil (·.atEnd) (some <$> parse .statement) (.startOf text false memory) =
      script (parseLevel (levelsOf text)) (.startOf text false memory) := by
  refine collect_congr (I := (·.Parses text false)) (fun s hs => ?_) (fun s a t hs h => ?_) _ _ ⟨rfl, rfl⟩
  · rw [listedStatement, get_run, hs.2, map_eq_pure_bind]
    exact bind_of_eq (parse_of_parses hs _)
  · rw [map_eq_pure_bind] at h
    obtain ⟨n, u, hu, h⟩ := bind_ok.1 h
    cases h
    rw [parse_of_parses hs] at hu
    exact ((parseLevel_proceeds _ _ _).ok hu).parses hs

/-- The statements of a document are read as those of a script in the recovering mode. -/
theorem recovering_script (text : List Char) (memory : Bool) :
    collectUntil (·.atEnd) (statementOrSkip (parse .statement)) (.startOf text true memory) =
      script (parseLevel (levelsOf text)) (.startOf text true memory) := by
  have hstep : ∀ s : ParserState, s.Parses text true →
      statementOrSkip (parse .statement) s = listedStatement (parseLevel (levelsOf text)) s := by
    intro s hs
    rw [listedStatement_of_recovering hs.2, statementOrSkip, statementOrSkip, get_run, get_run]
    refine bind_of_eq ?_
    rw [attempt, attempt, parse_of_parses hs]
  refine collect_congr (I := (·.Parses text true)) hstep (fun s a t hs h => ?_) _ _ ⟨rfl, rfl⟩
  rw [hstep s hs] at h
  exact ((Proceeds.listedStatement (parseLevel_proceeds _) s).ok h).parses hs

/-- The node of a script, where the parse of its statements has ended. -/
def Grammar.scriptNode (text : List Char) (body : List Node) (s : ParserState) : Node :=
  ⟨⟨(ParserState.ofText text).offset, s.current.stop⟩, .program body⟩

/-- A program is a script that the strict parser reads, and so with no fault. -/
theorem program_ok : program.result (.startOf text false memory) = .ok P ↔
    ∃ body t, CleanRun (script (parseLevel (levelsOf text))) (.startOf text false memory) body t ∧
      P = scriptNode text body t := by
  have hrun : program (.startOf text false memory) =
      (script (parseLevel (levelsOf text)) >>= fun body => get >>= fun t =>
        pure (scriptNode text body t)) (.startOf text false memory) :=
    bind_of_eq (strict_script text memory)
  have hclean : ∀ {body t}, script (parseLevel (levelsOf text)) (.startOf text false memory) = .ok body t →
      t.faults = [] := fun h =>
    ((built_script : Built 0 _ _ _).proceeds (parseLevel_proceeds _) _ (.rfl _)).ok h |>.strict rfl
  rw [Parse.result, hrun]
  cases hs : script (parseLevel (levelsOf text)) (.startOf text false memory) with
  | ok body t =>
    rw [bind_of_ok hs]
    constructor
    · intro h
      cases h
      exact ⟨body, t, ⟨hs, hclean hs⟩, rfl⟩
    · rintro ⟨body', t', ⟨h, -⟩, rfl⟩
      cases hs.symm.trans h
      rfl
  | error e t =>
    rw [bind_of_error hs]
    constructor
    · intro h
      cases h
    · rintro ⟨_, _, ⟨h, -⟩, -⟩
      cases hs.symm.trans h

/-- While recovering a statement of a list is read or skipped. -/
theorem listedStatement_recovers {g : Grammar} (hg : g.Proceeds) {s : ParserState}
    (hs : s.recovering = true) :
    ∃ o t, listedStatement g s = .ok o t ∧ t.recovering = true := by
  have hrecovering : ∀ {o t}, listedStatement g s = .ok o t → t.recovering = true := fun h =>
    ((Proceeds.listedStatement hg s).ok h).recovering.trans hs
  suffices ∃ o t, listedStatement g s = .ok o t from
    let ⟨o, t, h⟩ := this
    ⟨o, t, h, hrecovering h⟩
  rw [listedStatement_of_recovering hs]
  rcases statementOrSkip_cases (g .statement) s with ⟨n, t, -, hread⟩ | ⟨e, t, -, hskip⟩
  · exact ⟨some n, t, hread⟩
  · exact ⟨none, _, hskip⟩

/-- While recovering a script is read, whatever its text. -/
theorem script_recovers (text : List Char) (memory : Bool) (levels : Nat) :
    ∃ body t, script (parseLevel levels) (.startOf text true memory) = .ok body t := by
  have hcollect : ∀ rounds (s : ParserState), s.recovering = true →
      ∃ l t, collect (·.atEnd) (listedStatement (parseLevel levels)) rounds s = .ok l t := by
    intro rounds
    induction rounds with
    | zero => exact fun s _ => ⟨[], s, rfl⟩
    | succ rounds ih =>
      intro s hs
      rw [collect, get_run]
      split
      · exact ⟨[], s, rfl⟩
      · obtain ⟨o, u, hu, hu'⟩ := listedStatement_recovers (parseLevel_proceeds levels) hs
        obtain ⟨l, t, ht⟩ := ih u hu'
        exact ⟨o.toList ++ l, t, (bind_of_ok hu).trans (bind_of_ok ht)⟩
  exact hcollect _ _ rfl

/-- A document is a script that the recovering parser reads, with the faults it has met. -/
theorem document_run {body : List Node} {t : ParserState}
    (h : script (parseLevel (levelsOf text)) (.startOf text true memory) = .ok body t) :
    document.result (.startOf text false memory) = .ok (scriptNode text body t, t.faults.reverse) := by
  have hrun : document (.startOf text false memory) =
      (script (parseLevel (levelsOf text)) >>= fun body => get >>= fun t => (do
        modify fun s => { s with recovering := false, faults := [] }
        return (scriptNode text body (← get), t.faults.reverse))) (.startOf text true memory) :=
    bind_of_eq (recovering_script text memory)
  rw [Parse.result, hrun, bind_of_ok h]
  rfl

theorem document_ok : document.result (.startOf text false memory) = .ok (P, []) ↔
    ∃ body t, CleanRun (script (parseLevel (levelsOf text))) (.startOf text true memory) body t ∧
      P = scriptNode text body t := by
  constructor
  · intro h
    obtain ⟨body, t, hrun⟩ := script_recovers text memory (levelsOf text)
    rw [document_run hrun] at h
    injection h with h
    injection h with hP hfaults
    exact ⟨body, t, ⟨hrun, List.reverse_eq_nil_iff.1 hfaults⟩, hP.symm⟩
  · rintro ⟨body, t, hrun, rfl⟩
    have hfaults : t.faults = [] := hrun.2
    rw [document_run hrun.1, hfaults]
    rfl

/-- A document is parsed with memory, and never fails. -/
theorem parseDocument_eq {r : Node × List ParseError} :
    parseDocument text = r ↔ document.result (.startOf text false true) = .ok r := by
  obtain ⟨body, t, hrun⟩ := script_recovers text true (levelsOf text)
  have hdocument := document_run hrun
  have hparse : parseDocument text = (scriptNode text body t, t.faults.reverse) := by
    rw [Parse.result] at hdocument
    rw [parseDocument]
    split at hdocument
    · rename_i hok
      cases hdocument
      have hok : document (.ofText text) = .ok _ _ := hok
      rw [hok]
    · cases hdocument
  rw [hparse, hdocument, Except.ok.injEq]

/-! ### The two modes -/

theorem EndsWithin.not_anyOpen {body : List Node} {t : ParserState} {last : Nat}
    (h : (scriptNode text body t).EndsWithin last) : ¬ AnyOpen last body := fun hopen =>
  Node.not_open h (.of_children hopen)

/-- **The strict and the recovering parser agree**: a program is a document with no fault, and
a document with no fault and no span past the end of the text is a program. -/
theorem parseProgram_iff_parseDocument (text : List Char) :
    (∀ P, parseProgram text = .ok P → parseDocument text = (P, [])) ∧
      ∀ P, parseDocument text = (P, []) → P.EndsWithin (unitLength text) →
        parseProgram text = .ok P := by
  have hnode : ∀ {body s t}, ParserState.stream t = ParserState.stream s →
      scriptNode text body s = scriptNode text body t := fun {body s t} h => by
    rw [scriptNode, scriptNode, ParserState.current, ParserState.current, h]
  constructor
  · intro P h
    obtain ⟨body, s, hrun, rfl⟩ := (program_ok : program.result (.startOf text false true) = .ok _ ↔ _).1 h
    obtain ⟨t, ht, hts⟩ := script_clean false true true true (fun h => by cases h) hrun
    exact parseDocument_eq.2 (document_ok.2 ⟨body, t, ht, hnode hts⟩)
  · intro P h hends
    obtain ⟨body, s, hrun, rfl⟩ := document_ok.1 (parseDocument_eq.1 h)
    obtain ⟨t, ht, hts⟩ := script_clean true false true true
      (fun _ _ => EndsWithin.not_anyOpen hends) hrun
    exact (program_ok : program.result (.startOf text false true) = .ok _ ↔ _).2 ⟨body, t, ht, hnode hts⟩

/-- The empty statement, as a program and as a document, each from the other. -/
theorem parse_empty_statement :
    parseDocument [';'] = (⟨⟨0, 1⟩, .program [⟨⟨0, 1⟩, .empty⟩]⟩, []) ∧
      parseProgram [';'] = .ok ⟨⟨0, 1⟩, .program [⟨⟨0, 1⟩, .empty⟩]⟩ := by
  have hprogram : parseProgram [';'] = .ok ⟨⟨0, 1⟩, .program [⟨⟨0, 1⟩, .empty⟩]⟩ := by
    with_unfolding_all rfl
  have hdocument := (parseProgram_iff_parseDocument [';']).1 _ hprogram
  refine ⟨hdocument, (parseProgram_iff_parseDocument [';']).2 _ hdocument ?_⟩
  intro m hm r hr
  cases hm with
  | self =>
    cases hr with
    | head => decide
    | tail _ hr => cases hr
  | inside hc hm =>
    cases hc with
    | head =>
      cases hm with
      | self =>
        cases hr with
        | head => decide
        | tail _ hr => cases hr
      | inside hc => cases hc
    | tail _ hc => cases hc

/-- A program is, as a document, the same program with no fault. -/
theorem parseDocument_of_program (h : parseProgram text = .ok P) : parseDocument text = (P, []) := by
  obtain ⟨body, s, hrun, rfl⟩ := (program_ok : program.result (.startOf text false true) = .ok _ ↔ _).1 h
  obtain ⟨t, ht, hts⟩ := script_clean false true true true (fun h => by cases h) hrun
  have hnode : scriptNode text body s = scriptNode text body t := by
    rw [scriptNode, scriptNode, ParserState.current, ParserState.current, hts]
  exact parseDocument_eq.2 (document_ok.2 ⟨body, t, ht, hnode⟩)

end Typeahead
