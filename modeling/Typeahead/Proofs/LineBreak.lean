/-
# Line breaks before tokens

A token carries a flag for a line break before it. Where comments are no tokens the flag is exact: it is
set if and only if a line ends in the gap before the token, behind the token before or, for the first one,
from the start of the text on. Where comments are tokens there is one exception: a comment over several
lines is flagged for the line ends that it holds itself.

The flag is read off the characters skipped before a token, so `afterLineBreak_scanFrom` follows the
recursion of `scanFrom` with the text already scanned put back in front.

Key definitions: `Text.HasLineEnd`, `Token.endOfLast`.
Key theorems: `afterLineBreak_scanFrom`, `afterLineBreak_iff`.
-/
import Typeahead.Proofs.Scan

namespace Typeahead

open Text

/-- A line ends in the text. -/
def Text.HasLineEnd (text : List Char) : Prop := ∃ c ∈ text, isLineTerminator c = true

namespace Token

/-- Where the gap behind some tokens begins: at the end of the last of them, or at `offset` if there are none. -/
def endOfLast (offset : Nat) (tokens : List Token) : Nat := (tokens.getLast?.map Token.stop).getD offset

theorem endOfLast_nil (offset : Nat) : endOfLast offset [] = offset := rfl

/-- Only the last token counts, so the tokens before the others move where those begin. -/
theorem endOfLast_cons (offset : Nat) (t : Token) (tokens : List Token) :
    endOfLast offset (t :: tokens) = endOfLast t.stop tokens := by
  cases tokens with
  | nil => rfl
  | cons u tokens => simp [endOfLast, List.getLast?_cons]

end Token

/-- A token is flagged for a line end before it and, if it is a comment, for one inside it. -/
theorem Lexeme.afterLineBreak_toToken (lexeme : Lexeme) (start : Nat) {skipped chars : List Char} :
    (lexeme.toToken start chars (skipped.any isLineTerminator)).afterLineBreak = true ↔
      HasLineEnd skipped ∨ lexeme.kind = .comment ∧ HasLineEnd chars := by
  simp [toToken, HasLineEnd]

/-- Comments are tokens only where they are kept. -/
theorem keepComments_of_comment {keepComments : Bool} {c : Char} {rest : List Char}
    (h : (Lexeme.read keepComments c rest).kind = .comment) : keepComments = true := by
  by_contra hk
  exact (read_kind keepComments c rest).2 (by simp [hk]) h

/-- **The flags of one scan**, whatever text comes before it. -/
theorem afterLineBreak_scanFrom (keepComments : Bool) (offset : Nat) (text : List Char) :
    ∀ before, offset = unitLength before → ∀ front t back,
      scanFrom keepComments offset text = front ++ t :: back →
        ∃ gap, StandsAt (before ++ text) (Token.endOfLast offset front) t.start gap ∧
          (t.afterLineBreak = true ↔
            HasLineEnd gap ∨ keepComments = true ∧ t.kind = .comment ∧ HasLineEnd t.text.toList) := by
  fun_induction scanFrom keepComments offset text with
  | case1 offset text skipped start broken h =>
    intro before hb front t back ht
    obtain ⟨rfl, hlast⟩ : front = [] ∧ t :: back = [_] := by
      simpa using (List.append_eq_singleton_iff.1 ht.symm).resolve_right (by simp)
    obtain ⟨rfl, rfl⟩ := List.cons.inj hlast
    refine ⟨text.take skipped, ⟨before, text.drop skipped, by simp, hb, rfl⟩, ?_⟩
    simp [broken, HasLineEnd, Token.endOfInput]
  | case2 offset text skipped start broken c rest h lexeme token ih =>
    rintro before rfl front t back ht
    have hchars : token.text.toList = c :: rest.take lexeme.extra := by simp [token, Lexeme.toToken]
    have hsplit : text = text.take skipped ++ token.text.toList ++ rest.drop lexeme.extra := by
      rw [hchars, List.append_assoc, List.cons_append, List.take_append_drop, ← h, List.take_append_drop]
    cases front with
    | nil =>
      obtain ⟨rfl, -⟩ := List.cons.inj ht
      refine ⟨text.take skipped, ⟨before, text.drop skipped, by simp, rfl, rfl⟩, ?_⟩
      rw [hchars]
      refine (Lexeme.afterLineBreak_toToken lexeme start).trans (or_congr_right ?_)
      exact ⟨fun hc => ⟨keepComments_of_comment hc.1, hc⟩, fun hc => hc.2⟩
    | cons u front =>
      obtain ⟨rfl, htail⟩ := List.cons.inj ht
      have hstop : token.stop = unitLength (before ++ text.take skipped ++ token.text.toList) := by
        rw [hchars, unitLength_append, unitLength_append]
        rfl
      have hrest := ih _ hstop front t back htail
      rw [Token.endOfLast_cons]
      rwa [List.append_assoc, List.append_assoc, ← List.append_assoc (text.take skipped), ← hsplit] at hrest

/-- **The flag for a line break is exact**, but for a comment that is kept and holds a line end itself: of every token
of a scan it is set if and only if a line ends between the end of the token before, or the start of the text, and
the start of the token. -/
theorem afterLineBreak_iff {keepComments : Bool} {text : List Char} {front back : List Token} {t : Token}
    (h : scanFrom keepComments 0 text = front ++ t :: back) :
    ∃ gap, StandsAt text (Token.endOfLast 0 front) t.start gap ∧
      (t.afterLineBreak = true ↔
        HasLineEnd gap ∨ keepComments = true ∧ t.kind = .comment ∧ HasLineEnd t.text.toList) :=
  afterLineBreak_scanFrom keepComments 0 text [] rfl front t back h

/-- A comment that is no token and holds a line end, before the second of two names. -/
theorem afterLineBreak_behind_comment :
    scanFrom false 0 "a /* b\n */ c".toList =
        [⟨.identifier, "a", 0, 1, false, false⟩] ++ ⟨.identifier, "c", 11, 12, true, false⟩ ::
          [Token.endOfInput 12] ∧
      ∃ gap, StandsAt "a /* b\n */ c".toList 1 11 gap ∧
        (true = true ↔ HasLineEnd gap ∨
          false = true ∧ TokenKind.identifier = .comment ∧ HasLineEnd "c".toList) := by
  have h : scanFrom false 0 "a /* b\n */ c".toList =
      [⟨.identifier, "a", 0, 1, false, false⟩] ++ ⟨.identifier, "c", 11, 12, true, false⟩ ::
        [Token.endOfInput 12] := by decide +kernel
  exact ⟨h, afterLineBreak_iff h⟩

/-- The comment that a text begins with is flagged although nothing is before it. -/
theorem not_afterLineBreak_iff_kept :
    ¬ ∀ front t back, scanFrom true 0 "/*\n*/".toList = front ++ t :: back →
      ∃ gap, StandsAt "/*\n*/".toList (Token.endOfLast 0 front) t.start gap ∧
        (t.afterLineBreak = true ↔ HasLineEnd gap) := by
  intro h
  obtain ⟨gap, ⟨before, after, -, hbefore, hstop⟩, hflag⟩ :=
    h [] ⟨.comment, "/*\n*/", 0, 5, true, false⟩ [Token.endOfInput 5] (by decide +kernel)
  have hgap : gap = [] := by
    by_contra hne
    have := unitLength_pos (List.length_pos_iff.2 hne)
    simp only [Token.endOfLast_nil] at hstop
    omega
  obtain ⟨c, hc, -⟩ := hflag.1 rfl
  simp [hgap] at hc

end Typeahead
