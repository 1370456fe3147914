/-
# Braces of a document

In a text whose braces are balanced, every block of the document and every class body goes from an
opening brace to the closing one that matches it, whatever faults are in it, but for the faults of
classes. A class element that fails behind a brace of its own is skipped up to that brace's match
only, which then closes the class; so a fault in a class body may leave the class, and the blocks
around it, with a closing brace that is not their own.

Key theorems: `braces_parseDocument`, `classBody_not_matched`.
-/
import Typeahead.Proofs.Braces.Statements
import Typeahead.Proofs.Layout.Script

namespace Typeahead

open Parse Grammar

/-- Behind the last token the height does not change. -/
theorem height_of_size_le {tokens : Array Token} {index : Nat} (h : tokens.size ≤ index) :
    height tokens index = height tokens tokens.size := by
  rw [height, height, List.take_of_length_le (by simpa using h), List.take_of_length_le (by simp)]

instance (tokens : Array Token) : Decidable (BalancedBraces tokens) :=
  decidable_of_iff ((∀ index ≤ tokens.size, 0 ≤ height tokens index) ∧ height tokens tokens.size = 0)
    ⟨fun h => ⟨fun index => by
      rcases Nat.le_total index tokens.size with hle | hle
      · exact h.1 index hle
      · exact Int.le_of_eq (h.2.symm.trans (height_of_size_le hle).symm), h.2⟩,
    fun h => ⟨fun index _ => h.nonneg index, h.zero⟩⟩

variable {tokens : Array Token} {faults : List ParseError} {text : List Char}

/-- The statements of a script are fine, though they need not end at the height of the script. -/
theorem fine_collect (hb : BalancedBraces tokens) {levels : Nat} : ∀ (rounds : Nat) {s t : ParserState} {body : List Node},
    s.Over tokens → collect (·.atEnd) (listedStatement (parseLevel levels)) rounds s = .ok body t →
    t.faults ⊆ faults → AllFine tokens faults body
  | 0, s, t, body, _, h, _ => by
    cases h
    exact .nil
  | rounds + 1, s, t, body, hs, h, hfaults => by
    have hg := parseLevel_proceeds levels
    rw [collect, get_run] at h
    split at h
    · cases h
      exact .nil
    · obtain ⟨o, u, hu, h⟩ := bind_ok.1 h
      obtain ⟨rest, v, hv, h⟩ := bind_ok.1 h
      cases h
      have hfollows := (Proceeds.listedStatement hg s).ok hu
      have hrest := (Proceeds.collect (fun t => Proceeds.listedStatement hg t) rounds u).ok hv
      have hfine : ∀ n v, parseLevel levels .statement s = .ok n v → v.faults ⊆ faults → n.Fine tokens faults :=
        fun n v hv hfaults => ((parseLevel_levels hb levels .statement (fun _ => True) s).ok hs
          (fun _ _ => trivial) hv).2.2 hfaults |>.2
      refine .append (.optional fun n hn => ?_) (fine_collect hb rounds (hs.follows hfollows) hv hfaults)
      cases hn
      rcases listedStatement_cases (parseLevel levels) s with
        ⟨m, w, hw, hread⟩ | ⟨e, w, -, ⟨-, hskip⟩ | ⟨-, hfail⟩⟩
      · cases hread.symm.trans hu
        exact hfine n u hw fun e he => hfaults (hrest.faults.subset he)
      · cases hskip.symm.trans hu
      · cases hfail.symm.trans hu

/-- **Braces match.** If the braces of a text are balanced, every block of its document goes from a
brace to the brace that matches it, or a fault shows in it behind the word `class`. Every class body
goes from a brace to the brace that matches it, or a fault shows in it. -/
theorem braces_parseDocument (text : List Char) (h : BalancedBraces (tokenize text).toArray) :
    ∀ n, (parseDocument text).1.Contains n →
      (∀ body, n.kind = .block body → Matched (tokenize text).toArray n.range ∨
        Disturbed (tokenize text).toArray (parseDocument text).2 n.range) ∧
      ∀ r ∈ n.kind.classBody?, Matched (tokenize text).toArray r ∨ Faulty (parseDocument text).2 r := by
  obtain ⟨body, t, hrun⟩ := script_recovers text true (levelsOf text)
  have hparse := parseDocument_eq.2 (document_run hrun)
  have hover : ParserState.Over (tokenize text).toArray (.startOf text true true) :=
    ⟨sound_startOf text true true, tokens_ofText text⟩
  have hbody : AllFine (tokenize text).toArray t.faults.reverse body :=
    fine_collect h _ hover hrun fun _ he => List.mem_reverse.2 he
  have hfine : (scriptNode text body t).Fine (tokenize text).toArray t.faults.reverse := .plain rfl hbody
  rw [hparse]
  exact fun n hn => ⟨fun body hk => hfine.block n body hn hk, fun r hr => hfine.body n r hn hr⟩

theorem braces_parseDocument_of_fault :
    let text := "{ a b { } }".toList
    BalancedBraces (tokenize text).toArray ∧ ∀ n, (parseDocument text).1.Contains n →
      (∀ body, n.kind = .block body → Matched (tokenize text).toArray n.range ∨
        Disturbed (tokenize text).toArray (parseDocument text).2 n.range) ∧
      ∀ r ∈ n.kind.classBody?, Matched (tokenize text).toArray r ∨ Faulty (parseDocument text).2 r :=
  have h : BalancedBraces (tokenize "{ a b { } }".toList).toArray := by decide +kernel
  ⟨h, braces_parseDocument _ h⟩

/-- The element fails behind its brace, which is not counted as it is skipped, so the brace that
closes the object closes the class, one brace too early. -/
theorem classBody_not_matched :
    let text := "class C { x = { a b } }".toList
    BalancedBraces (tokenize text).toArray ∧ ∃ n r, (parseDocument text).1.Contains n ∧ r ∈ n.kind.classBody? ∧
      ¬ Matched (tokenize text).toArray r := by
  intro text
  have hbody : (parseDocument text).1.kind.children.filterMap (·.kind.classBody?) = [⟨8, 21⟩] := by decide +kernel
  obtain ⟨n, hn, hr⟩ := List.mem_filterMap.1 (hbody ▸ List.mem_singleton_self _)
  exact ⟨by decide +kernel, n, ⟨8, 21⟩, .inside hn (.self n), hr, by decide +kernel⟩

end Typeahead
