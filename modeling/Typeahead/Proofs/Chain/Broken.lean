/-
# Chains over several lines

A chain that is written over several lines is split as if it stood on one: the blanks in front of its
separators are passed over. It is not found so: read from its end, a chain ends at the first blank.
What is found is what stands behind the last blanks, and the name there is taken for the head of a
chain; where the blanks stand in front of the last separator, no chain is found.

Key definition: `Link.IsBalanced`.
Key theorems: `expressionBefore_blanks`, `ofText?_expressionBefore_broken`.
-/
import Typeahead.Proofs.Chain.Forward

namespace Typeahead

open Text Chain Extract

/-- No backslash stands outside of the strings in a link. -/
def Link.IsBalanced : Link → Prop
  | member _ => True
  | index text => Balanced text
  | call args => Balanced args

/-! ### From the end -/

theorem Placed.IsWritten.passes {p : Placed} (h : p.IsWritten) (hbalanced : p.link.IsBalanced)
    (hspace : p.space = []) : Passes p.text := by
  obtain ⟨link, optional, space⟩ := p
  obtain rfl : space = [] := hspace
  have hmark : ∀ {mark : List Char}, mark = [] ∨ mark = ['?', '.'] → Passes mark := by
    rintro mark (rfl | rfl)
    · exact .nil
    · exact passes_optionalDot
  cases link with
  | member name => exact (passes_dot (Link.isDot_mark optional name)).append (passes_name h.link.2)
  | index text => exact (hmark (Link.mark_index optional text)).append (passes_group hbalanced .square (by decide))
  | call args => exact (hmark (Link.mark_index optional args)).append (passes_group hbalanced .round (by decide))

theorem passes_placedText : ∀ {placed : List Placed}, (∀ p ∈ placed, p.IsWritten) →
    (∀ p ∈ placed, p.link.IsBalanced ∧ p.space = []) → Passes (placedText placed)
  | [], _, _ => .nil
  | p :: _, h, htight => ((h p List.mem_cons_self).passes (htight p List.mem_cons_self).1
      (htight p List.mem_cons_self).2).append
    (passes_placedText (fun q hq => h q (List.mem_cons_of_mem _ hq)) fun q hq => htight q (List.mem_cons_of_mem _ hq))

/-- No chain goes on before a blank. -/
theorem reach_blank {before : List Char} (h : ∀ c ∈ before.head?, isBlank c = true) (next : Option Char) :
    reach next before = 0 := by
  cases before with
  | nil => rw [reach]
  | cons c before =>
    have hc := h c rfl
    have hpart : isIdentifierPart c = false := by
      by_contra hpart
      rw [not_isBlank_of_isIdentifierPart (Bool.of_not_eq_false hpart)] at hc
      cases hc
    have hmark : ∀ d ∈ chainMarks, c ≠ d := fun d hd hcd => not_mem_chainMarks_of_isBlank hc (hcd ▸ hd)
    have hquote := (not_special (not_mem_chainMarks_of_isBlank hc)).1
    rw [reach, if_neg, if_neg, if_neg (by simp [hquote])]
    · simp [hmark ')' (by decide), hmark ']' (by decide)]
    · simp [hpart, hmark '.' (by decide), hmark '?' (by decide)]

/-- **A chain is found from its end back to the last blanks in it**, without the separator behind
them. -/
theorem expressionBefore_blanks (before : List Char) {space dot rest : List Char} (hne : space ≠ [])
    (hspace : ∀ c ∈ space, isBlank c = true) (hdot : IsDot dot) (hpass : Passes rest)
    (hstart : ∀ c ∈ rest.head?, isIdentifierPart c = true) (hfits : (dot ++ rest).length ≤ scanLimit) :
    expressionBefore (before ++ (space ++ (dot ++ rest))) (unitLength (before ++ (space ++ (dot ++ rest)))) = rest := by
  let seen := (space.reverse ++ before.reverse).take (scanLimit - (dot ++ rest).length)
  have hwindow : (before ++ (space ++ (dot ++ rest))).reverse.take scanLimit = (dot ++ rest).reverse ++ seen := by
    rw [List.reverse_append, List.reverse_append, List.append_assoc, List.take_append, List.take_of_length_le
      (by rwa [List.length_reverse]), List.length_reverse]
  have hseen : ∀ c ∈ seen.head?, isBlank c = true := by
    intro c hc
    have hc := head?_of_take hc
    rw [List.head?_append, List.head?_reverse] at hc
    obtain ⟨front, last, rfl⟩ : ∃ front last, space = front ++ [last] :=
      ⟨_, _, (List.dropLast_append_getLast hne).symm⟩
    rw [List.getLast?_concat, Option.some_or, Option.mem_some_iff] at hc
    exact hspace c (by simp [hc])
  have hreach : reach none ((dot ++ rest).reverse ++ seen) = (dot ++ rest).length := by
    obtain ⟨next, hpass⟩ := ((passes_dot hdot).append hpass) none
    rw [hpass, reach_blank hseen, Nat.add_zero]
  have hchain : ((dot ++ rest).reverse ++ seen).take (dot ++ rest).length = (dot ++ rest).reverse := by
    rw [← List.length_reverse, List.take_left]
  have hdrop : (dot ++ rest).dropWhile (fun c => c == '.' || c == '?') = rest := by
    have hrest : rest.dropWhile (fun c => c == '.' || c == '?') = rest := by
      cases rest with
      | nil => rfl
      | cons c rest =>
        refine List.dropWhile_cons_of_neg fun hmark => not_mem_chainMarks (hstart c rfl) ?_
        simp only [Bool.or_eq_true, beq_iff_eq] at hmark
        rcases hmark with rfl | rfl <;> decide
    rcases hdot with rfl | rfl <;> simpa using hrest
  -- what stands before the chain is its separator, so no `new` belongs to it
  have hnew : newBefore (((dot ++ rest).reverse ++ seen).drop rest.length) = [] := by
    have hbefore : ((dot ++ rest).reverse ++ seen).drop rest.length = dot.reverse ++ seen := by
      rw [List.reverse_append, List.append_assoc, ← List.length_reverse, List.drop_left]
    rw [hbefore]
    rcases hdot with rfl | rfl <;> simp [newBefore, isBlank]
  simp only [expressionBefore, takeUnits_unitLength, hwindow, chainBefore, hreach, hchain, List.reverse_reverse,
    hdrop, hnew, List.nil_append, ite_self]

/-! ### Steps -/

/-- What is read before a link that is no call does not depend on it. -/
theorem Link.steps_append {link : Link} (h : link.isCall = false) (later : List Link) : ∀ links : List Link,
    steps (links ++ link :: later) = steps links ++ steps (link :: later) := by
  intro links
  fun_induction Link.steps links with
  | case1 => rfl
  | case2 name args links ih => rw [List.cons_append, List.cons_append, steps, ih, List.cons_append]
  | case3 name links hnext ih =>
    have hhead : ∀ l ∈ (links ++ link :: later).head?, l.isCall = false := by
      intro l hl
      cases links with
      | nil =>
        obtain rfl : link = l := Option.some.inj hl
        exact h
      | cons first links =>
        obtain rfl : first = l := Option.some.inj hl
        cases first with
        | member | index => rfl
        | call args => exact absurd rfl (hnext args links)
    rw [List.cons_append, steps_member name hhead, ih, List.cons_append]
  | case4 text links ih => rw [List.cons_append, steps, ih, List.cons_append]
  | case5 args links ih => rw [List.cons_append, steps, ih, List.cons_append]

theorem placedSteps_append {p : Placed} (h : p.link.isCall = false) (front back : List Placed) :
    placedSteps (front ++ p :: back) = placedSteps front ++ placedSteps (p :: back) := by
  obtain ⟨link, optional, space⟩ := p
  rw [placedSteps, List.map_append]
  exact Link.steps_append (by cases link <;> first | rfl | cases h) _ _

/-- The steps from a name on are not those of what stands behind it. -/
theorem placedSteps_member_ne (name : List Char) (optional : Bool) (space : List Char) (front back : List Placed) :
    placedSteps (front ++ ⟨.member name, optional, space⟩ :: back) ≠ placedSteps back := by
  intro heq
  rw [placedSteps_append rfl] at heq
  obtain ⟨calls, more, rfl, hcalls, hmore⟩ := leading_calls back
  rw [placedSteps_member name optional space hcalls hmore, placedSteps_calls more hcalls] at heq
  have hlength := congrArg List.length heq
  simp only [List.length_append, List.length_cons, List.length_replicate] at hlength
  -- the calls that the name takes are as many steps as the name and the other calls
  cases calls with
  | nil =>
    simp only [List.length_nil] at hlength
    omega
  | cons call calls =>
    have hfront : placedSteps front = [] := List.length_eq_zero_iff.1 (by rw [List.length_cons] at hlength; omega)
    rw [hfront, List.length_cons, List.replicate_succ] at heq
    cases heq

/-- The chain behind a name is not the one that the name is a link of. -/
theorem chainOf?_ne {head name : List Char} {optional : Bool} {space : List Char} {front back : List Placed}
    {chain : AccessChain} (h : chainOf? head (front ++ ⟨.member name, optional, space⟩ :: back) = some chain) :
    chainOf? name back ≠ some chain := by
  have hsteps : ∀ {head : List Char} {placed : List Placed}, chainOf? head placed = some chain →
      placedSteps placed = chain.steps := by
    intro head placed h
    rw [chainOf?] at h
    split at h
    · cases h
    · split at h
      · rw [← Option.some.inj h]
      · cases h
  exact fun hback => placedSteps_member_ne name optional space front back ((hsteps h).trans (hsteps hback).symm)

/-! ### The chain -/

theorem chainOf?_joined (head : List Char) (placed : List Placed) :
    chainOf? head (placed.map Placed.joined) = chainOf? head placed := by
  refine chainOf?_congr head ?_ ?_
  · rw [List.map_map]
    rfl
  · rw [List.any_map]
    rfl

/-- **A chain with blanks in front of its separators is split as the chain without them, but it is not
found from its end**: nothing is found if blanks stand in front of the last separator, and otherwise,
behind any text, the name behind the last blanks and what follows it, which is another chain. -/
theorem ofText?_expressionBefore_broken {head : List Char} {placed : List Placed} {space dot : List Char}
    (hhead : isIdentifier head = true) (h : ∀ p ∈ placed, p.IsWritten) (hspace : ∀ c ∈ space, isBlank c = true)
    (hdot : IsDot dot) (before : List Char) :
    let written := head ++ placedText placed ++ (space ++ dot)
    let found := AccessChain.ofText? (expressionBefore (before ++ written) (unitLength (before ++ written)))
    AccessChain.ofText? written = AccessChain.ofText? (head ++ placedText (placed.map Placed.joined) ++ dot) ∧
      (space ≠ [] → found = none) ∧
      ∀ front name optional blanks back, placed = front ++ ⟨.member name, optional, blanks⟩ :: back → blanks ≠ [] →
        isIdentifier name = true → (∀ p ∈ back, p.link.IsBalanced ∧ p.space = []) → space = [] →
        written.length ≤ scanLimit →
          found = AccessChain.ofText? (name ++ placedText back ++ dot) ∧
            ∀ chain, AccessChain.ofText? written = some chain → found ≠ some chain := by
  intro written found
  have hjoined : ∀ p ∈ placed.map Placed.joined, p.IsWritten :=
    List.forall_mem_map.2 fun p hp => .tight p.link p.optional (h p hp).link
  have hwritten : AccessChain.ofText? written = chainOf? head placed := ofText?_placedText hhead h (.dot hspace hdot)
  refine ⟨?_, fun hne => ?_, ?_⟩
  · rw [hwritten, ofText?_placedText hhead hjoined hdot.tailText, chainOf?_joined]
  · have hsmall : (dot ++ []).length ≤ scanLimit := by rcases hdot with rfl | rfl <;> decide
    have hnothing := expressionBefore_blanks (before ++ (head ++ placedText placed)) hne hspace hdot .nil
      (fun c hc => by cases hc) hsmall
    have hsplit : before ++ written = before ++ (head ++ placedText placed) ++ (space ++ (dot ++ [])) := by
      simp [written]
    have hnone : AccessChain.ofText? [] = none := by decide
    simp only [found, hsplit, hnothing, hnone]
  · rintro front name optional blanks back rfl hne hname hback rfl hfits
    have hmember := h ⟨.member name, optional, blanks⟩ (by simp)
    have hbacks : ∀ p ∈ back, p.IsWritten := fun p hp => h p (by simp [hp])
    let mark := (Link.member name).mark optional
    have hsplit : before ++ written =
        before ++ (head ++ placedText front) ++ (blanks ++ (mark ++ (name ++ placedText back ++ dot))) := by
      simp [written, mark, placedText_append, placedText_cons, Placed.text, Link.body]
    have hpass : Passes (name ++ placedText back ++ dot) :=
      ((passes_name hmember.link.2).append (passes_placedText hbacks hback)).append (passes_dot hdot)
    have hstart : ∀ c ∈ (name ++ placedText back ++ dot).head?, isIdentifierPart c = true := by
      obtain ⟨c, rest, rfl, -, hparts⟩ := ident_of_isIdentifier hname
      intro d hd
      obtain rfl : c = d := Option.some.inj hd
      exact hparts c List.mem_cons_self
    have hshort : (mark ++ (name ++ placedText back ++ dot)).length ≤ scanLimit := by
      refine le_trans ?_ hfits
      simp only [written, mark, placedText_append, placedText_cons, Placed.text, Link.body, List.length_append]
      omega
    have hrest := expressionBefore_blanks (before ++ (head ++ placedText front)) hne hmember.blank
      (Link.isDot_mark optional name) hpass hstart hshort
    have hfound : found = AccessChain.ofText? (name ++ placedText back ++ dot) := by
      simp only [found, hsplit]
      exact congrArg AccessChain.ofText? hrest
    refine ⟨hfound, fun chain hchain => ?_⟩
    rw [hfound, ofText?_placedText hname hbacks hdot.tailText]
    exact chainOf?_ne (hwritten ▸ hchain)

/-- A member on the next line. -/
theorem ofText?_expressionBefore_next_line :
    let text := ";user\n  .profile.name().".toList
    isIdentifier "user".toList = true ∧ isIdentifier "profile".toList = true ∧
      AccessChain.ofText? (expressionBefore text (unitLength text)) = AccessChain.ofText? "profile.name().".toList := by
  intro text
  have hblanks : ∀ c ∈ ['\n', ' ', ' '], isBlank c = true := by decide
  have hprofile : Placed.IsWritten ⟨.member "profile".toList, false, ['\n', ' ', ' ']⟩ :=
    ⟨⟨by decide, by decide +kernel⟩, hblanks, fun _ => by decide⟩
  have hname : Placed.IsWritten ⟨.member "name".toList, false, []⟩ :=
    .tight (.member "name".toList) false ⟨by decide, by decide +kernel⟩
  have hcall : Placed.IsWritten ⟨.call [], false, []⟩ := .tight (.call []) false .nil
  have huser : isIdentifier "user".toList = true := by decide +kernel
  have hmember : isIdentifier "profile".toList = true := by decide +kernel
  have hbroken := ofText?_expressionBefore_broken huser
    (List.forall_mem_cons.2 ⟨hprofile, List.forall_mem_cons.2 ⟨hname,
      List.forall_mem_cons.2 ⟨hcall, List.forall_mem_nil _⟩⟩⟩) (List.forall_mem_nil _) (.inl rfl : IsDot ['.']) [';']
  have hback : ∀ p ∈ [(⟨.member "name".toList, false, []⟩ : Placed), ⟨.call [], false, []⟩],
      p.link.IsBalanced ∧ p.space = [] :=
    List.forall_mem_cons.2 ⟨⟨trivial, rfl⟩, List.forall_mem_cons.2 ⟨⟨.nil, rfl⟩, List.forall_mem_nil _⟩⟩
  exact ⟨huser, hmember, (hbroken.2.2 [] _ _ _ _ rfl (by decide) hmember hback rfl (by decide)).1⟩

/-- The name on the second line is taken for a head of its own. -/
theorem not_ofText?_expressionBefore_joined :
    AccessChain.ofText? (expressionBefore ";user.profile.".toList (unitLength ";user.profile.".toList)) =
        some ⟨"user", [.member "profile" false]⟩ ∧
      AccessChain.ofText? (expressionBefore ";user\n  .profile.".toList (unitLength ";user\n  .profile.".toList)) =
        some ⟨"profile", []⟩ := by
  decide +kernel

end Typeahead
