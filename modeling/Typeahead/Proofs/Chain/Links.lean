/-
# Optional links and line breaks in a chain

A chain may be written over several lines, with blanks in front of its separators, and each of its
links may be marked as optional.

Key definitions: `Link`, `Link.steps`, `Placed`, `placedText`, `placedSteps`, `chainOf?`.
-/
import Typeahead.Proofs.Chain.Written

namespace Typeahead

open Text Chain

/-- A link of a chain: a name, what stands between the brackets of an index, or the arguments of a
call. -/
inductive Link where
  | member (name : List Char)
  | index (text : List Char)
  | call (args : List Char)

namespace Link

/-- What is written in front of a link. -/
def mark (optional : Bool) : Link → List Char
  | member _ => if optional then ['?', '.'] else ['.']
  | _ => if optional then ['?', '.'] else []

/-- A link as it is written behind its mark. -/
def body : Link → List Char
  | member name => name
  | index text => '[' :: (text ++ [']'])
  | call args => '(' :: (args ++ [')'])

/-- A name has no other characters than names have, and in arguments and indexes brackets and strings
are closed. -/
def IsWritten : Link → Prop
  | member name => name ≠ [] ∧ ∀ c ∈ name, isIdentifierPart c = true
  | index text => Closed text
  | call args => Closed args

/-- The link is a call. -/
def isCall : Link → Bool
  | call _ => true
  | _ => false

/-- The link without arguments. -/
def bare : Link → Link
  | member name => member name
  | index text => index (withoutArguments text)
  | call _ => call []

/-- The steps that links are read as. A call right behind a name belongs to the step of the name. -/
def steps : List Link → List ChainStep
  | [] => []
  | member name :: call _ :: links => .member (String.ofList name) true :: steps links
  | member name :: links => .member (String.ofList name) false :: steps links
  | index text :: links => .index (String.ofList (trim text)) :: steps links
  | call _ :: links => .call :: steps links

end Link

/-- A link as it stands in a chain: whether it is marked as optional, and the blanks before it. -/
structure Placed where
  link : Link
  optional : Bool
  space : List Char

namespace Placed

/-- The link as it is written, the blanks before it included. -/
def text (p : Placed) : List Char := p.space ++ (p.link.mark p.optional ++ p.link.body)

/-- The link may be written so: blanks stand only in front of a `.` or `?.`. -/
structure IsWritten (p : Placed) : Prop where
  link : p.link.IsWritten
  blank : ∀ c ∈ p.space, isBlank c = true
  marked : p.space ≠ [] → p.link.mark p.optional ≠ []

/-- The link is written `?.(args)`. -/
def isOptionalCall (p : Placed) : Bool := p.optional && p.link.isCall

/-- The link without arguments. -/
def bare (p : Placed) : Placed := { p with link := p.link.bare }

/-- The link with no blanks before it. -/
def joined (p : Placed) : Placed := { p with space := [] }

/-- The link that is not optional, with no blanks before it. -/
def plain (p : Placed) : Placed := ⟨p.link, false, []⟩

end Placed

/-- The text of links, one after the other. -/
def placedText (placed : List Placed) : List Char := placed.flatMap Placed.text

/-- The steps that links are read as once they are without arguments. -/
def placedSteps (placed : List Placed) : List ChainStep := Link.steps (placed.map (·.bare.link))

/-- The chain that a head and links from it are read as: none if a call is optional, or if there are too
many steps and not all of them are calls of the head. -/
def chainOf? (head : List Char) (placed : List Placed) : Option AccessChain :=
  if placed.any Placed.isOptionalCall then none
  else if placed.all (·.link.isCall) ∨ (placedSteps placed).length ≤ stepLimit then
    some ⟨String.ofList head, placedSteps placed⟩
  else none

/-! ### Marks and blanks -/

/-- A link with no blanks before it. -/
theorem Placed.IsWritten.tight (link : Link) (optional : Bool) (h : link.IsWritten) :
    (⟨link, optional, []⟩ : Placed).IsWritten :=
  ⟨h, List.forall_mem_nil _, fun hne => absurd rfl hne⟩

/-- What links are read as depends on the links, and on whether a call is optional. -/
theorem chainOf?_congr (head : List Char) {a b : List Placed} (hlinks : a.map (·.link) = b.map (·.link))
    (hany : a.any Placed.isOptionalCall = b.any Placed.isOptionalCall) : chainOf? head a = chainOf? head b := by
  have hsteps : ∀ placed : List Placed, placedSteps placed = Link.steps ((placed.map (·.link)).map Link.bare) := by
    intro placed
    rw [placedSteps, List.map_map]
    rfl
  have hall : ∀ placed : List Placed, placed.all (·.link.isCall) = (placed.map (·.link)).all Link.isCall := by
    intro placed
    rw [List.all_map]
    rfl
  rw [chainOf?, chainOf?, hsteps a, hsteps b, hall a, hall b, hlinks, hany]

/-! ### Texts and steps -/

theorem Link.isDot_mark (optional : Bool) (name : List Char) : IsDot ((Link.member name).mark optional) := by
  cases optional <;> simp [IsDot, mark]

theorem Link.mark_index (optional : Bool) (text : List Char) :
    (Link.index text).mark optional = [] ∨ (Link.index text).mark optional = ['?', '.'] := by
  cases optional <;> simp [mark]

theorem placedText_cons (p : Placed) (placed : List Placed) : placedText (p :: placed) = p.text ++ placedText placed :=
  rfl

theorem placedText_append (a b : List Placed) : placedText (a ++ b) = placedText a ++ placedText b :=
  List.flatMap_append

/-- A name that no call stands behind is a step of its own. -/
theorem Link.steps_member (name : List Char) {links : List Link} (h : ∀ l ∈ links.head?, l.isCall = false) :
    steps (member name :: links) = .member (String.ofList name) false :: steps links := by
  cases links with
  | nil => rfl
  | cons link links =>
    cases link with
    | member | index => rfl
    | call args => cases h _ rfl

/-- The links that are calls, and are first, are steps each. -/
theorem placedSteps_calls (more : List Placed) : ∀ {calls : List Placed}, (∀ p ∈ calls, p.link.isCall = true) →
    placedSteps (calls ++ more) = List.replicate calls.length .call ++ placedSteps more
  | [], _ => rfl
  | ⟨.call _, _, _⟩ :: calls, h => by
    have ih := placedSteps_calls more fun p hp => h p (List.mem_cons_of_mem _ hp)
    rw [List.length_cons, List.replicate_succ, List.cons_append, List.cons_append, ← ih]
    rfl
  | ⟨.member _, _, _⟩ :: _, h | ⟨.index _, _, _⟩ :: _, h => by cases h _ List.mem_cons_self

/-- A name takes the calls behind it. -/
theorem placedSteps_member (name : List Char) (optional : Bool) (space : List Char) {calls more : List Placed}
    (hcalls : ∀ p ∈ calls, p.link.isCall = true) (hmore : ∀ p ∈ more.head?, p.link.isCall = false) :
    placedSteps (⟨.member name, optional, space⟩ :: (calls ++ more)) =
      .member (String.ofList name) (0 < calls.length) :: List.replicate (calls.length - 1) .call ++
        placedSteps more := by
  cases calls with
  | nil =>
    refine Link.steps_member name fun l hl => ?_
    cases more with
    | nil => cases hl
    | cons p more =>
      have hcall := hmore p rfl
      obtain ⟨link, _, _⟩ := p
      cases hl
      cases link <;> first | rfl | cases hcall
  | cons call calls =>
    have ih := placedSteps_calls more fun p hp => hcalls p (List.mem_cons_of_mem _ hp)
    have hfirst := hcalls call List.mem_cons_self
    obtain ⟨link, _, _⟩ := call
    cases link with
    | member | index => cases hfirst
    | call args =>
      rw [List.length_cons, Nat.add_sub_cancel, List.cons_append, List.cons_append, ← ih]
      simp [placedSteps, Placed.bare, Link.bare, Link.steps]

end Typeahead
