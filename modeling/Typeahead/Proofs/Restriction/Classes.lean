/-
# Classes under the restriction on `in`

The brackets of a class do not keep the restriction out: its superclass, the values of its fields and the
statements of its static blocks are read under it. All else in a class is read without it, so a class is the
same if these parts are.

Key definitions: `ClassPart`, `LeakyClass`.
Key theorem: `agrees_classParts`.
-/
import Typeahead.Proofs.Restriction.Agreement

namespace Typeahead

open Parse Grammar

variable {g : Grammar} {levels : Nat} {s t : ParserState}

/-! ### The parts of a class -/

namespace Grammar

/-- What stands in a class in front of its superclass: its name, if it has one. -/
def classHead : Parse (Option String) := do
  let _ ← expectKind (.keyword .classWord)
  if (← get).atBindingName then some <$> bindingName else pure none

/-- The superclass of a class, if it has one. -/
def superclass? (g : Grammar) : Parse (Option Node) := do
  if ← nextIf (·.atKeyword .extendsWord) then some <$> g .leftHandSide else pure none

/-- No element is left. -/
def endsElements (s : ParserState) : Bool := s.atMark .closeBrace || s.atEnd

/-- A class after its superclass. -/
def classBody (g : Grammar) (name : Option String) (superclass : Option Node) : Parse (ClassParts Node) := do
  let bodyStart ← offset
  let _ ← expect .openBrace
  let members ← collectUntil endsElements (listedElement g)
  let stop ← closeBrace
  return { name, superclass, members, bodyRange := ⟨bodyStart, stop⟩ }

theorem classParts_eq (g : Grammar) : classParts g false = (do
    let name ← classHead
    let superclass ← superclass? g
    classBody g name superclass) := by
  simp only [classParts, classHead, superclass?, bind_assoc, Bool.false_or]
  refine bind_congr fun _ => bind_congr fun s => ?_
  split <;> exact bind_congr fun _ => bind_congr fun extends? => by cases extends? <;> rfl

/-- What stands in a class in front of its elements. -/
def classOpening (g : Grammar) : Parse Token := do
  let _ ← classHead
  let _ ← superclass? g
  expect .openBrace

/-- The access modifiers of a class element. -/
def accessModifiers : Parse (List Unit) :=
  collectUntil (!atAccessModifier ·) do
    let _ ← next
    return some ()

/-- What stands in front of the value of a field; its name. -/
def fieldHead (g : Grammar) : Parse String := do
  let _ ← accessModifiers
  let _ ← nextIf fun s => s.atKeyword .staticWord && modifiesKey s
  let isAsync ← nextIf fun s =>
    s.atKeyword .asyncWord && modifiesKey s && !s.following.afterLineBreak
  let isGenerator ← nextMark .asterisk
  let _ ← accessorKind isAsync isGenerator
  elementName g

end Grammar

/-- A part of a class that begins here which is read under the restriction, and where the part begins. -/
inductive ClassPart (levels : Nat) (s : ParserState) : Parse Node → ParserState → Prop where
  | superclass {name : Option String} {t : ParserState} :
      classHead { s with noIn := true } = .ok name { t with noIn := true } → t.atKeyword .extendsWord = true →
      ClassPart levels s (parseLevel levels .leftHandSide) t.advance
  | value {brace : Token} {key : String} {t u v : ParserState} :
      classOpening (parseLevel levels) { s with noIn := true } = .ok brace { t with noIn := true } →
      Repeats endsElements (listedElement (parseLevel levels)) { t with noIn := true } { u with noIn := true } →
      fieldHead (parseLevel levels) { u with noIn := true } = .ok key { v with noIn := true } →
      v.atMark .equals = true → ClassPart levels s (parseLevel levels .assignment) v.advance
  | staticBlock {brace : Token} {modifiers : List Unit} {t u v : ParserState} :
      classOpening (parseLevel levels) { s with noIn := true } = .ok brace { t with noIn := true } →
      Repeats endsElements (listedElement (parseLevel levels)) { t with noIn := true } { u with noIn := true } →
      accessModifiers { u with noIn := true } = .ok modifiers { v with noIn := true } →
      v.atKeyword .staticWord = true → v.following.kind = .punct .openBrace →
      ClassPart levels s (block (parseLevel levels)) v.advance

/-- A class begins here with a part that is not the same under the restriction: a static block; or a superclass
or the value of a field that ends in front of an `in`, or in which another such class is read. -/
inductive LeakyClass : Nat → ParserState → Prop where
  | block {levels : Nat} {s t : ParserState} : ClassPart levels s (block (parseLevel levels)) t →
      ¬ Agrees (Grammar.block (parseLevel levels)) t → LeakyClass levels s
  | stops {levels : Nat} {s t : ParserState} {x : Parse Node} : ClassPart levels s x t → ¬ Agrees x t →
      StopsAtIn x t → LeakyClass levels s
  | inner {levels below : Nat} {s t c : ParserState} {x : Parse Node} : ClassPart levels s x t → ¬ Agrees x t →
      t.Ahead c → GetsTo c x t → LeakyClass below c → LeakyClass levels s

theorem kind_of_classHead {name : Option String} {noIn : Bool} (h : classHead { s with noIn } = .ok name t) :
    s.kind = .keyword .classWord := by
  obtain ⟨_, u, hu, -⟩ := bind_ok.1 h
  exact (expectKind_ok hu).1

theorem ClassPart.kind {x : Parse Node} (h : ClassPart levels s x t) : s.kind = .keyword .classWord := by
  cases h with
  | superclass hhead => exact kind_of_classHead hhead
  | value hopening | staticBlock hopening =>
    obtain ⟨_, _, hhead, -⟩ := bind_ok.1 hopening
    exact kind_of_classHead hhead

theorem LeakyClass.kind (h : LeakyClass levels s) : s.kind = .keyword .classWord := by
  cases h with
  | block hpart | stops hpart | inner hpart => exact hpart.kind

/-! ### Elements -/

theorem agrees_accessModifiers : Agrees accessModifiers s :=
  .collectUntil (fun _ _ => rfl) fun _ _ => .next (.pure _)

theorem agrees_elementFrom {start : Nat} {isStatic isAsync isGenerator : Bool}
    (hvalue : ∀ {kind : MethodKind} {key : String} {t u : ParserState},
      accessorKind isAsync isGenerator { s with noIn := true } = .ok kind t →
      elementName (parseLevel levels) t = .ok key { u with noIn := true } → u.atMark .equals = true →
      Agrees (parseLevel levels .assignment) u.advance) :
    Agrees (elementFrom (parseLevel levels) start isStatic isAsync isGenerator) s := by
  have hfield : ∀ key (value : Option Node) (t : ParserState), Agrees (do
      semicolon
      finish start (.fieldMember key value isStatic)) t := fun _ _ _ => Agrees.semicolon.bind fun _ _ _ => .finish _ _
  refine ((IsParseFunction.accessorKind _ _).agrees levels (.accessorKind _ _)).bind fun kind t hkind => ?_
  refine (IsParseFunction.elementName.agrees _ (.elementName _)).bind fun key u hkey => ?_
  refine .look (fun _ => rfl) ?_
  split
  · exact .offset (((IsParseFunction.functionRest _ _).agrees _ (.functionRest _ _ _)).bind fun _ _ _ => .pure _)
  · refine .branch (fun _ => rfl) (fun hequals => ?_) fun _ => hfield _ _ _
    exact (hvalue hkind hkey hequals).map.bind fun _ _ _ => hfield _ _ _

theorem agrees_classElement
    (hvalue : ∀ {key : String} {t : ParserState},
      fieldHead (parseLevel levels) { s with noIn := true } = .ok key { t with noIn := true } →
      t.atMark .equals = true → Agrees (parseLevel levels .assignment) t.advance)
    (hblock : ∀ {modifiers : List Unit} {t : ParserState},
      accessModifiers { s with noIn := true } = .ok modifiers { t with noIn := true } →
      t.atKeyword .staticWord = true → t.following.kind = .punct .openBrace →
      Agrees (block (parseLevel levels)) t.advance) :
    Agrees (classElement (parseLevel levels)) s := by
  refine .offset (agrees_accessModifiers.bind fun _ t hmodifiers => .look (fun _ => rfl) ?_)
  split
  · rename_i hstatic
    rw [Bool.and_eq_true] at hstatic
    exact .next ((hblock hmodifiers hstatic.1 (beq_iff_eq.1 hstatic.2)).bind fun _ _ _ => .pure _)
  · refine (Agrees.nextIf fun _ _ => rfl).bind fun isStatic u hstatic => ?_
    refine (Agrees.nextIf fun _ _ => rfl).bind fun isAsync v hasync => ?_
    refine (Agrees.nextIf fun _ _ => rfl).bind fun isGenerator w hgenerator => ?_
    refine (agrees_elementFrom fun {kind key x y} hkind hkey hequals => ?_).bind fun _ _ _ => .pure _
    have hhead : fieldHead (parseLevel levels) { s with noIn := true } = .ok key { y with noIn := true } :=
      calc fieldHead (parseLevel levels) { s with noIn := true }
        _ = _ := bind_of_ok hmodifiers
        _ = _ := bind_of_ok hstatic
        _ = _ := bind_of_ok hasync
        _ = _ := bind_of_ok hgenerator
        _ = _ := bind_of_ok hkind
        _ = _ := hkey
    exact hvalue hhead hequals

theorem skipRest_withNoIn (noIn : Bool) : ∀ rounds braces (s : ParserState),
    skipRest rounds braces { s with noIn } = { skipRest rounds braces s with noIn }
  | 0, _, _ => rfl
  | rounds + 1, braces, s => by
    have ih : ∀ braces, skipRest rounds braces (ParserState.advance { s with noIn }) =
      { skipRest rounds braces s.advance with noIn } := fun braces => skipRest_withNoIn noIn rounds braces s.advance
    have hend : ParserState.atEnd { s with noIn } = s.atEnd := rfl
    have hmark : ∀ mark, ParserState.atMark { s with noIn } mark = s.atMark mark := fun _ => rfl
    have hcurrent : ParserState.current { s with noIn } = s.current := rfl
    simp only [skipRest, ih, hend, hmark, hcurrent]
    split_ifs <;> rfl

theorem skipElement_withNoIn (noIn : Bool) (start : Nat) (s : ParserState) :
    skipElement start { s with noIn } = { skipElement start s with noIn } := by
  rw [skipElement, skipElement]
  have hposition : ParserState.position { s with noIn } = s.position := rfl
  rw [hposition]
  split
  · exact skipRest_withNoIn noIn _ _ s.advance
  · exact skipRest_withNoIn noIn _ _ s

theorem agrees_listedElement (h : Agrees (classElement g) s) : Agrees (listedElement g) s := by
  by_cases hmark : s.atMark .semicolon = true
  · exact (Agrees.pure none).of_run s.follows_advance.ahead fun _ => listedElement_of_semicolon hmark
  have hmark := Bool.eq_false_iff.2 hmark
  cases h with
  | ok ht hfalse htrue =>
    exact .ok ht (listedElement_of_ok (s := { s with noIn := false }) hmark hfalse)
      (listedElement_of_ok (s := { s with noIn := true }) hmark htrue)
  | @error e t ht hfalse htrue =>
    have hrun : ∀ noIn, classElement g { s with noIn } = .error e { t with noIn } →
        listedElement g { s with noIn } = if t.recovering then
          .ok none { skipElement s.position (t.report e) with noIn } else .error e { t with noIn } := by
      intro noIn h
      rw [listedElement_of_error (s := { s with noIn }) hmark h, ← skipElement_withNoIn]
      rfl
    have hfalse := hrun false hfalse
    have htrue := hrun true htrue
    split at hfalse
    · rw [if_pos ‹_›] at htrue
      have hreport : t.Ahead (t.report e) := .of_stream rfl
      exact .ok (t := skipElement s.position (t.report e))
        ((ht.trans hreport).trans (follows_skipElement _ _).ahead) hfalse htrue
    · rw [if_neg ‹_›] at htrue
      exact .error ht hfalse htrue

/-! ### Classes -/

theorem agrees_classHead : Agrees classHead s := by
  refine (Agrees.expectKind _).bind fun _ t _ => .look (fun _ => rfl) ?_
  split
  · exact Agrees.bindingName.map
  · exact .pure _

theorem agrees_superclass? (h : s.atKeyword .extendsWord = true → Agrees (parseLevel levels .leftHandSide) s.advance) :
    Agrees (superclass? (parseLevel levels)) s :=
  .branch (fun _ => rfl) (fun hword => (h hword).map) fun _ => .pure _

/-- **A class is the same under the restriction if its parts are** that are read under it. -/
theorem agrees_classParts (h : ∀ x t, ClassPart levels s x t → Agrees x t) :
    Agrees (classParts (parseLevel levels) false) s := by
  rw [classParts_eq]
  refine agrees_classHead.bind fun name t hhead => ?_
  refine (agrees_superclass? fun hword => h _ _ (.superclass hhead hword)).bind fun superclass u hsuperclass => ?_
  refine .offset ((Agrees.expectKind _).bind fun brace v hbrace => ?_)
  have hopening : classOpening (parseLevel levels) { s with noIn := true } = .ok brace { v with noIn := true } :=
    calc classOpening (parseLevel levels) { s with noIn := true }
      _ = _ := bind_of_ok hhead
      _ = _ := bind_of_ok hsuperclass
      _ = _ := hbrace
  refine (Agrees.collectUntil (fun _ _ => rfl) fun w hw => agrees_listedElement (agrees_classElement ?_ ?_)).bind
    fun members w hw => ?_
  · exact fun hfield hequals => h _ _ (.value hopening hw hfield hequals)
  · exact fun hmodifiers hword hbrace => h _ _ (.staticBlock hopening hw hmodifiers hword hbrace)
  · exact (IsParseFunction.closeBrace.agrees levels .closeBrace).bind fun _ _ _ => .pure _

end Typeahead
