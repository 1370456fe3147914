/-
# The attributes that are offered in a tag

The names of the attributes that a tag has already are read off its text without regard to its
values: every word behind the tag is a name, up to an `=`. A value with blanks in it is several
words, and what it holds behind its first blank is taken for names too. A mark in a value between
two other marks is counted as one that opens or closes a value, and an odd number of them hides that
the cursor is behind all values. But for these two an attribute is offered exactly if the tag may
have it and does not have it yet.

Key definitions: `WrittenAttribute`, `TagText`, `MarksPaired`, `WrittenAttribute.laterNames`.
Key theorems: `words_append_blank`, `TagText.words_eq`, `mem_attributeItems`, `attribute_offered_iff`.
-/
import Typeahead.Proofs.Chain.Written
import Typeahead.Proofs.Completion.Entries

namespace Typeahead

open Text Completion

/-! ### Words -/

namespace Text

theorem wordsFrom_append_blank {c : Char} (hc : isBlank c = true) (rest : List Char) : ∀ (text word : List Char),
    wordsFrom word (text ++ c :: rest) = wordsFrom word text ++ words rest
  | [], word => by
    rw [List.nil_append, wordsFrom.eq_2, if_pos hc, wordsFrom, words]
    split <;> simp
  | d :: text, word => by
    rw [List.cons_append, wordsFrom, wordsFrom, wordsFrom_append_blank hc rest text [],
      wordsFrom_append_blank hc rest text (d :: word)]
    split
    · split <;> rfl
    · rfl

/-- **Words are parted by blanks.** -/
theorem words_append_blank {c : Char} (hc : isBlank c = true) (text rest : List Char) :
    words (text ++ c :: rest) = words text ++ words rest := wordsFrom_append_blank hc rest text []

/-- No word goes on over a blank at the end of a text. -/
theorem words_append {text : List Char} (h : ∀ c ∈ text.getLast?, isBlank c = true) (rest : List Char) :
    words (text ++ rest) = words text ++ words rest := by
  rcases List.eq_nil_or_concat text with rfl | ⟨front, c, rfl⟩
  · rfl
  · have hc : isBlank c = true := h c (by simp)
    have hfront : words (front ++ [c]) = words front ++ words [] := words_append_blank hc front []
    rw [List.concat_eq_append, List.append_assoc, List.singleton_append, words_append_blank hc, hfront]
    simp [words, wordsFrom]

theorem wordsFrom_of_no_blank : ∀ {text : List Char} (word : List Char), (∀ c ∈ text, isBlank c = false) →
    text ≠ [] ∨ word ≠ [] → wordsFrom word text = [word.reverse ++ text]
  | [], word, _, h => by
    have hword : word ≠ [] := h.resolve_left (absurd rfl)
    rw [wordsFrom, if_neg (by simpa using hword), List.append_nil]
  | c :: text, word, hblank, _ => by
    have hrest : ∀ d ∈ text, isBlank d = false := fun d hd => hblank d (List.mem_cons_of_mem _ hd)
    rw [wordsFrom, if_neg (by simp [hblank c List.mem_cons_self]),
      wordsFrom_of_no_blank (c :: word) hrest (.inr (List.cons_ne_nil _ _))]
    simp

/-- A text without blanks is one word. -/
theorem words_of_no_blank {text : List Char} (hblank : ∀ c ∈ text, isBlank c = false) (hne : text ≠ []) :
    words text = [text] := wordsFrom_of_no_blank [] hblank (.inl hne)

/-- The first word of a text goes to its first blank. -/
theorem words_of_head {front : List Char} (hblank : ∀ c ∈ front, isBlank c = false) (hne : front ≠ [])
    (rest : List Char) : words (front ++ rest) =
      (front ++ rest.takeWhile (!isBlank ·)) :: words (rest.dropWhile (!isBlank ·)) := by
  have hword : words (front ++ rest.takeWhile (!isBlank ·)) = [front ++ rest.takeWhile (!isBlank ·)] := by
    refine words_of_no_blank (fun c hc => ?_) (List.append_ne_nil_of_left_ne_nil hne _)
    rcases List.mem_append.1 hc with hc | hc
    · exact hblank c hc
    · simpa using List.all_eq_true.1 List.all_takeWhile c hc
  conv_lhs => rw [← @List.takeWhile_append_dropWhile _ (!isBlank ·) rest, ← List.append_assoc]
  cases hdrop : rest.dropWhile (!isBlank ·) with
  | nil => rw [List.append_nil, hword]; rfl
  | cons c more =>
    have hc : isBlank c = true := by
      have := List.head?_dropWhile_not (fun c => !isBlank c) rest
      rw [hdrop] at this
      simpa using this
    have hmore : words (c :: more) = words more := words_append_blank hc [] more
    rw [words_append_blank hc, hword, hmore]
    rfl

theorem lastIndexOf?_of_not_mem {c : Char} : ∀ {text : List Char}, c ∉ text → lastIndexOf? [c] text = none
  | [], _ => rfl
  | d :: text, h => by
    rw [List.mem_cons, not_or] at h
    rw [lastIndexOf?, lastIndexOf?_of_not_mem h.2, if_neg (by simpa using h.1)]

theorem lastIndexOf?_append {c : Char} {rest : List Char} (h : c ∉ rest) : ∀ front : List Char,
    lastIndexOf? [c] (front ++ c :: rest) = some front.length
  | [] => by rw [List.nil_append, lastIndexOf?, lastIndexOf?_of_not_mem h, if_pos (by simp)]; rfl
  | d :: front => by rw [List.cons_append, lastIndexOf?, lastIndexOf?_append h front]; rfl

end Text

namespace Completion

theorem afterLast?_append {c : Char} {rest : List Char} (h : c ∉ rest) (front : List Char) :
    afterLast? c (front ++ c :: rest) = some rest := by
  rw [afterLast?, lastIndexOf?_append h, Option.map_some, ← List.drop_drop, List.drop_left]
  rfl

end Completion

/-! ### Tags as they are written -/

namespace Html

/-- The marks that a value may stand between. -/
def valueMarks : List Char := ['\x22', '\x27']

/-- An attribute as it is written: a name, alone or with a value between two marks. -/
inductive Attribute where
  | bare (name : List Char)
  | quoted (name : List Char) (mark : Char) (value : List Char)

/-- The name of an attribute. -/
def IsAttributeName (name : List Char) : Prop :=
  name ≠ [] ∧ ∀ c ∈ name, isBlank c = false ∧ c ∉ '<' :: '>' :: '=' :: valueMarks

/-- The name of a tag. -/
structure IsTagName (tag : List Char) : Prop where
  ne_nil : tag ≠ []
  not_declaration : tag.head? ≠ some '!'
  chars : ∀ c ∈ tag, isBlank c = false ∧ c ∉ '<' :: '>' :: valueMarks

/-- Some blanks, and at least one. -/
def IsSpacing (space : List Char) : Prop := space ≠ [] ∧ ∀ c ∈ space, isBlank c = true

namespace Attribute

/-- The name. -/
def name : Attribute → List Char
  | bare name | quoted name _ _ => name

/-- The value, if there is one. -/
def value : Attribute → List Char
  | bare _ => []
  | quoted _ _ value => value

/-- The text of an attribute. -/
def text : Attribute → List Char
  | bare name => name
  | quoted name mark value => (name ++ ['=', mark]) ++ (value ++ [mark])

/-- An attribute as it may be written: the value holds neither its own mark nor what ends a tag. -/
inductive IsWritten : Attribute → Prop where
  | bare {name} : IsAttributeName name → IsWritten (bare name)
  | quoted {name mark value} : IsAttributeName name → mark ∈ valueMarks → (∀ c ∈ value, c ∉ ['<', '>', mark]) →
      IsWritten (quoted name mark value)

/-- What the words of a value behind its first blank would name. -/
def laterNames : Attribute → List String
  | bare _ => []
  | quoted _ mark value => presentNames (words ((value ++ [mark]).dropWhile (!isBlank ·)))

end Attribute

/-- The text of a tag behind `<`, up to where one more attribute may be written. -/
inductive TagText (tag : List Char) : List Attribute → List Char → Prop where
  | first {space} : IsSpacing space → TagText tag [] (tag ++ space)
  | more {attributes text a space} : TagText tag attributes text → a.IsWritten → IsSpacing space →
      TagText tag (attributes ++ [a]) (text ++ (a.text ++ space))

/-- Of each mark the values together hold an even number. -/
def MarksPaired (attributes : List Attribute) : Prop :=
  ∀ mark ∈ valueMarks, (attributes.flatMap Attribute.value).count mark % 2 = 0

instance (attributes : List Attribute) : Decidable (MarksPaired attributes) :=
  inferInstanceAs (Decidable (∀ mark ∈ valueMarks, _))

/-! ### What is read of a tag -/

variable {tag text : List Char} {attributes : List Attribute} {a : Attribute}

theorem Attribute.IsWritten.not_angle (h : a.IsWritten) : ∀ c ∈ a.text, c ∉ ['<', '>'] := by
  have hname : ∀ {name : List Char}, IsAttributeName name → ∀ c ∈ name, c ∉ ['<', '>'] := fun h c hc =>
    fun hmem => (h.2 c hc).2 (List.mem_append_left _ hmem)
  cases h with
  | bare h => exact hname h
  | @quoted name mark value h hmark hvalue =>
    have hmarks : ∀ c ∈ '=' :: valueMarks, c ∉ ['<', '>'] := by decide
    intro c hc
    simp only [Attribute.text, List.mem_append, List.mem_cons, List.not_mem_nil, or_false] at hc
    rcases hc with (hc | rfl | rfl) | hc | rfl
    · exact hname h c hc
    · exact hmarks _ List.mem_cons_self
    · exact hmarks _ (List.mem_cons_of_mem _ hmark)
    · exact fun hmem => hvalue c hc (List.mem_append_left [mark] hmem)
    · exact hmarks _ (List.mem_cons_of_mem _ hmark)

/-- A value is in two marks of its own, and holds any others. -/
theorem Attribute.IsWritten.count (h : a.IsWritten) {mark : Char} (hmark : mark ∈ valueMarks) :
    a.text.count mark % 2 = a.value.count mark % 2 := by
  have hname : ∀ {name : List Char}, IsAttributeName name → name.count mark = 0 := fun h =>
    List.count_eq_zero.2 fun hmem => (h.2 mark hmem).2 (List.mem_append_right ['<', '>', '='] hmark)
  have heq : mark ≠ '=' := by
    rintro rfl
    exact absurd hmark (by decide)
  cases h with
  | bare h => simp [Attribute.text, Attribute.value, hname h]
  | @quoted name own value h hown hvalue =>
    simp only [Attribute.text, Attribute.value, List.count_append, hname h, List.count_cons, List.count_nil,
      beq_iff_eq, heq.symm, if_false]
    split <;> omega

theorem beforeFirst_name {name : List Char} (h : IsAttributeName name) (rest : List Char) :
    beforeFirst '=' (name ++ '=' :: rest) = name ∧ beforeFirst '=' name = name := by
  have hname : ∀ c ∈ name, (c != '=') = true := by
    intro c hc
    have := (h.2 c hc).2
    simp only [List.mem_cons, not_or] at this
    simp [this.2.2.1]
  refine ⟨?_, ?_⟩
  · rw [beforeFirst, List.takeWhile_append_of_pos hname, List.takeWhile_cons_of_neg (by simp), List.append_nil]
  · have hwhole : (name ++ []).takeWhile (· != '=') = name ++ [].takeWhile (· != '=') :=
      List.takeWhile_append_of_pos hname
    rwa [List.append_nil, List.takeWhile_nil, List.append_nil] at hwhole

/-- The words of an attribute are its name and what looks like names in its value. -/
theorem Attribute.IsWritten.presentNames (h : a.IsWritten) :
    presentNames (words a.text) = String.ofList a.name :: a.laterNames := by
  cases h with
  | bare h =>
    rw [Attribute.text, words_of_no_blank (fun c hc => (h.2 c hc).1) h.1]
    simp [Completion.presentNames, (beforeFirst_name h []).2, Attribute.name, Attribute.laterNames]
  | @quoted name mark value h hmark hvalue =>
    have hmarks : ∀ c ∈ '=' :: valueMarks, isBlank c = false := by decide
    have hfront : ∀ c ∈ name ++ ['=', mark], isBlank c = false := by
      intro c hc
      simp only [List.mem_append, List.mem_cons, List.not_mem_nil, or_false] at hc
      rcases hc with hc | rfl | rfl
      · exact (h.2 c hc).1
      · exact hmarks _ List.mem_cons_self
      · exact hmarks _ (List.mem_cons_of_mem _ hmark)
    rw [Attribute.text, words_of_head hfront (by simp), Completion.presentNames, List.map_cons, List.append_assoc,
      List.cons_append, (beforeFirst_name h _).1]
    rfl

theorem IsSpacing.words_append {space : List Char} (h : IsSpacing space) (text : List Char) :
    words (text ++ space) = words text := by
  have hblank : ∀ {space : List Char}, (∀ c ∈ space, isBlank c = true) → words space = [] := by
    intro space
    induction space with
    | nil => exact fun _ => rfl
    | cons c space ih =>
      intro h
      have hwords : words (c :: space) = words space := words_append_blank (h c List.mem_cons_self) [] space
      rw [hwords, ih fun d hd => h d (List.mem_cons_of_mem _ hd)]
  obtain ⟨hne, hspace⟩ := h
  cases space with
  | nil => exact absurd rfl hne
  | cons c space => rw [words_append_blank (hspace c List.mem_cons_self),
      hblank fun d hd => hspace d (List.mem_cons_of_mem _ hd), List.append_nil]

theorem IsSpacing.not_special {space : List Char} (h : IsSpacing space) :
    ∀ c ∈ space, c ∉ '<' :: '>' :: '=' :: valueMarks := by
  have hspecial : ∀ c ∈ '<' :: '>' :: '=' :: valueMarks, isBlank c = false := by decide
  intro c hc hmem
  have := h.2 c hc
  rw [hspecial c hmem] at this
  cases this

theorem IsSpacing.getLast?_append {space : List Char} (h : IsSpacing space) (text : List Char) :
    ∃ c, (text ++ space).getLast? = some c ∧ isBlank c = true := by
  refine ⟨space.getLast h.1, ?_, h.2 _ (List.getLast_mem h.1)⟩
  rw [List.getLast?_append, List.getLast?_eq_some_getLast h.1]
  rfl

namespace TagText

variable (htag : IsTagName tag)

theorem getLast?_blank (h : TagText tag attributes text) : ∃ c, text.getLast? = some c ∧ isBlank c = true := by
  cases h with
  | first hspace => exact hspace.getLast?_append tag
  | @more attributes text a space _ _ hspace =>
    rw [← List.append_assoc]
    exact hspace.getLast?_append _

theorem head? (h : TagText tag attributes text) (hne : tag ≠ []) : text.head? = tag.head? := by
  have hhead : ∀ rest : List Char, (tag ++ rest).head? = tag.head? := fun rest => by
    rw [List.head?_append, List.head?_eq_some_head hne]
    rfl
  have hfront : ∃ rest, text = tag ++ rest := by
    induction h with
    | first => exact ⟨_, rfl⟩
    | more _ _ _ ih =>
      obtain ⟨rest, rfl⟩ := ih
      exact ⟨_, List.append_assoc ..⟩
  obtain ⟨rest, rfl⟩ := hfront
  exact hhead rest

include htag

theorem not_angle (h : TagText tag attributes text) : ∀ c ∈ text, c ∉ ['<', '>'] := by
  have hspace' : ∀ {space : List Char}, IsSpacing space → ∀ c ∈ space, c ∉ ['<', '>'] := fun hspace c hc hmem =>
    hspace.not_special c hc (List.mem_append_left _ hmem)
  induction h with
  | first hspace =>
    exact List.forall_mem_append.2
      ⟨fun c hc hmem => (htag.chars c hc).2 (List.mem_append_left _ hmem), hspace' hspace⟩
  | more _ ha hspace ih =>
    exact List.forall_mem_append.2 ⟨ih, List.forall_mem_append.2 ⟨ha.not_angle, hspace' hspace⟩⟩

/-- In the text of a tag there are as many marks as in its values, but for an even number. -/
theorem count (h : TagText tag attributes text) {mark : Char} (hmark : mark ∈ valueMarks) :
    text.count mark % 2 = (attributes.flatMap Attribute.value).count mark % 2 := by
  have hspace' : ∀ {space : List Char}, IsSpacing space → space.count mark = 0 := fun hspace =>
    List.count_eq_zero.2 fun hmem => hspace.not_special mark hmem (List.mem_append_right ['<', '>', '='] hmark)
  induction h with
  | first hspace =>
    have hname : tag.count mark = 0 :=
      List.count_eq_zero.2 fun hmem => (htag.chars mark hmem).2 (List.mem_append_right ['<', '>'] hmark)
    rw [List.count_append, hname, hspace' hspace]
    rfl
  | more _ ha hspace ih =>
    rw [List.count_append, List.count_append, hspace' hspace, List.flatMap_append, List.count_append,
      List.flatMap_singleton, Nat.add_zero, Nat.add_mod, ih, ha.count hmark, ← Nat.add_mod]

/-- **The words of a tag** are its name, and then the names of its attributes and what looks like names
in their values. -/
theorem words_eq (h : TagText tag attributes text) : ∃ parts, words text = tag :: parts ∧
    presentNames parts = attributes.flatMap fun a => String.ofList a.name :: a.laterNames := by
  induction h with
  | first hspace =>
    refine ⟨[], ?_, rfl⟩
    rw [hspace.words_append, words_of_no_blank (fun c hc => (htag.chars c hc).1) htag.ne_nil]
  | @more attributes text a space h ha hspace ih =>
    obtain ⟨parts, hwords, hnames⟩ := ih
    obtain ⟨c, hlast, hc⟩ := h.getLast?_blank
    refine ⟨parts ++ words a.text, ?_, ?_⟩
    · rw [words_append (by simp [hlast, hc]), hwords, hspace.words_append]
      rfl
    · rw [List.flatMap_append, List.flatMap_singleton, ← hnames, ← ha.presentNames, presentNames, presentNames,
        presentNames, List.map_append]

end TagText

/-! ### What is offered -/

theorem mem_distinctNames {name : String} : ∀ {others names : List String},
    name ∈ distinctNames others names ↔ name ∈ names ∧ name ∉ others
  | _, [] => by simp [distinctNames]
  | others, first :: names => by
    rw [distinctNames]
    split
    · rename_i hfirst
      rw [mem_distinctNames, List.mem_cons]
      grind
    · rename_i hfirst
      rw [List.mem_cons, mem_distinctNames, List.mem_cons, List.mem_cons]
      grind

/-- The attributes that are not present are those of the tag or of all tags, but for the others. -/
theorem mem_attributeItems {tag name : String} {present : List String} :
    name ∈ (attributeItems tag present).map (·.label) ↔
      (name ∈ tagAttributes tag ∨ name ∈ globalAttributes) ∧ name ∉ present := by
  have hlabels : ∀ order (names : List String), (names.map (attributeItem order)).map (·.label) = names :=
    fun order names => by
      rw [List.map_map]
      exact List.map_id names
  rw [attributeItems, List.map_append, hlabels, hlabels, List.mem_append, mem_distinctNames, mem_distinctNames,
    List.mem_append, mem_distinctNames]
  tauto

/-- In a tag attributes are offered unless a mark is left over. -/
theorem TagText.mem_inTag (htag : IsTagName tag) (h : TagText tag attributes text) (name : String) :
    name ∈ (inTag text).map (·.label) ↔ MarksPaired attributes ∧
      (name ∈ tagAttributes (String.ofList tag) ∨ name ∈ globalAttributes) ∧
      ∀ a ∈ attributes, String.ofList a.name ≠ name ∧ name ∉ a.laterNames := by
  obtain ⟨c, hlast, hc⟩ := h.getLast?_blank
  obtain ⟨parts, hwords, hnames⟩ := h.words_eq htag
  have hany : text.any isBlank = true := List.any_eq_true.2 ⟨c, List.mem_of_getLast? hlast, hc⟩
  have hequals : c ≠ '=' := by
    rintro rfl
    exact absurd hc (by decide)
  have hvalue : inValue text = true ↔ ¬ MarksPaired attributes := by
    have hmarks : MarksPaired attributes ↔ text.count '\x22' % 2 = 0 ∧ text.count '\x27' % 2 = 0 := by
      rw [h.count htag (by decide), h.count htag (by decide)]
      simp [MarksPaired, valueMarks]
    rw [inValue, hlast, hmarks]
    simp only [Bool.or_eq_true, beq_iff_eq, Option.some.injEq, hequals, false_or]
    omega
  rw [inTag, hany, hwords]
  by_cases hpaired : MarksPaired attributes
  · have : inValue text = false := by
      by_contra hin
      exact hvalue.1 (by simpa using hin) hpaired
    rw [this]
    simp only [Bool.not_true, Bool.false_eq_true, if_false, hpaired, true_and, mem_attributeItems, hnames,
      List.mem_flatMap, List.mem_cons, not_exists, not_and, not_or]
    grind
  · rw [hvalue.2 hpaired]
    simp [hpaired]

theorem splitWord_of_blank {language : Language} {text : List Char} {c : Char} (hlast : text.getLast? = some c)
    (hc : isBlank c = true) : splitWord language text = (text, []) := by
  have hpart : isIdentifierPart c = false := by
    by_contra hpart
    rw [not_isBlank_of_isIdentifierPart (Bool.of_not_eq_false hpart)] at hc
    cases hc
  have hword : isWordChar language c = false := by
    have hmark : c ≠ '-' := by
      rintro rfl
      cases hc
    simp only [isIdentifierPart, Bool.or_eq_false_iff, beq_eq_false_iff_ne] at hpart
    rw [isWordChar]
    split <;> simp [isIdentifierPart, hpart, hmark]
  obtain ⟨front, rfl⟩ := List.getLast?_eq_some_iff.1 hlast
  rw [splitWord, List.reverse_concat]
  simp [hword]

/-- Behind a tag what is offered is what its text tells, however much of it is there already and
whatever was accepted. -/
theorem TagText.mem_labels {options : CompletionOptions} (hall : options.maxResults = 0) (recent : RecencyTracker)
    (front behind : List Char) (htag : IsTagName tag) (h : TagText tag attributes text) (name : String) :
    name ∈ (complete options recent (front ++ '<' :: text ++ behind) .html
      (unitLength (front ++ '<' :: text))).entries.map (·.label) ↔ name ∈ (inTag text).map (·.label) := by
  obtain ⟨c, hlast, hc⟩ := h.getLast?_blank
  have hlast' : (front ++ '<' :: text).getLast? = some c := by
    rw [List.getLast?_append, List.getLast?_cons, hlast]
    rfl
  have hangle : '<' ∉ text := fun hmem => h.not_angle htag _ hmem (by decide)
  have hangle' : '>' ∉ text := fun hmem => h.not_angle htag _ hmem (by decide)
  have hhead : text.head? ≠ some '!' := h.head? htag.ne_nil ▸ htag.not_declaration
  let d := Document.ofText (front ++ '<' :: text ++ behind) .html
  have hoffset : min (unitLength (front ++ '<' :: text)) d.length = unitLength (front ++ '<' :: text) := by
    refine Nat.min_eq_left ?_
    rw [show d.length = unitLength (front ++ '<' :: text ++ behind) from rfl, unitLength_append (front ++ '<' :: text)]
    exact Nat.le_add_right _ _
  have hword : splitWord d.language (takeUnits (unitLength (front ++ '<' :: text)) d.text) =
      (front ++ '<' :: text, []) := by
    rw [show d.text = front ++ '<' :: text ++ behind from rfl, takeUnits_unitLength_append]
    exact splitWord_of_blank hlast' hc
  have hresult : inHtml (front ++ '<' :: text) (String.ofList []) =
      { language := .html, typed := String.ofList [], isGlobal := true, entries := inTag text } := by
    rw [inHtml, afterLast?_append hangle]
    simp [hangle', hhead]
  have hentries : (complete options recent (front ++ '<' :: text ++ behind) .html
      (unitLength (front ++ '<' :: text))).entries = rank options recent [] (inTag text) := by
    rw [complete, Document.complete, hoffset, hword]
    exact congrArg (fun result : CompletionResult => rank options recent [] result.entries) hresult
  -- every label starts with the empty word
  have hmatch : (inTag text).filter (fun item => (matchTier? options [] item.label.toList).isSome) = inTag text :=
    List.filter_eq_self.2 fun item _ => by simp [matchTier?]
  have hperm : (rank options recent [] (inTag text)).Perm _ := perm_rank hall (inTag text)
  rw [hentries, (hperm.map _).mem_iff, hmatch]

end Html

open Html

/-- **An attribute is offered in a tag exactly if the tag may have it and does not have it yet**, where
no value has an odd mark and no words of a value are taken for names. -/
theorem attribute_offered_iff {options : CompletionOptions} (hall : options.maxResults = 0) (recent : RecencyTracker)
    (front behind : List Char) {tag text : List Char} {attributes : List Attribute} (htag : IsTagName tag)
    (h : TagText tag attributes text) (name : String) :
    name ∈ (complete options recent (front ++ '<' :: text ++ behind) .html
      (unitLength (front ++ '<' :: text))).entries.map (·.label) ↔
        MarksPaired attributes ∧ (name ∈ tagAttributes (String.ofList tag) ∨ name ∈ globalAttributes) ∧
          ∀ a ∈ attributes, String.ofList a.name ≠ name ∧ name ∉ a.laterNames := by
  rw [h.mem_labels hall recent front behind htag, h.mem_inTag htag]

/-- One attribute of a tag is there, and one is not. -/
theorem attribute_offered_href :
    let labels := (complete { maxResults := 0 } (.empty 32) "<a href=\x22/\x22 ".toList .html 12).entries.map (·.label)
    TagText "a".toList [.quoted "href".toList '\x22' "/".toList] "a href=\x22/\x22 ".toList ∧
      "rel" ∈ labels ∧ "href" ∉ labels := by
  intro labels
  have hname : IsAttributeName "href".toList := ⟨by decide, by decide⟩
  have hspace : IsSpacing [' '] := ⟨by decide, by decide⟩
  have htext : TagText "a".toList [.quoted "href".toList '\x22' "/".toList] "a href=\x22/\x22 ".toList :=
    .more (.first hspace) (.quoted hname (by decide) (by decide)) hspace
  have htag : IsTagName "a".toList := ⟨by decide, by decide, by decide⟩
  have hall : ({ maxResults := 0 } : CompletionOptions).maxResults = 0 := rfl
  have hoffered := attribute_offered_iff hall (.empty 32) [] [] htag htext
  refine ⟨htext, (hoffered "rel").2 ⟨by decide, .inl (by decide +kernel), by decide +kernel⟩, fun h => ?_⟩
  exact (((hoffered "href").1 h).2.2 _ (List.mem_singleton_self _)).1 rfl

/-- An apostrophe in a value hides all attributes, and a word in it the attribute of its name. -/
theorem not_offered_behind_values : "href" ∈ tagAttributes "a" ∧ ∀ value ∈ ["it's".toList, "x href y".toList],
    ∃ text, TagText "a".toList [.quoted "title".toList '\x22' value] text ∧
      "href" ∉ (complete { maxResults := 0 } (.empty 32) ('<' :: text) .html (unitLength ('<' :: text))).entries.map
        (·.label) := by
  have hname : IsAttributeName "title".toList := ⟨by decide, by decide⟩
  have hspace : IsSpacing [' '] := ⟨by decide, by decide⟩
  have htag : IsTagName "a".toList := ⟨by decide, by decide, by decide⟩
  have hnone : ∀ value ∈ ["it's".toList, "x href y".toList],
      let written := (Attribute.quoted "title".toList '\x22' value).text
      "href" ∉ (inTag ("a".toList ++ [' '] ++ (written ++ [' ']))).map (·.label) := by
    decide +kernel
  refine ⟨by decide +kernel, fun value hvalue => ?_⟩
  have htext : TagText "a".toList [.quoted "title".toList '\x22' value] _ :=
    .more (.first hspace) (.quoted hname (by decide) (by revert value; decide)) hspace
  have hall : ({ maxResults := 0 } : CompletionOptions).maxResults = 0 := rfl
  have hlabels := htext.mem_labels hall (.empty 32) [] [] htag "href"
  rw [List.nil_append, List.append_nil] at hlabels
  exact ⟨_, htext, fun h => hnone value hvalue (hlabels.1 h)⟩

end Typeahead
