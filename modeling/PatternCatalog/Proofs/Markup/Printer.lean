/-
  PatternCatalog.Proofs.Markup.Printer — a printed example is read back as it was.

  An example can be printed when its names can be read as names, and its numbers are whole ones
  below 2^53 in magnitude (`Module.Printable`); strings are any. Reading takes a printed piece
  off the front of a text and leaves what follows it, piece by piece:
  - `attributeValue_text`: a value in its braces, where a string may hold braces and quotes.
  - `element_text`: an element that nests no deeper than the limit, with all its children.
  - `importDeclaration_text`: an import of any form.
  - `parse_print`: so the whole text is read as the example it was printed from.
-/

import PatternCatalog.Markup.Parser
import PatternCatalog.Proofs.Binary64
import PatternCatalog.Proofs.Markup.Group

namespace PatternCatalog.Markup

open Text

/-! ## Printable examples -/

/-- Whether a value is a whole number below 2^53 in magnitude, if it is a number. -/
def PrintableValue (value : Option LiteralValue) : Prop :=
  ∀ x, value = some (.number x) → ∃ negative n, n < 2 ^ 53 ∧ x = .ofRatio negative n 1

def isAttributeName (s : String) : Bool := s.toList != [] && s.toList.all isAttributeChar

structure Attribute.Printable (a : Attribute) : Prop where
  name : isAttributeName a.name = true
  value : PrintableValue a.value

/-- A tag is a name, or one in a namespace. -/
inductive PrintableTag : List String → Prop
  | single {name : String} (h : isName name = true) : PrintableTag [name]
  | member {space name : String} (hspace : isName space = true) (h : isName name = true) : PrintableTag [space, name]

inductive Node.Printable : Node → Prop
  | mk {tag : List String} {as : List Attribute} {cs : List Node} (htag : PrintableTag tag)
      (has : ∀ a ∈ as, a.Printable) (hcs : ∀ c ∈ cs, c.Printable) : Printable ⟨tag, as, cs⟩

structure Import.Printable (i : Import) : Prop where
  name : isName i.name = true
  named : ∀ name, i.imported = .named name → isName name = true ∧ name ≠ "default"

structure Module.Printable (m : Module) : Prop where
  imports : ∀ i ∈ m.imports, i.Printable
  root : m.root.Printable

mutual

/-- How deep elements nest, counted from one. -/
def Node.depth : Node → Nat
  | ⟨_, _, cs⟩ => depthOf cs + 1

def depthOf : List Node → Nat
  | [] => 0
  | c :: cs => max c.depth (depthOf cs)

end

/-- Pieces that are not empty are no more than their characters. -/
theorem length_le_flatMap {α : Type} {text : α → List Char} (h : ∀ a, 0 < (text a).length) (as : List α) :
    as.length ≤ (as.flatMap text).length := by
  induction as with
  | nil => exact Nat.le_refl 0
  | cons a as ih =>
    rw [List.flatMap_cons, List.length_append, List.length_cons, Nat.add_comm]
    exact Nat.add_le_add (h a) ih

/-! ## Values -/

theorem numberText_whole (negative : Bool) {n : Nat} (hn : n < 2 ^ 53) :
    numberText (.ofRatio negative n 1) = if negative then '-' :: Binary64.digitText n else Binary64.digitText n := by
  obtain ⟨m, e, hfinite, hvalue⟩ := Binary64.ratio_ofRatio negative hn
  rw [hfinite]
  simp only [numberText]
  rw [hvalue]

theorem isPlain_of_digit {c : Char} (h : c.isDigit = true) : isPlain c = true := by
  obtain ⟨d, hd, rfl⟩ := Binary64.exists_digit h
  revert d
  decide

theorem numberText_plain (negative : Bool) {n : Nat} (hn : n < 2 ^ 53) :
    ∀ c ∈ numberText (.ofRatio negative n 1), isPlain c = true := by
  obtain ⟨-, -, hdigits⟩ := Binary64.digitText_spec n
  rw [numberText_whole negative hn]
  cases negative with
  | false => exact fun c hc => isPlain_of_digit (hdigits c hc)
  | true =>
    intro c hc
    rcases List.mem_cons.mp hc with rfl | hc
    · decide
    · exact isPlain_of_digit (hdigits c hc)

/-- A written value is a string, or has no quote, brace or blank. -/
theorem valueText_cases {v : Option LiteralValue} (h : PrintableValue v) :
    (∃ s, valueText v = quoted s) ∨ ∀ c ∈ valueText v, isPlain c = true := by
  rcases v with _ | b | x | s
  · exact .inr (List.all_eq_true.mp (by decide))
  · exact .inr (List.all_eq_true.mp (by cases b <;> decide))
  · obtain ⟨negative, n, hn, rfl⟩ := h x rfl
    exact .inr (numberText_plain negative hn)
  · exact .inl ⟨s, rfl⟩

theorem balanced_quoted (s : String) : Balanced (quoted s) := balanced_written escaped_escape s.toList

theorem IsClear.of_isPlain {c : Char} (h : isPlain c = true) : IsClear c := by
  simp only [isPlain, Bool.and_eq_true, Bool.not_eq_true', bne_iff_ne] at h
  exact ⟨h.1.1.1, h.1.1.2, h.1.2⟩

theorem balanced_valueText {v : Option LiteralValue} (h : PrintableValue v) : Balanced (valueText v) := by
  rcases valueText_cases h with ⟨s, hs⟩ | hplain
  · rw [hs]
    exact balanced_quoted s
  · exact balanced_clear fun c hc => .of_isPlain (hplain c hc)

theorem trim_valueText {v : Option LiteralValue} (h : PrintableValue v) : trim (valueText v) = valueText v := by
  rcases valueText_cases h with ⟨s, hs⟩ | hplain
  · rw [hs, trim_quoted]
  · exact trim_plain hplain

/-- What starts with a quote is no number. -/
theorem read?_quote (r : List Char) : Binary64.read? ('"' :: r) = none := by
  rw [Binary64.read?_unsigned (by decide)]
  simp [Binary64.readMagnitude?]

theorem literalExpression?_number (negative : Bool) {n : Nat} (hn : n < 2 ^ 53) :
    literalExpression? (numberText (.ofRatio negative n 1)) = some (.number (.ofRatio negative n 1)) := by
  obtain ⟨m, e, hfinite, -⟩ := Binary64.ratio_ofRatio negative hn
  have hread : Binary64.read? (numberText (.ofRatio negative n 1)) = some (.ofRatio negative n 1) := by
    rw [numberText_whole negative hn, Binary64.read?_digits negative hn]
  have hword : ∀ w, Binary64.read? w = none → numberText (.ofRatio negative n 1) ≠ w := by
    rintro w hw rfl
    rw [hread] at hw
    cases hw
  unfold literalExpression?
  rw [if_neg (hword _ (by decide)), if_neg (hword _ (by decide)), hread, hfinite]
  rfl

/-- A string literal is read as a string, as its characters are written. -/
theorem literalExpression?_written {w : Char → List Char} (hw : ∀ c, Escaped c (w c)) (s : List Char) :
    literalExpression? ('"' :: s.flatMap w ++ ['"']) = some (.string (String.ofList (s.flatMap fun c => unescaped (w c)))) := by
  have hword : ∀ v : List Char, v.head? ≠ some '"' → '"' :: s.flatMap w ++ ['"'] ≠ v := by
    rintro v hv rfl
    exact hv rfl
  have hbody := stringBody?_written hw [] s []
  rw [List.reverse_nil, List.nil_append] at hbody
  unfold literalExpression?
  rw [if_neg (hword _ (by decide)), if_neg (hword _ (by decide)), List.cons_append, read?_quote]
  simp [stringExpression?, isQuote, hbody]

theorem literalExpression?_quoted (s : String) : literalExpression? (quoted s) = some (.string s) := by
  have hwritten := literalExpression?_written escaped_escape s.toList
  simp only [unescaped_escape, List.flatMap_singleton', String.ofList_toList] at hwritten
  exact hwritten

theorem literalExpression?_valueText {v : Option LiteralValue} (h : PrintableValue v) : literalExpression? (valueText v) = v := by
  rcases v with _ | b | x | s
  · decide
  · cases b <;> decide
  · obtain ⟨negative, n, hn, rfl⟩ := h x rfl
    exact literalExpression?_number negative hn
  · exact literalExpression?_quoted s

theorem attributeValue_text {v : Option LiteralValue} (h : PrintableValue v) (r : List Char) :
    attributeValue ('\x7b' :: (valueText v ++ '\x7d' :: r)) = .ok (v, r) := by
  have hgroup : groupBody 0 none [] (valueText v ++ '\x7d' :: r) = .ok (valueText v, r) :=
    groupBody_iff.mpr ⟨balanced_valueText h, rfl⟩
  unfold attributeValue
  rw [skipTrivia_here _ (by decide) (by decide)]
  simp [hgroup, trim_valueText h, literalExpression?_valueText h, ok_bind, pure, Except.pure]

/-! ## Attributes -/

theorem isAttributeChar_not_blank {c : Char} (h : isAttributeChar c = true) : isBlank c = false := by
  unfold isAttributeChar at h
  simp only [Bool.or_eq_true, beq_iff_eq] at h
  rcases h with (h | rfl) | rfl
  · exact isNamePart_not_blank h
  · decide
  · decide

theorem isAttributeName_iff {s : String} : isAttributeName s = true ↔ s.toList ≠ [] ∧ ∀ c ∈ s.toList, isAttributeChar c = true := by
  rw [isAttributeName, Bool.and_eq_true, bne_iff_ne, List.all_eq_true]

theorem attributeName_name {s : String} (h : isAttributeName s = true) {r : List Char} (hr : Ends isAttributeChar r) :
    attributeName (s.toList ++ r) = .ok (s, r) := by
  obtain ⟨hne, hchars⟩ := isAttributeName_iff.mp h
  unfold attributeName
  dsimp only
  rw [takeWhile_run hchars hr, dropWhile_run hchars hr, if_neg hne, String.ofList_toList]

/-- One attribute of a tag is read, and then the others. -/
theorem attributes_cons {a : Attribute} (h : a.Printable) (fuel : Nat) {s r : List Char} {as : List Attribute}
    (hrest : attributes fuel s = .ok (as, r)) : attributes (fuel + 1) (attributeText a ++ s) = .ok (a :: as, r) := by
  obtain ⟨hne, hchars⟩ := isAttributeName_iff.mp h.name
  obtain ⟨c, cs, hname⟩ := List.exists_cons_of_ne_nil hne
  have hc := hchars c (hname ▸ List.mem_cons_self)
  have htext := attributeName_name h.name (ends_cons (by decide) ('\x7b' :: (valueText a.value ++ '\x7d' :: s)) : Ends _ ('=' :: _))
  have hvalue := attributeValue_text h.value s
  have hend : ¬ (c = '/' ∨ c = '>') := not_or.mpr ⟨ne_of_class hc (by decide), ne_of_class hc (by decide)⟩
  have hspread : c ≠ '\x7b' := ne_of_class hc (by decide)
  have heq : ∀ r, skipTrivia ('=' :: r) = '=' :: r := fun r => skipTrivia_here r (by decide) (by decide)
  have heat : ∀ r, eat? "=" ('=' :: r) = some r := fun r => by simp [eat?, dropStart?]
  rw [hname, List.cons_append] at htext
  simp only [attributeText, List.cons_append, List.append_assoc, List.nil_append, hname]
  unfold attributes
  rw [skipTrivia_space, skipTrivia_here _ (isAttributeChar_not_blank hc) (ne_of_class hc (by decide))]
  dsimp only
  rw [if_neg hend, if_neg hspread]
  simp only [htext, heq, heat, hvalue, hrest, ok_bind, pure, Except.pure]

theorem attributes_text {as : List Attribute} (h : ∀ a ∈ as, a.Printable) {fuel : Nat} (hfuel : as.length ≤ fuel)
    (r : List Char) : attributes (fuel + 1) (attributesText as ++ '>' :: r) = .ok (as, '>' :: r) := by
  induction as generalizing fuel with
  | nil =>
    unfold attributes
    rw [attributesText, List.flatMap_nil, List.nil_append, skipTrivia_here _ (by decide) (by decide)]
    rfl
  | cons a as ih =>
    cases fuel with
    | zero => cases hfuel
    | succ fuel =>
      have hrest := ih (fun b hb => h b (List.mem_cons_of_mem _ hb)) (Nat.le_of_succ_le_succ hfuel)
      rw [attributesText, List.flatMap_cons, List.append_assoc]
      exact attributes_cons (h a List.mem_cons_self) _ hrest

/-! ## Tags -/

theorem tagName_text {tag : List String} (h : PrintableTag tag) {r : List Char} (hr : Ends isNamePart r)
    (hdot : r.head? ≠ some '.') : tagName (tagNameText tag ++ r) = .ok (tag, r) := by
  have hnone : eat? "." r = none := eat?_of_head (by decide) hdot
  cases h with
  | single hname => simp only [tagNameText, tagName, identifier_name hname hr, hnone, ok_bind, pure, Except.pure]
  | @member space name hspace hname =>
    have hends : Ends isNamePart ('.' :: (name.toList ++ r)) := ends_cons (by decide) _
    have heat : eat? "." ('.' :: (name.toList ++ r)) = some (name.toList ++ r) := eat?_append "." _
    simp only [tagNameText, tagName, List.append_assoc, List.cons_append, identifier_name hspace hends, heat,
      identifier_name hname hr, ok_bind, pure, Except.pure]

/-- What follows the tag in an opening one. -/
theorem attributesText_head (as : List Attribute) (r : List Char) :
    ∃ c t, attributesText as ++ '>' :: r = c :: t ∧ (c = ' ' ∨ c = '>') := by
  cases as with
  | nil => exact ⟨_, _, rfl, .inr rfl⟩
  | cons a as => exact ⟨_, _, rfl, .inl rfl⟩

/-! ## Elements -/

theorem tagNameText_head {tag : List String} (h : PrintableTag tag) :
    ∃ name r, tagNameText tag = name.toList ++ r ∧ isName name = true := by
  cases h with
  | @single name h => exact ⟨name, [], (List.append_nil _).symm, h⟩
  | @member space name hspace h => exact ⟨space, _, rfl, hspace⟩

/-- An element starts as no closing tag does. -/
theorem elementText_head {n : Node} (h : n.Printable) (r : List Char) :
    ∃ t, elementText n ++ r = '<' :: t ∧ t.head? ≠ some '/' := by
  cases h with
  | mk htag has hcs =>
    obtain ⟨name, rest, htext, hname⟩ := tagNameText_head htag
    simp only [elementText, List.cons_append, List.append_assoc, htext]
    exact ⟨_, rfl, name_head hname _ (by decide)⟩

theorem elementText_length (n : Node) : 0 < (elementText n).length := by
  obtain ⟨tag, as, cs⟩ := n
  simp [elementText]

theorem children_close (limit fuel depth : Nat) {tag : List String} (h : PrintableTag tag) (r : List Char) :
    children limit (fuel + 1) depth tag ('<' :: '/' :: (tagNameText tag ++ '>' :: r)) = .ok ([], r) := by
  have hends : Ends isNamePart ('>' :: r) := ends_cons (by decide) r
  have hname : tagName (tagNameText tag ++ '>' :: r) = .ok (tag, '>' :: r) := tagName_text h hends (by simp)
  have hclose : expect ">" "`>`" ('>' :: r) = .ok ((), r) := expect_mark (by decide) _ r
  unfold children
  simp [skipText, hname, hclose, ok_bind, pure, Except.pure]

/-- One child is read, and then the others up to the closing tag. -/
theorem children_cons {limit fuel depth : Nat} {tag : List String} {c : Node} {cs : List Node} {s r : List Char}
    (hc : c.Printable) (hfirst : element limit fuel (depth + 1) (elementText c ++ s) = .ok (c, s))
    (hrest : children limit fuel depth tag s = .ok (cs, r)) :
    children limit (fuel + 1) depth tag (elementText c ++ s) = .ok (c :: cs, r) := by
  obtain ⟨t, htext, hhead⟩ := elementText_head hc s
  rw [htext] at hfirst ⊢
  unfold children
  simp [skipText, hhead, hfirst, hrest, ok_bind, pure, Except.pure]

/-- An opening tag is read up to its end. -/
theorem opening_text {tag : List String} {as : List Attribute} (htag : PrintableTag tag) (has : ∀ a ∈ as, a.Printable)
    (r : List Char) :
    tagName (tagNameText tag ++ (attributesText as ++ '>' :: r)) = .ok (tag, attributesText as ++ '>' :: r) ∧
      attributes ((attributesText as ++ '>' :: r).length + 1) (attributesText as ++ '>' :: r) = .ok (as, '>' :: r) := by
  have hlength : as.length ≤ (attributesText as ++ '>' :: r).length := by
    rw [List.length_append]
    exact Nat.le_add_right_of_le (length_le_flatMap (fun a => by simp [attributeText]) as)
  obtain ⟨c, t, htext, hc⟩ := attributesText_head as r
  have hends : Ends isNamePart (c :: t) := ends_cons (by rcases hc with rfl | rfl <;> decide) t
  have hdot : (c :: t).head? ≠ some '.' := by rcases hc with rfl | rfl <;> simp
  refine ⟨?_, attributes_text has hlength r⟩
  rw [htext]
  exact tagName_text htag hends hdot

/-- An element is read when its children are. -/
theorem element_of_children {limit fuel depth : Nat} {tag : List String} {as : List Attribute} {cs : List Node} {r : List Char}
    (htag : PrintableTag tag) (has : ∀ a ∈ as, a.Printable) (hdepth : depth ≤ limit)
    (h : children limit fuel depth tag (childrenText cs ++ '<' :: '/' :: (tagNameText tag ++ '>' :: r)) = .ok (cs, r)) :
    element limit (fuel + 1) depth (elementText ⟨tag, as, cs⟩ ++ r) = .ok (⟨tag, as, cs⟩, r) := by
  obtain ⟨hname, hattributes⟩ := opening_text htag has (childrenText cs ++ '<' :: '/' :: (tagNameText tag ++ '>' :: r))
  have hopen : ∀ r, expect "<" "element" ('<' :: r) = .ok ((), r) := expect_mark (by decide) _
  have hclose : ∀ r, expect ">" "`>`" ('>' :: r) = .ok ((), r) := expect_mark (by decide) _
  have hskip : ∀ r, skipTrivia ('>' :: r) = '>' :: r := fun r => skipTrivia_here r (by decide) (by decide)
  have hnone : ∀ r, eat? "/>" ('>' :: r) = none := fun r => eat?_of_head (m := '/') (by decide) (by simp)
  unfold element
  rw [if_neg (Nat.not_lt.mpr hdepth)]
  simp only [elementText, List.cons_append, List.append_assoc, List.nil_append, hopen, hname, hattributes, hskip, hnone,
    hclose, h, ok_bind, pure, Except.pure]

mutual

theorem element_text {limit : Nat} :
    (n : Node) → n.Printable → ∀ {fuel depth : Nat}, (elementText n).length ≤ fuel → depth + n.depth ≤ limit + 1 →
      ∀ r, element limit fuel depth (elementText n ++ r) = .ok (n, r)
  | ⟨tag, as, cs⟩, .mk htag has hcs, 0, _, hfuel, _, r => by simp [elementText] at hfuel
  | ⟨tag, as, cs⟩, .mk htag has hcs, fuel + 1, depth, hfuel, hdepth, r => by
    rw [Node.depth] at hdepth
    simp only [elementText, List.length_cons, List.length_append] at hfuel
    exact element_of_children htag has (by omega) (children_text htag cs hcs (by omega) (by omega) r)

theorem children_text {limit : Nat} {tag : List String} (htag : PrintableTag tag) :
    (cs : List Node) → (∀ c ∈ cs, c.Printable) → ∀ {fuel depth : Nat}, (childrenText cs).length < fuel →
      depth + depthOf cs ≤ limit → ∀ r,
      children limit fuel depth tag (childrenText cs ++ '<' :: '/' :: (tagNameText tag ++ '>' :: r)) = .ok (cs, r)
  | [], _, fuel + 1, depth, _, _, r => children_close limit fuel depth htag r
  | c :: cs, hcs, fuel + 1, depth, hfuel, hdepth, r => by
    have hc := hcs c List.mem_cons_self
    -- A child takes one unit of the fuel from the others, and its text has at least one character.
    rw [depthOf] at hdepth
    rw [childrenText, List.length_append] at hfuel
    have hlength := elementText_length c
    rw [childrenText, List.append_assoc]
    refine children_cons hc (element_text c hc (by omega) (by omega) _) ?_
    exact children_text htag cs (fun d hd => hcs d (List.mem_cons_of_mem _ hd)) (by omega) (by omega) r

end

/-! ## Imports -/

theorem namedImports_text {name imported : String} (hname : isName name = true) (himported : isName imported = true) (fuel : Nat)
    (r : List Char) :
    namedImports (fuel + 1) (' ' :: (imported.toList ++ ' ' :: ("as".toList ++ ' ' :: (name.toList ++ ' ' :: '\x7d' :: r)))) =
      .ok ([(name, .ofName imported)], r) := by
  have hends : ∀ r, Ends isNamePart (' ' :: r) := ends_cons (by decide)
  have hmark : ∀ r, eat? "\x7d" (imported.toList ++ r) = none := fun r =>
    eat?_of_head (m := '\x7d') (by decide) (name_head himported r (by decide))
  have hword : ∀ r, eatKeyword? "as" ("as".toList ++ ' ' :: r) = some (' ' :: r) := fun r =>
    eatKeyword?_word (by decide) (hends r)
  have hskip : skipTrivia ('\x7d' :: r) = '\x7d' :: r := skipTrivia_here r (by decide) (by decide)
  have hcomma : eat? "," ('\x7d' :: r) = none := eat?_of_head (m := ',') (by decide) (by simp)
  have hclose : expect "\x7d" "`\x7d`" ('\x7d' :: r) = .ok ((), r) := expect_mark (by decide) _ r
  unfold namedImports
  simp only [skipTrivia_space, skipTrivia_name himported, hmark, identifier_name himported (hends _), eatKeyword?_space, hword,
    identifier_space, identifier_name hname (hends _), hskip, hcomma, hclose, ok_bind, pure, Except.pure]

theorem namespaceImport_text {name : String} (hname : isName name = true) {r : List Char} (hr : Ends isNamePart r) :
    namespaceImport (' ' :: ("as".toList ++ ' ' :: (name.toList ++ r))) = .ok ([(name, .namespace_)], r) := by
  have hword : ∀ r, expectKeyword "as" ("as".toList ++ ' ' :: r) = .ok ((), ' ' :: r) := fun r =>
    expectKeyword_word (by decide) (ends_cons (by decide) r)
  simp only [namespaceImport, expectKeyword_space, hword, identifier_space, identifier_name hname hr, ok_bind, pure, Except.pure]

/-- The bindings of an import are read up to the word before its source. -/
theorem importBindings_text {i : Import} (h : i.Printable) {r : List Char} (hr : Ends isNamePart r) :
    ∃ s, importBindings (bindingText i.name i.imported ++ ' ' :: ("from".toList ++ r)) = .ok ([(i.name, i.imported)], s) ∧
      expectKeyword "from" s = .ok ((), r) := by
  have hfrom : expectKeyword "from" ("from".toList ++ r) = .ok ((), r) := expectKeyword_word (by decide) hr
  have hends : ∀ r, Ends isNamePart (' ' :: r) := ends_cons (by decide)
  have hno : ∀ {mark m name}, mark.toList.head? = some m → isNamePart m = false → isName name = true →
      ∀ r, eat? mark (name.toList ++ r) = none := fun hmark hm hname r => eat?_of_head hmark (name_head hname r hm)
  obtain ⟨name, source, imported⟩ := i
  obtain ⟨hname, hnamed⟩ := h
  cases imported with
  | default_ =>
    have hstar : ∀ {name}, isName name = true → ∀ r, eat? "*" (name.toList ++ r) = none := hno (m := '*') (by decide) (by decide)
    have hbrace : ∀ {name}, isName name = true → ∀ r, eat? "\x7b" (name.toList ++ r) = none :=
      hno (m := '\x7b') (by decide) (by decide)
    have hhead := name_head hname (' ' :: ("from".toList ++ r)) (d := '\x7b') (by decide)
    have hcomma : eat? "," ("from".toList ++ r) = none := hno (m := ',') (by decide) (by decide) (by decide) r
    have hgroup : bindingGroup ("from".toList ++ r) = .ok ([], "from".toList ++ r) := by
      unfold bindingGroup
      rw [hbrace (by decide), hstar (by decide)]
    refine ⟨_, ?_, hfrom⟩
    unfold importBindings
    simp only [bindingText, hstar hname, hhead, if_false, identifier_name hname (hends _), skipTrivia_space,
      skipTrivia_name (s := "from") (by decide), hcomma, hgroup, ok_bind, pure, Except.pure]
  | named imported =>
    obtain ⟨himported, hdefault⟩ := hnamed imported rfl
    have hstar : ∀ r, eat? "*" ('\x7b' :: r) = none := fun r => eat?_of_head (m := '*') (by decide) (by simp)
    have hbrace : ∀ r, eat? "\x7b" ('\x7b' :: r) = some r := eat?_append "\x7b"
    have hofName : Imported.ofName imported = .named imported := if_neg hdefault
    refine ⟨' ' :: ("from".toList ++ r), ?_, by rw [expectKeyword_space, hfrom]⟩
    unfold importBindings bindingGroup
    simp only [bindingText, List.cons_append, List.append_assoc, List.nil_append, hstar, hbrace, List.head?_cons, if_true,
      namedImports_text hname himported, hofName]
  | namespace_ =>
    have hstar : ∀ r, eat? "*" ('*' :: r) = some r := eat?_append "*"
    refine ⟨' ' :: ("from".toList ++ r), ?_, by rw [expectKeyword_space, hfrom]⟩
    unfold importBindings
    simp only [bindingText, List.cons_append, List.append_assoc, hstar, namespaceImport_text hname (hends _)]

/-- A binding starts as no source does. -/
theorem bindingText_head {i : Import} (h : i.Printable) (r : List Char) :
    ∃ c t, bindingText i.name i.imported ++ r = c :: t ∧ isBlank c = false ∧ c ≠ '/' ∧ c ≠ '"' ∧ c ≠ '\'' := by
  obtain ⟨name, source, imported⟩ := i
  cases imported with
  | default_ =>
    obtain ⟨c, cs, hname, hstart, -⟩ := isName_cons h.name
    have hc := isNamePart_of_isNameStart hstart
    refine ⟨c, cs ++ r, by rw [bindingText, hname, List.cons_append], isNamePart_not_blank hc, ?_⟩
    exact ⟨ne_of_class hc (by decide), ne_of_class hc (by decide), ne_of_class hc (by decide)⟩
  | named _ => exact ⟨'\x7b', _, rfl, by decide⟩
  | namespace_ => exact ⟨'*', _, rfl, by decide⟩

theorem importDeclaration_text {i : Import} (h : i.Printable) (r : List Char) :
    importDeclaration (importRest i ++ r) = .ok ([i], '\n' :: r) := by
  have hends : Ends isNamePart (' ' :: (quoted i.source ++ ';' :: '\n' :: r)) := ends_cons (by decide) _
  obtain ⟨s, hbindings, hfrom⟩ := importBindings_text h hends
  obtain ⟨c, t, htext, hblank, hslash, hdouble, hsingle⟩ :=
    bindingText_head h (' ' :: ("from".toList ++ ' ' :: (quoted i.source ++ ';' :: '\n' :: r)))
  have hsource : skipTrivia (' ' :: (quoted i.source ++ ';' :: '\n' :: r)) = quoted i.source ++ ';' :: '\n' :: r := by
    rw [skipTrivia_space, quoted]
    exact skipTrivia_here _ (by decide) (by decide)
  have hend : eatOptional ";" (skipTrivia (';' :: '\n' :: r)) = '\n' :: r := by
    rw [skipTrivia_here _ (by decide) (by decide)]
    exact eatOptional_mark ";" _
  have hskip : skipTrivia (c :: t) = c :: t := skipTrivia_here t hblank hslash
  have hquote : ¬ ((c :: t).head? = some '"' ∨ (c :: t).head? = some '\'') := by simp [hdouble, hsingle]
  rw [htext] at hbindings
  unfold importDeclaration
  simp only [importRest, List.cons_append, List.append_assoc, List.nil_append, skipTrivia_space, htext, hskip, hquote, if_false,
    hbindings, hfrom, hsource, stringLiteral_quoted, hend, ok_bind, pure, Except.pure]
  rfl

/-- One import is read, and then the others. -/
theorem imports_cons {i : Import} (h : i.Printable) {fuel : Nat} {s r : List Char} {is : List Import}
    (hrest : imports (fuel + 1) s = .ok (is, r)) : imports (fuel + 2) (importText i ++ s) = .ok (i :: is, r) := by
  have hends : Ends isNamePart (importRest i ++ s) := ends_cons (by decide) _
  have hword : eatKeyword? "import" ("import".toList ++ (importRest i ++ s)) = some (importRest i ++ s) :=
    eatKeyword?_word (by decide) hends
  have hfeed : imports (fuel + 1) ('\n' :: s) = imports (fuel + 1) s := by
    unfold imports
    rw [eatKeyword?_feed, skipTrivia_feed]
  rw [importText, List.append_assoc, imports, hword]
  dsimp only
  rw [importDeclaration_text h, ok_bind]
  dsimp only
  rw [hfeed, hrest]
  rfl

theorem imports_text {is : List Import} (h : ∀ i ∈ is, i.Printable) {fuel : Nat} (hfuel : is.length ≤ fuel) {r : List Char}
    (hr : eatKeyword? "import" r = none) : imports (fuel + 1) (is.flatMap importText ++ r) = .ok (is, skipTrivia r) := by
  induction is generalizing fuel with
  | nil => rw [List.flatMap_nil, List.nil_append, imports, hr]
  | cons i is ih =>
    cases fuel with
    | zero => cases hfuel
    | succ fuel =>
      rw [List.flatMap_cons, List.append_assoc]
      exact imports_cons (h i List.mem_cons_self)
        (ih (fun j hj => h j (List.mem_cons_of_mem _ hj)) (Nat.le_of_succ_le_succ hfuel))

/-! ## Modules -/

theorem elementExpression_text {n : Node} (h : n.Printable) {limit : Nat} (hdepth : n.depth ≤ limit) (fuel : Nat)
    (r : List Char) : elementExpression limit (fuel + 1) (elementText n ++ r) = .ok (n, r) := by
  have hlength : (elementText n).length ≤ (elementText n ++ r).length + 1 := by
    rw [List.length_append]
    omega
  have helement : element limit ((elementText n ++ r).length + 1) 1 (elementText n ++ r) = .ok (n, r) :=
    element_text n h hlength (by omega) r
  obtain ⟨t, htext, -⟩ := elementText_head h r
  have hskip : skipTrivia ('<' :: t) = '<' :: t := skipTrivia_here t (by decide) (by decide)
  have hparen : eat? "(" ('<' :: t) = none := eat?_of_head (m := '(') (by decide) (by simp)
  rw [htext] at helement ⊢
  unfold elementExpression
  simp only [hskip, hparen, helement]

theorem componentFunction_text {n : Node} (h : n.Printable) {limit : Nat} (hdepth : n.depth ≤ limit) (r : List Char) :
    componentFunction limit (' ' :: '(' :: ')' :: ' ' :: '=' :: '>' :: ' ' :: (elementText n ++ r)) = .ok (n, r) := by
  have hword : ∀ r, eatKeyword? "function" ('(' :: r) = none :=
    eatKeyword?_of_head (m := 'f') (by decide) (by decide) (by decide) (by decide)
  have hopen : ∀ r, expect "(" "`(`" ('(' :: r) = .ok ((), r) := expect_mark (by decide) _
  have hclose : ∀ r, expect ")" "argument-free function" (')' :: r) = .ok ((), r) := expect_mark (by decide) _
  have harrow : ∀ r, expect "=>" "`=>`" ('=' :: '>' :: r) = .ok ((), r) := expect_mark (by decide) _
  obtain ⟨t, htext, -⟩ := elementText_head h r
  have hskip : skipTrivia ('<' :: t) = '<' :: t := skipTrivia_here t (by decide) (by decide)
  have hbrace : eat? "\x7b" ('<' :: t) = none := eat?_of_head (m := '\x7b') (by decide) (by simp)
  have helement := elementExpression_text h hdepth ((elementText n ++ r).length) r
  rw [htext] at helement ⊢
  unfold componentFunction noArguments
  simp only [eatKeyword?_space, hword, expect_space, hopen, hclose, harrow, skipTrivia_space, hskip, hbrace, helement, ok_bind]

theorem module_text {m : Module} (h : m.Printable) {limit : Nat} (hdepth : m.root.depth ≤ limit) :
    module limit (moduleText m) = .ok m := by
  have hends : ∀ r, Ends isNamePart (' ' :: r) := ends_cons (by decide)
  have hlength : m.imports.length ≤ (moduleText m).length := by
    have himports : m.imports.length ≤ (m.imports.flatMap importText).length :=
      length_le_flatMap (fun i => by simp [importText, importRest]) m.imports
    simp only [moduleText, List.length_append]
    omega
  have himport : ∀ r, eatKeyword? "import" ("export".toList ++ r) = none := fun r =>
    eatKeyword?_of_head (m := 'i') (c := 'e') (by decide) (by decide) (by decide) (by decide) ("xport".toList ++ r)
  have hexport : ∀ r, expectKeyword "export" ("export".toList ++ ' ' :: r) = .ok ((), ' ' :: r) := fun r =>
    expectKeyword_word (by decide) (hends r)
  have hdefault : ∀ r, expectKeyword "default" ("default".toList ++ ' ' :: r) = .ok ((), ' ' :: r) := fun r =>
    expectKeyword_word (by decide) (hends r)
  have hend : skipTrivia (eatOptional ";" (skipTrivia [';'])) = [] := by
    rw [skipTrivia_here _ (by decide) (by decide)]
    exact congrArg skipTrivia (eatOptional_mark ";" [])
  have himports := fun r => imports_text h.imports hlength (himport r)
  have hskip : ∀ r, skipTrivia ("export".toList ++ r) = "export".toList ++ r := skipTrivia_name (by decide)
  have hroot := componentFunction_text h.root hdepth [';']
  unfold module
  simp only [moduleText, List.append_assoc, List.cons_append, List.nil_append] at himports ⊢
  simp only [himports, hskip, hexport, expectKeyword_space, hdefault, hroot, hend, if_true, ok_bind, pure, Except.pure]

/-- A printed example is read as the example it was printed from. -/
theorem parse_print {m : Module} {limit : Nat} (h : m.Printable) (hdepth : m.root.depth ≤ limit) :
    parse (print m) limit = .ok m := by
  unfold parse print
  dsimp only
  rw [String.toList_ofList, module_text h hdepth]
  rfl

/-- An example of every form; its title has a brace, a quote, a tag's end, a comment and a backslash in it. -/
def card : Module where
  imports := [⟨"Button", "./button", .default_⟩, ⟨"Glyph", "./icons", .named "Icon"⟩, ⟨"UI", "@acme/ui", .namespace_⟩]
  root :=
    ⟨["UI", "Card"],
      [⟨"title", some (.string "\x7d\"/>//\\")⟩, ⟨"data-size", some (.number (.ofRatio true 5 1))⟩,
        ⟨"open", some (.boolean true)⟩, ⟨"onClick", none⟩],
      [⟨["Button"], [], []⟩]⟩

theorem parse_print_card : card.Printable ∧ card.root.depth ≤ 2 ∧ parse (print card) 2 = .ok card := by
  have himports : ∀ i ∈ card.imports, i.Printable := by
    intro i hi
    simp only [card, List.mem_cons, List.not_mem_nil, or_false] at hi
    rcases hi with rfl | rfl | rfl
    · exact ⟨by decide, fun _ h => nomatch h⟩
    · exact ⟨by decide, fun name h => by cases h; decide⟩
    · exact ⟨by decide, fun _ h => nomatch h⟩
  have hattributes : ∀ a ∈ card.root.attributes, a.Printable := by
    intro a ha
    simp only [card, List.mem_cons, List.not_mem_nil, or_false] at ha
    rcases ha with rfl | rfl | rfl | rfl
    · exact ⟨by decide, fun _ h => nomatch h⟩
    · exact ⟨by decide, fun x h => ⟨true, 5, by decide, by cases h; rfl⟩⟩
    · exact ⟨by decide, fun _ h => nomatch h⟩
    · exact ⟨by decide, fun _ h => nomatch h⟩
  have hbutton : Node.Printable ⟨["Button"], [], []⟩ :=
    .mk (.single (by decide)) (fun _ h => nomatch h) (fun _ h => nomatch h)
  have hroot : card.root.Printable := by
    refine .mk (.member (by decide) (by decide)) hattributes fun c hc => ?_
    rw [List.mem_singleton.mp hc]
    exact hbutton
  have hdepth : card.root.depth ≤ 2 := by decide
  exact ⟨⟨himports, hroot⟩, hdepth, parse_print ⟨himports, hroot⟩ hdepth⟩

end PatternCatalog.Markup
