/-
  PatternCatalog.Proofs.Property.Literal — which option the text of a default stands for.

  A default names a member of an enum by its name, alone or behind the enum and a dot, with or
  without quotes around it (`Spelling`). The word in such a text ends in the name after its last dot
  (`Spelling.reference`), so the member fits, and of the others those that have the word for a label
  or a value. The first that fits is taken: the member is found exactly where no option before it
  goes by the word, or the first that does has the same id (`default_names_member_iff`).

  All spellings of a plain name are read as the name. Of other names:
  - `dotted_name_unread`: a name with a dot is never read, and the member is found by its label or
    its value or not at all.
  - `quoted_name_read`: blanks and quotes at the ends of a name are read in quotes.
  - `bare_name_read_iff`, `qualified_name_read_iff`: alone and behind an enum, blanks are cut off
    where they stand at an end of the text, and so are quotes around all of it.

  So a label or a value of an option before it takes the name of a member away, though the member
  has the name itself: `a_value_takes_a_name_away`.
-/

import Mathlib.Data.List.Find
import Mathlib.Data.List.Nodup
import PatternCatalog.Property.Literal
import PatternCatalog.Proofs.Text.Trim

namespace PatternCatalog.PropertyKind

open Text

/-! ## Names in the text of a default -/

/-- A name that is read as itself: it has no dot, no blank at an end, and no quote at the last. -/
structure PlainName (name : List Char) : Prop where
  no_dot : '.' ∉ name
  head : ∀ c ∈ name.head?, isBlank c = false
  last : ∀ c ∈ name.getLast?, isBlank c = false
  unquoted : ∀ c ∈ name.getLast?, c ≠ '"' ∧ c ≠ '\'' ∧ c ≠ '\x60'

/-- A name as a default refers to it, alone or behind an enum. -/
inductive Reference (name : List Char) : List Char → Prop
  | bare : Reference name name
  | qualified (enum : List Char) : Reference name (enum ++ '.' :: name)

/-- A reference as a default spells it, with or without quotes. -/
inductive Spelling (name : List Char) : List Char → Prop
  | plain {s} (h : Reference name s) : Spelling name s
  | quoted {q s} (hquote : q = '"' ∨ q = '\'' ∨ q = '\x60') (h : Reference name s) : Spelling name (q :: (s ++ [q]))

/-- Whether a text stands in a pair of equal quotes. -/
def InQuotes (s : List Char) : Prop := ∃ q inner, (q = '"' ∨ q = '\'' ∨ q = '\x60') ∧ s = q :: (inner ++ [q])

/-- The word in the text of a default: what is left of it without blanks and quotes around it. -/
def wordOf (text : String) : List Char := unquote (trim text.toList)

theorem dropEnd?_append (s tail : List Char) : dropEnd? (s ++ tail) tail = some s := by
  rw [dropEnd?, if_pos (List.isSuffixOf_iff_suffix.mpr (List.suffix_append s tail)), List.length_append,
    Nat.add_sub_cancel, List.take_left]

theorem unquote_quoted {q : Char} (hquote : q = '"' ∨ q = '\'' ∨ q = '\x60') (s : List Char) :
    unquote (q :: (s ++ [q])) = s := by
  rw [unquote, if_pos hquote, dropEnd?_append]
  rfl

theorem unquote_of_not_inQuotes {s : List Char} (h : ¬ InQuotes s) : unquote s = s := by
  cases s with
  | nil => rfl
  | cons q r =>
    rw [unquote]
    split
    · next hquote =>
      have hopen : ¬ [q].isSuffixOf r = true := by
        intro hclosed
        obtain ⟨inner, rfl⟩ := List.isSuffixOf_iff_suffix.mp hclosed
        exact h ⟨q, inner, hquote, rfl⟩
      rw [dropEnd?, if_neg hopen]
      rfl
    · rfl

theorem unquote_of_last {s : List Char} (h : ∀ c ∈ s.getLast?, c ≠ '"' ∧ c ≠ '\'' ∧ c ≠ '\x60') : unquote s = s := by
  refine unquote_of_not_inQuotes ?_
  rintro ⟨q, inner, hquote, rfl⟩
  obtain ⟨hdouble, hsingle, hback⟩ := h q (by rw [← List.cons_append, List.getLast?_concat]; rfl)
  rcases hquote with hquote | hquote | hquote
  · exact hdouble hquote
  · exact hsingle hquote
  · exact hback hquote

theorem trim_quoted {q : Char} (hquote : q = '"' ∨ q = '\'' ∨ q = '\x60') (s : List Char) :
    trim (q :: (s ++ [q])) = q :: (s ++ [q]) := by
  have hblank : isBlank q = false := by
    rcases hquote with rfl | rfl | rfl <;> decide
  refine trim_of_ends (fun c hc => Option.some.inj hc ▸ hblank) fun c hc => ?_
  rw [← List.cons_append, List.getLast?_concat] at hc
  exact Option.some.inj hc ▸ hblank

theorem lastSegment_append {name : List Char} (s : List Char) (h : '.' ∉ name) :
    lastSegment (s ++ name) = lastSegment s ++ name := by
  have hall : ∀ c ∈ name.reverse, (c != '.') = true := fun c hc =>
    bne_iff_ne.mpr fun hdot => h (hdot ▸ List.mem_reverse.mp hc)
  rw [lastSegment, List.reverse_append, List.takeWhile_append_of_pos hall, List.reverse_append, List.reverse_reverse]
  rfl

theorem lastSegment_dot (s : List Char) : lastSegment (s ++ ['.']) = [] := by
  rw [lastSegment, List.reverse_append]
  rfl

/-- What stands before the last dot of a reference is no part of the name. -/
theorem Reference.lastSegment_eq {name s : List Char} (h : Reference name s) (hname : '.' ∉ name) : lastSegment s = name := by
  cases h with
  | bare => exact lastSegment_append [] hname
  | qualified enum =>
    rw [← List.singleton_append, ← List.append_assoc, lastSegment_append _ hname, lastSegment_dot, List.nil_append]

theorem Reference.getLast? {name s : List Char} (h : Reference name s) :
    s.getLast? = name.getLast? ∨ s.getLast? = some '.' := by
  cases h with
  | bare => exact .inl rfl
  | qualified enum =>
    rw [List.getLast?_append, List.getLast?_cons]
    cases name.getLast? with
    | none => exact .inr rfl
    | some c => exact .inl rfl

/-- Without the blanks around it a reference refers to the same name. -/
theorem Reference.trim {name s : List Char} (h : Reference name s) (hname : PlainName name) : Reference name (trim s) := by
  cases h with
  | bare =>
    rw [trim_of_ends hname.head hname.last]
    exact .bare
  | qualified enum =>
    have hlast : ∀ c ∈ ('.' :: name).getLast?, isBlank c = false := by
      have hdot : Reference name ('.' :: name) := .qualified []
      rcases hdot.getLast? with hend | hend <;> rw [hend]
      · exact hname.last
      · exact fun c hc => Option.some.inj hc ▸ by decide
    rw [trim_append (List.cons_ne_nil _ _) (fun c hc => Option.some.inj hc ▸ by decide) hlast]
    exact .qualified (trimStart enum)

/-- A reference ends in no quote, so none is taken off. -/
theorem Reference.unquote {name s : List Char} (h : Reference name s) (hname : PlainName name) : unquote s = s := by
  refine unquote_of_last ?_
  rcases h.getLast? with hend | hend <;> rw [hend]
  · exact hname.unquoted
  · exact fun c hc => Option.some.inj hc ▸ by decide

/-- The word of a spelled name is a reference to it. -/
theorem Spelling.reference {name : List Char} {text : String} (h : Spelling name text.toList) (hname : PlainName name) :
    Reference name (wordOf text) := by
  unfold wordOf
  generalize text.toList = s at h
  cases h with
  | plain h =>
    have htrim := h.trim hname
    rwa [htrim.unquote hname]
  | quoted hquote h => rwa [trim_quoted hquote, unquote_quoted hquote]

/-! ## Names that are not plain -/

section Names

variable {name s : List Char}

theorem lastSegment_no_dot (s : List Char) : '.' ∉ lastSegment s := by
  intro hdot
  have hother := List.mem_rtakeWhile_imp (p := (· != '.')) (l := s) hdot
  exact bne_iff_ne.mp hother rfl

theorem lastSegment_sublist (s : List Char) : (lastSegment s).Sublist s := (List.rtakeWhile_suffix _ s).sublist

theorem unquote_sublist (s : List Char) : (unquote s).Sublist s := by
  by_cases h : InQuotes s
  · obtain ⟨q, inner, hquote, rfl⟩ := h
    rw [unquote_quoted hquote]
    exact (List.sublist_append_left inner [q]).cons q
  · rw [unquote_of_not_inQuotes h]

/-- Trimming takes the blanks at the end of a text from its last segment. -/
theorem lastSegment_trimEnd (s : List Char) : lastSegment (trimEnd s) ++ s.rtakeWhile isBlank = lastSegment s := by
  have hblanks : '.' ∉ s.rtakeWhile isBlank := fun hdot => absurd (List.mem_rtakeWhile_imp hdot) (by decide)
  rw [← lastSegment_append _ hblanks]
  exact congrArg lastSegment List.rdropWhile_append_rtakeWhile

/-- Taking quotes off takes the closing one from the last segment. -/
theorem lastSegment_unquote_lt (h : InQuotes s) : (lastSegment (unquote s)).length < (lastSegment s).length := by
  obtain ⟨q, inner, hquote, rfl⟩ := h
  have hdot : '.' ∉ [q] := by rcases hquote with rfl | rfl | rfl <;> decide
  obtain ⟨front, hfront⟩ := List.rtakeWhile_suffix (· != '.') inner
  have hinner : lastSegment (q :: inner) = lastSegment (q :: front) ++ lastSegment inner := by
    rw [← lastSegment_append _ (lastSegment_no_dot inner), List.cons_append]
    exact congrArg (fun r => lastSegment (q :: r)) hfront.symm
  rw [unquote_quoted hquote, ← List.cons_append, lastSegment_append _ hdot, hinner, List.length_append, List.length_append]
  exact Nat.lt_succ_of_le (Nat.le_add_left _ _)

/-- What is taken off the end of a text is missing in its last segment. -/
theorem lastSegment_cleaned_iff (s : List Char) :
    lastSegment (unquote (trimEnd s)) = lastSegment s ↔ trimEnd s = s ∧ ¬ InQuotes s := by
  constructor
  · intro h
    have htrim := lastSegment_trimEnd s
    have hopen : ¬ InQuotes (trimEnd s) := by
      intro hquotes
      have hlt := lastSegment_unquote_lt hquotes
      rw [h, ← htrim, List.length_append] at hlt
      omega
    rw [unquote_of_not_inQuotes hopen] at h
    rw [h, List.append_right_eq_self] at htrim
    have hself : trimEnd s = s := by
      conv_rhs => rw [← List.rdropWhile_append_rtakeWhile (p := isBlank) (l := s), htrim, List.append_nil]
      rfl
    exact ⟨hself, hself ▸ hopen⟩
  · rintro ⟨htrim, hquotes⟩
    rw [htrim, unquote_of_not_inQuotes hquotes]

/-- In quotes a name without a dot is read as it stands. -/
theorem quoted_name_read {q : Char} (hquote : q = '"' ∨ q = '\'' ∨ q = '\x60') (h : Reference name s) (hname : '.' ∉ name) :
    lastSegment (wordOf (String.ofList (q :: (s ++ [q])))) = name := by
  rw [wordOf, String.toList_ofList, trim_quoted hquote, unquote_quoted hquote, h.lastSegment_eq hname]

/-- Alone it is read just when it has no blank at an end, and no quotes around it. -/
theorem bare_name_read_iff (hname : '.' ∉ name) : lastSegment (wordOf (String.ofList name)) = name ↔
    (∀ c ∈ name.head?, isBlank c = false) ∧ (∀ c ∈ name.getLast?, isBlank c = false) ∧ ¬ InQuotes name := by
  have hsegment : lastSegment name = name := Reference.bare.lastSegment_eq hname
  rw [wordOf, String.toList_ofList]
  constructor
  · intro h
    have hword : name.Sublist (trim name) := by
      conv_lhs => rw [← h]
      exact (lastSegment_sublist _).trans (unquote_sublist _)
    have hstart : trimStart name = name := (trimStart_sublist name).antisymm (hword.trans (trimEnd_sublist _))
    have hcleaned : lastSegment (unquote (trimEnd name)) = lastSegment name := by
      rw [trim, hstart] at h
      rw [h, hsegment]
    obtain ⟨hend, hquotes⟩ := (lastSegment_cleaned_iff name).mp hcleaned
    exact ⟨head_of_trimStart hstart, last_of_trimEnd hend, hquotes⟩
  · rintro ⟨hhead, hlast, hquotes⟩
    rw [trim_of_ends hhead hlast, unquote_of_not_inQuotes hquotes, hsegment]

/-- Behind an enum it is read just when it has no blank at its end, and there are no quotes around both. -/
theorem qualified_name_read_iff (enum : List Char) (hname : '.' ∉ name) :
    lastSegment (wordOf (String.ofList (enum ++ '.' :: name))) = name ↔
      (∀ c ∈ name.getLast?, isBlank c = false) ∧ ¬ InQuotes (trimStart enum ++ '.' :: name) := by
  have hstart : trimStart (enum ++ '.' :: name) = trimStart enum ++ '.' :: name :=
    trimStart_append fun c hc => Option.some.inj hc ▸ by decide
  have hsegment : lastSegment (trimStart enum ++ '.' :: name) = name := (Reference.qualified _).lastSegment_eq hname
  have hends : (∀ c ∈ name.getLast?, isBlank c = false) ↔
      trimEnd (trimStart enum ++ '.' :: name) = trimStart enum ++ '.' :: name := by
    rw [trimEnd_eq_self_iff, List.getLast?_append, List.getLast?_cons]
    cases name.getLast? with
    | none => exact iff_of_true (by simp) fun c hc => Option.some.inj hc ▸ by decide
    | some c => rfl
  rw [wordOf, String.toList_ofList, trim, hstart, hends, ← lastSegment_cleaned_iff, hsegment]

end Names

/-! ## The option that is taken -/

/-- Whether a word is the label or the value of an option. -/
def goesBy (word : List Char) (o : EnumOption) : Bool :=
  o.name.toList == word ||
    match o.value with
    | .string s => s.toList == word
    | .number x => (Binary64.read? word).any fun y => y.eqv x

theorem names_eq (word : List Char) (o : EnumOption) : names word o = (o.contextId.toList == lastSegment word || goesBy word o) :=
  Bool.or_assoc _ _ _

variable {options before after : List EnumOption} {o : EnumOption} {text : String}

/-- A default that is read as the name of a member is its id, unless an option before it goes by the word. -/
theorem default_read_iff (hnames : (options.map (·.contextId)).Nodup) (hoptions : options = before ++ o :: after)
    (hname : lastSegment (wordOf text) = o.contextId.toList) :
    literalDefault? (.enum options) text = some (.string o.id) ↔ ∀ x ∈ before.find? (goesBy (wordOf text)), x.id = o.id := by
  have hself : names (wordOf text) o = true := by
    rw [names_eq, hname, beq_self_eq_true, Bool.true_or]
  have hbefore : before.find? (names (wordOf text)) = before.find? (goesBy (wordOf text)) := by
    refine List.find?_congr fun x hx => ?_
    have hother : x.contextId ≠ o.contextId := by
      rw [hoptions, List.map_append, List.nodup_append] at hnames
      exact hnames.2.2 _ (List.mem_map_of_mem hx) _ (List.mem_map_of_mem List.mem_cons_self)
    rw [names_eq, hname, beq_eq_false_iff_ne.mpr (mt String.toList_inj.mp hother), Bool.false_or]
  have hfind : options.find? (names (wordOf text)) = some ((before.find? (goesBy (wordOf text))).getD o) := by
    rw [hoptions, List.find?_append, hbefore, List.find?_cons_of_pos hself]
    cases before.find? (goesBy (wordOf text)) with
    | none => rfl
    | some x => rfl
  have hdefault : literalDefault? (.enum options) text = some (.string ((before.find? (goesBy (wordOf text))).getD o).id) := by
    rw [literalDefault?]
    exact congrArg (Option.map _) hfind
  rw [hdefault, Option.some.injEq, Json.string.injEq]
  cases before.find? (goesBy (wordOf text)) with
  | none => simp
  | some x => simp

/-- A default that spells the name of a member is the id of the member, unless an option before it goes by the word. -/
theorem default_names_member_iff (hnames : (options.map (·.contextId)).Nodup) (hoptions : options = before ++ o :: after)
    (hplain : PlainName o.contextId.toList) (hspelled : Spelling o.contextId.toList text.toList) :
    literalDefault? (.enum options) text = some (.string o.id) ↔ ∀ x ∈ before.find? (goesBy (wordOf text)), x.id = o.id :=
  default_read_iff hnames hoptions ((hspelled.reference hplain).lastSegment_eq hplain.no_dot)

/-- A member whose name has a dot is found by its label or its value, if at all, for no text is read as the name. -/
theorem dotted_name_unread (hids : (options.map (·.id)).Nodup) (ho : o ∈ options) (hdot : '.' ∈ o.contextId.toList)
    (h : literalDefault? (.enum options) text = some (.string o.id)) : goesBy (wordOf text) o = true := by
  have hunread : o.contextId.toList ≠ lastSegment (wordOf text) := fun hread => lastSegment_no_dot _ (hread ▸ hdot)
  rw [literalDefault?] at h
  obtain ⟨x, hx, hid⟩ := Option.map_eq_some_iff.mp h
  obtain rfl : x = o := List.inj_on_of_nodup_map hids (List.mem_of_find?_eq_some hx) ho (Json.string.inj hid)
  have hnamed : names (wordOf text) x = true := List.find?_some hx
  rwa [names_eq, beq_eq_false_iff_ne.mpr hunread, Bool.false_or] at hnamed

example : literalDefault? (.enum [⟨"step-half", "0.5", "Half", .string "half", 0, none⟩]) "0.5" = none := by decide +kernel

/-- `Primary = "primary"` with the label `Main`, and `Danger = "danger"`. -/
def tones : List EnumOption :=
  [⟨"tone-primary", "Primary", "Main", .string "primary", 0, none⟩,
    ⟨"tone-danger", "Danger", "Danger", .string "danger", 1, none⟩]

theorem danger_named : literalDefault? (.enum tones) "Tone.Danger" = some (.string "tone-danger") :=
  have hplain : PlainName "Danger".toList :=
    { no_dot := by decide
      head := fun c hc => Option.some.inj hc ▸ by decide
      last := fun c hc => Option.some.inj hc ▸ by decide
      unquoted := fun c hc => Option.some.inj hc ▸ by decide }
  have hoptions : tones = tones.take 1 ++ tones[1] :: [] := rfl
  (default_names_member_iff (by decide) hoptions hplain (.plain (.qualified "Tone".toList))).mpr fun x hx => nomatch hx

/-- `Main = "Danger"`, and `Danger = "risk"`. -/
def crossed : List EnumOption :=
  [⟨"tone-main", "Main", "Main", .string "Danger", 0, none⟩, ⟨"tone-danger", "Danger", "Danger", .string "risk", 1, none⟩]

/-- The default `Danger` is the first option by its value, and not the member with the name. -/
theorem a_value_takes_a_name_away : (crossed.map (·.contextId)).Nodup ∧ Spelling "Danger".toList "Danger".toList ∧
    literalDefault? (.enum crossed) "Danger" = some (.string "tone-main") :=
  ⟨by decide, .plain .bare, rfl⟩

end PatternCatalog.PropertyKind
