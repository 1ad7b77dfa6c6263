/-
  PatternCatalog.Proofs.Analysis.Encode — an analysis read back from its JSON.

  Records read back field by field, and lists item by item. What JSON cannot say is a number
  that is not finite: it is written as null, and where a number is expected null is refused. So
  an analysis reads back from what is written of it exactly when its enum values are finite
  (`ofJson?_written`), given what the runs see to: literal values in content are finite, no
  default of a property is null, and ordinals fit 64 bits (`Stated`).
-/

import PatternCatalog.Analysis.Decode
import PatternCatalog.Analysis.Encode
import PatternCatalog.Proofs.Json.Record

namespace PatternCatalog

/-! ## Finite numbers -/

def EnumValue.isFinite : EnumValue → Bool
  | .number x => x.isFinite
  | .string _ => true

def LiteralValue.isFinite : LiteralValue → Bool
  | .number x => x.isFinite
  | _ => true

/-- Whether the values of the options are finite. -/
def PropertyKind.isFinite (k : PropertyKind) : Bool := k.options.all (·.value.isFinite)

mutual

/-- Whether the literal values in an element are finite. -/
def Element.isFinite : Element → Bool
  | ⟨_, _, _, _, _, props, children⟩ => props.all (·.value.isFinite) && Element.allFinite children

def Element.allFinite : List Element → Bool
  | [] => true
  | e :: es => e.isFinite && Element.allFinite es

end

/-- A scalar that JSON can say, and that is not null. -/
def Json.isLiteral : Json → Bool
  | .bool _ | .string _ => true
  | .float x => x.isFinite
  | _ => false

/-- Whether a whole number fits 64 bits with a sign. -/
def Json.IsSigned (n : Int) : Prop := -Int.pow 2 63 ≤ n ∧ n < Int.pow 2 63

theorem Json.IsSigned.isWord {n : Int} (h : IsSigned n) : IsWord n := by
  have hpow63 : Int.pow 2 63 = 9223372036854775808 := by decide
  have hpow64 : Int.pow 2 64 = 18446744073709551616 := by decide
  obtain ⟨hlow, hhigh⟩ := h
  exact ⟨hlow, by omega⟩

namespace Analysis

open Json

/-! ## Scalars -/

theorem decodeText?_written (s : Option String) : decodeText? ((s.map Json.string).map written) = some s := by
  cases s <;> rfl

theorem decodeEnumValue?_written (v : EnumValue) :
    decodeEnumValue? (encodeEnumValue v).written = if v.isFinite then some v else none := by
  cases v with
  | number x =>
    rw [encodeEnumValue, written, EnumValue.isFinite]
    split <;> rfl
  | string s => rfl

theorem decodeLiteral?_written {v : LiteralValue} (hv : v.isFinite = true) :
    decodeLiteral? (encodeLiteral v).written = some v := by
  cases v with
  | boolean b => rfl
  | number x =>
    have hx : x.isFinite = true := hv
    rw [encodeLiteral, written, if_pos hx]
    rfl
  | string s => rfl

theorem decodeEvent?_word (e : EventKind) : decodeEvent? (.string e.word) = some e := by
  cases e <;> decide

theorem decodeQuantity?_word (q : SlotQuantity) : asWord? quantityWords (.string q.word) = some q := by
  cases q <;> decide

theorem decodeSlotKind?_word (k : SlotKind) : asWord? slotKindWords (.string k.word) = some k := by
  cases k <;> decide

theorem isLiteral_written {v : Json} (hv : v.isLiteral = true) : v.written = v ∧ v ≠ .null := by
  cases v with
  | float x =>
    have hx : x.isFinite = true := hv
    rw [written, if_pos hx]
    exact ⟨rfl, Json.noConfusion⟩
  | bool b => exact ⟨rfl, Json.noConfusion⟩
  | string s => exact ⟨rfl, Json.noConfusion⟩
  | null | int _ | array _ | object _ => cases hv

/-- A value that is not null is not taken for a missing one. -/
theorem asOptional?_of_ne_null {v : Json} (hv : v ≠ .null) : asOptional? some v = some (some v) := by
  cases v with
  | null => exact absurd rfl hv
  | _ => rfl

/-! ## Kinds -/

theorem decodeEnumOption?_written {o : EnumOption} (hordinal : o.ordinal < Int.pow 2 63) :
    decodeEnumOption? (encodeEnumOption o).written = if o.value.isFinite then some o else none := by
  have hread := recordFields?_record (optionFields o) (by simp [optionFields])
  simp only [optionFields, List.map_cons, List.map_nil] at hread
  rw [encodeEnumOption, decodeEnumOption?, optionFields, hread]
  simp only [Option.bind_eq_bind, Option.bind_some, Option.map_some, required?, written, asString?, string?,
    decodeEnumValue?_written, asInt?, if_pos hordinal, decodeText?_written]
  cases o.value.isFinite <;> rfl

theorem decodeOnly?_written {α : Type} (name : String) (read : Json → Option α) (v : Json) :
    decodeOnly? name read (Json.object [(name, v)]).written = read v.written := by
  have hread := recordFields?_record [(name, some v)] (by simp)
  simp only [List.map_cons, List.map_nil, Option.map_some] at hread
  have hobject : record [(name, some v)] = .object [(name, v)] := rfl
  rw [decodeOnly?, ← hobject, hread]
  rfl

/-- A kind is read back from its name and its content when its values are finite. -/
theorem decodeKindAs?_written {k : PropertyKind} (hordinals : ∀ o ∈ k.options, o.ordinal < Int.pow 2 63) :
    decodeKindAs? k.name (Json.object (encodeKindContent k)).written = if k.isFinite then some k else none := by
  cases k with
  | enum options =>
    have hoptions := asList?_written_if fun o ho => decodeEnumOption?_written (hordinals o ho)
    have hcontent := decodeOnly?_written "options" (asList? decodeEnumOption?) (.array (options.map encodeEnumOption))
    have hkind : ∀ content, decodeKindAs? "enum" content =
      (decodeOnly? "options" (asList? decodeEnumOption?) content).map .enum := fun _ => rfl
    rw [PropertyKind.name, hkind, encodeKindContent, hcontent]
    rw [PropertyKind.options] at hoptions
    rw [hoptions, PropertyKind.isFinite, PropertyKind.options]
    cases options.all (·.value.isFinite) <;> rfl
  | eventHandler event =>
    have hcontent := decodeOnly?_written "event" decodeEvent? (.string event.word)
    have hkind : ∀ content, decodeKindAs? "event-handler" content =
      (decodeOnly? "event" decodeEvent? content).map .eventHandler := fun _ => rfl
    have hevent : decodeEvent? (Json.string event.word).written = some event := decodeEvent?_word event
    rw [PropertyKind.name, hkind, encodeKindContent, hcontent, hevent]
    rfl
  | unknown typeText =>
    have hcontent := decodeOnly?_written "typeText" asString? (.string typeText)
    have hkind : ∀ content, decodeKindAs? "unknown" content =
      (decodeOnly? "typeText" asString? content).map .unknown := fun _ => rfl
    rw [PropertyKind.name, hkind, encodeKindContent, hcontent]
    rfl
  | _ => rfl

/-! ## Properties -/

theorem encodeKind_names (k : PropertyKind) : ∀ f ∈ encodeKind k, f.1 ∉ propertyFields := by
  cases k <;> simp [encodeKind, encodeKindContent, propertyFields]

theorem encodeKindContent_names (k : PropertyKind) : ∀ f ∈ encodeKindContent k, f.1 ≠ "type" := by
  cases k <;> simp [encodeKindContent]

/-- A field with its value as it is written. -/
def writtenField (f : String × Json) : String × Json := (f.1, f.2.written)

/-- The fields of a property that are not its own are those of its kind. -/
theorem filter_kind_fields (p : Property) :
    ((present (ownFields p) ++ encodeKind p.kind).map writtenField).filter (fun f => !propertyFields.contains f.1) =
      (encodeKind p.kind).map writtenField := by
  rw [List.map_append, List.filter_append]
  have hown : ((present (ownFields p)).map writtenField).filter (fun f => !propertyFields.contains f.1) = [] := by
    refine List.filter_eq_nil_iff.mpr fun f hf => ?_
    obtain ⟨g, hg, rfl⟩ := List.mem_map.mp hf
    have hname : g.1 ∈ (ownFields p).map (·.1) := mem_present_name hg
    have hmem : (writtenField g).1 ∈ propertyFields := hname
    simpa using hmem
  have hkind : ((encodeKind p.kind).map writtenField).filter (fun f => !propertyFields.contains f.1) =
      (encodeKind p.kind).map writtenField := by
    refine List.filter_eq_self.mpr fun f hf => ?_
    obtain ⟨g, hg, rfl⟩ := List.mem_map.mp hf
    have hname : (writtenField g).1 ∉ propertyFields := encodeKind_names p.kind g hg
    simpa using hname
  rw [hown, hkind, List.nil_append]

theorem filter_content_of_kind (k : PropertyKind) :
    ((encodeKind k).map writtenField).filter (·.1 != "type") = (encodeKindContent k).map writtenField ∧
      singleField? ((encodeKind k).map writtenField) "type" = some (some (.string k.name)) := by
  have hcontent : ∀ f ∈ (encodeKindContent k).map writtenField, f.1 ≠ "type" := by
    intro f hf
    obtain ⟨g, hg, rfl⟩ := List.mem_map.mp hf
    exact encodeKindContent_names k g hg
  have hother : ((encodeKindContent k).map writtenField).filter (·.1 == "type") = [] :=
    List.filter_eq_nil_iff.mpr fun f hf => by simpa using hcontent f hf
  have htype : (encodeKind k).map writtenField = ("type", .string k.name) :: (encodeKindContent k).map writtenField := rfl
  rw [htype]
  constructor
  · rw [List.filter_cons_of_neg (by simp)]
    exact List.filter_eq_self.mpr fun f hf => by simpa using hcontent f hf
  · rw [singleField?, List.filter_cons_of_pos (by simp), hother]

/-- A property whose default value is a literal is read back when the values of its kind are finite. -/
theorem decodeProperty?_written {p : Property} (hdefault : ∀ v, p.defaultValue = some v → v.isLiteral = true)
    (hordinals : ∀ o ∈ p.kind.options, o.ordinal < Int.pow 2 63) :
    decodeProperty? (encodeProperty p).written = if p.kind.isFinite then some p else none := by
  have hread := recordFields?_written (ownFields p) (by simp [ownFields]) (encodeKind p.kind) (encodeKind_names p.kind)
  have hwritten : (encodeProperty p).written = .object ((present (ownFields p) ++ encodeKind p.kind).map writtenField) :=
    written_object _
  have hnames : (ownFields p).map (·.1) = propertyFields := rfl
  have hkind : decodeKindAs? p.kind.name (.object ((encodeKindContent p.kind).map writtenField)) =
      if p.kind.isFinite then some p.kind else none := by
    have hcontent := decodeKindAs?_written hordinals
    rwa [written_object] at hcontent
  have hgroup := decodeText?_written p.group
  have hvalue : orDefault? (asOptional? some) none (p.defaultValue.map written) = some p.defaultValue := by
    cases hp : p.defaultValue with
    | none => rfl
    | some v =>
      obtain ⟨hv, hnull⟩ := isLiteral_written (hdefault v hp)
      rw [Option.map_some, hv]
      exact asOptional?_of_ne_null hnull
  rw [hnames, ← encodeProperty, hwritten] at hread
  rw [hwritten, decodeProperty?]
  simp only [filter_kind_fields, filter_content_of_kind, Option.bind_eq_bind, Option.bind_some, kindName?]
  rw [hkind, hread]
  cases p.kind.isFinite with
  | false => rfl
  | true =>
    simp only [if_true, Option.bind_some, ownFields, List.map_cons, List.map_nil, hgroup, hvalue]
    rfl

/-! ## Content -/

theorem decodeElementProp?_written {p : ElementProp} (hp : p.value.isFinite = true) :
    decodeElementProp? (encodeElementProp p).written = some p := by
  have hread := recordFields?_record (elementPropFields p) (by simp [elementPropFields])
  simp only [elementPropFields, List.map_cons, List.map_nil] at hread
  rw [encodeElementProp, decodeElementProp?, elementPropFields, hread]
  simp only [Option.bind_eq_bind, Option.bind_some, Option.map_some, required?, decodeText?_written,
    decodeLiteral?_written hp]
  rfl

mutual

/-- An element is read back with as much fuel as its JSON is deep. -/
theorem decodeElement?_written : (e : Element) → e.isFinite = true → ∀ {fuel : Nat},
    (encodeElement e).written.depth ≤ fuel → decodeElement? fuel (encodeElement e).written = some e
  | ⟨id, parent, libraryId, patternContextId, patternId, props, children⟩, hfinite, 0, hfuel => by
    rw [encodeElement, record, written_object, depth] at hfuel
    omega
  | ⟨id, parent, libraryId, patternContextId, patternId, props, children⟩, hfinite, fuel + 1, hfuel => by
    rw [Element.isFinite, Bool.and_eq_true, List.all_eq_true] at hfinite
    have hdepth : depthItems ((encodeElements children).map written) ≤ fuel := by
      rw [encodeElement] at hfuel
      have hlast := Nat.lt_of_lt_of_le
        (depth_lt_record (show ("children", some (Json.array (encodeElements children))) ∈ _ by simp)) hfuel
      rw [written_array, depth] at hlast
      omega
    have hprops := asList?_written fun p hp => decodeElementProp?_written (hfinite.1 p hp)
    have hchildren : asList? (decodeElement? fuel) (Json.array (encodeElements children)).written = some children := by
      rw [written_array]
      exact decodeElements?_written children hfinite.2 hdepth
    have hread := recordFields?_record [("id", some (.string id)), ("parent", some (.string parent)),
      ("libraryId", some (.string libraryId)), ("patternContextId", some (.string patternContextId)),
      ("patternId", some (.string patternId)), ("props", some (.array (props.map encodeElementProp))),
      ("children", some (.array (encodeElements children)))] (by simp)
    simp only [List.map_cons, List.map_nil] at hread
    rw [encodeElement, decodeElement?, hread]
    simp only [Option.bind_eq_bind, Option.bind_some, Option.map_some, required?, hprops, hchildren]
    rfl

theorem decodeElements?_written : (es : List Element) → Element.allFinite es = true → ∀ {fuel : Nat},
    depthItems ((encodeElements es).map written) ≤ fuel →
    ((encodeElements es).map written).mapM (decodeElement? fuel) = some es
  | [], _, _, _ => rfl
  | e :: es, hfinite, fuel, hfuel => by
    rw [Element.allFinite, Bool.and_eq_true] at hfinite
    rw [encodeElements, List.map_cons, depthItems] at hfuel
    have hfirst := decodeElement?_written e hfinite.1 (Nat.le_trans (Nat.le_max_left _ _) hfuel)
    have hrest := decodeElements?_written es hfinite.2 (Nat.le_trans (Nat.le_max_right _ _) hfuel)
    rw [encodeElements, List.map_cons, List.mapM_cons, hfirst, hrest]
    rfl

end

/-! ## Patterns -/

theorem decodeSlot?_written {s : Slot} (hcontent : ∀ e, s.defaultValue = some e → e.isFinite = true) :
    decodeSlot? (encodeSlot s).written = some s := by
  have hread := recordFields?_record (slotFields s) (by simp [slotFields])
  simp only [slotFields, List.map_cons, List.map_nil] at hread
  have hquantity : asWord? quantityWords (Json.string s.quantity.word).written = some s.quantity := decodeQuantity?_word _
  have hkind : asWord? slotKindWords (Json.string s.kind.word).written = some s.kind := decodeSlotKind?_word _
  have hdefault : orDefault? (asOptional? fun v => decodeElement? v.depth v) none
      ((s.defaultValue.map encodeElement).map written) = some s.defaultValue := by
    cases hs : s.defaultValue with
    | none => rfl
    | some e =>
      have he := decodeElement?_written e (hcontent e hs) (Nat.le_refl _)
      obtain ⟨id, parent, libraryId, patternContextId, patternId, props, children⟩ := e
      have hobject : (encodeElement ⟨id, parent, libraryId, patternContextId, patternId, props, children⟩).written =
        .object _ := written_object _
      rw [Option.map_some, Option.map_some, orDefault?]
      rw [hobject] at he ⊢
      exact congrArg (Option.map some) he
  rw [encodeSlot, decodeSlot?, slotFields, hread]
  simp only [Option.bind_eq_bind, Option.bind_some, Option.map_some, required?, hquantity, hkind, hdefault]
  rfl

theorem decodePattern?_written {p : Pattern}
    (hcontent : ∀ s ∈ p.slots, ∀ e, s.defaultValue = some e → e.isFinite = true) :
    decodePattern? (encodePattern p).written = some p := by
  have hread := recordFields?_record (patternFields p) (by simp [patternFields])
  simp only [patternFields, List.map_cons, List.map_nil] at hread
  have hslots := asList?_written fun s hs => decodeSlot?_written (hcontent s hs)
  have hids : asStrings? (Json.strings p.propertyIds).written = some p.propertyIds := asList?_written fun _ _ => rfl
  have htype : asWord? [("pattern", ())] (Json.string "pattern").written = some () := by decide
  rw [encodePattern, decodePattern?, patternFields, hread]
  simp only [Option.bind_eq_bind, Option.bind_some, Option.map_some, required?, hslots, hids, htype, decodeText?_written]
  rfl

/-- What runs see to in an entry. -/
structure Stated (e : PatternEntry) : Prop where
  content : ∀ s ∈ e.pattern.slots, ∀ c, s.defaultValue = some c → c.isFinite = true
  defaults : ∀ p ∈ e.properties, ∀ v, p.defaultValue = some v → v.isLiteral = true
  ordinals : ∀ p ∈ e.properties, ∀ o ∈ p.kind.options, IsSigned o.ordinal

theorem decodeEntry?_written {e : PatternEntry} (h : Stated e) :
    decodeEntry? (encodeEntry e).written = if e.properties.all (·.kind.isFinite) then some e else none := by
  have hread := recordFields?_record (entryFields e) (by simp [entryFields])
  simp only [entryFields, List.map_cons, List.map_nil] at hread
  have hpattern := decodePattern?_written h.content
  have hproperties := asList?_written_if fun p hp =>
    decodeProperty?_written (h.defaults p hp) fun o ho => (h.ordinals p hp o ho).2
  rw [encodeEntry, decodeEntry?, entryFields, hread]
  simp only [Option.bind_eq_bind, Option.bind_some, Option.map_some, required?, hpattern, hproperties]
  cases e.properties.all (·.kind.isFinite) <;> rfl

/-! ## Analyses -/

/-- Whether all enum values are finite. -/
def isFinite (a : Analysis) : Bool := a.properties.all (·.kind.isFinite)

/-- An analysis is read back from what is written of it exactly when its enum values are finite. -/
theorem ofJson?_written {a : Analysis} (hentries : ∀ e ∈ a.patterns, Stated e)
    (hpackage : a.packageFile.written = a.packageFile) :
    ofJson? a.toJson.written = if a.isFinite then some a else none := by
  have hread := recordFields?_record a.fields (by simp [fields])
  simp only [fields, List.map_cons, List.map_nil] at hread
  have hpatterns := asList?_written_if fun e he => decodeEntry?_written (hentries e he)
  have hfinite : a.isFinite = a.patterns.all (fun e => e.properties.all (·.kind.isFinite)) := List.all_flatMap
  rw [toJson, ofJson?, fields, hread]
  simp only [Option.bind_eq_bind, Option.bind_some, Option.map_some, required?, hpatterns, hpackage, hfinite]
  cases a.patterns.all (fun e => e.properties.all (·.kind.isFinite)) <;> rfl

/-! ## Whole numbers -/

theorem encodeEnumOption_hasWords {o : EnumOption} (ho : IsWord o.ordinal) : (encodeEnumOption o).HasWords := by
  have hvalue : (encodeEnumValue o.value).HasWords := by
    cases o.value <;> simp [encodeEnumValue]
  exact record_hasWords (by simp [optionFields, hvalue, ho])

theorem encodeKind_hasWords {k : PropertyKind} (hordinals : ∀ o ∈ k.options, IsSigned o.ordinal) :
    ∀ f ∈ encodeKind k, f.2.HasWords := by
  cases k with
  | enum options =>
    have hoptions : ∀ o ∈ options, (encodeEnumOption o).HasWords := fun o ho =>
      encodeEnumOption_hasWords (hordinals o ho).isWord
    simpa [encodeKind, encodeKindContent] using hoptions
  | _ => simp [encodeKind, encodeKindContent]

theorem isLiteral_hasWords {v : Json} (hv : v.isLiteral = true) : v.HasWords := by
  cases v with
  | bool b => exact hasWords_bool b
  | float x => exact hasWords_float x
  | string s => exact hasWords_string s
  | null | int _ | array _ | object _ => cases hv

theorem encodeProperty_hasWords {p : Property} (hdefault : ∀ v, p.defaultValue = some v → v.isLiteral = true)
    (hordinals : ∀ o ∈ p.kind.options, IsSigned o.ordinal) : (encodeProperty p).HasWords := by
  have hvalue : ∀ v, p.defaultValue = some v → v.HasWords := fun v hv => isLiteral_hasWords (hdefault v hv)
  refine (hasWords_object _).mpr (List.forall_mem_append.mpr ⟨present_hasWords ?_, encodeKind_hasWords hordinals⟩)
  simpa [ownFields] using hvalue

theorem encodeElementProp_hasWords (p : ElementProp) : (encodeElementProp p).HasWords := by
  have hvalue : (encodeLiteral p.value).HasWords := by
    cases p.value <;> simp [encodeLiteral]
  exact record_hasWords (by simp [elementPropFields, hvalue])

mutual

theorem encodeElement_hasWords : (e : Element) → (encodeElement e).HasWords
  | ⟨id, parent, libraryId, patternContextId, patternId, props, children⟩ => by
    have hchildren := encodeElements_hasWords children
    exact record_hasWords (by simpa [encodeElementProp_hasWords] using hchildren)

theorem encodeElements_hasWords : (es : List Element) → ∀ v ∈ encodeElements es, v.HasWords
  | [] => fun _ hv => nomatch hv
  | e :: es => List.forall_mem_cons.mpr ⟨encodeElement_hasWords e, encodeElements_hasWords es⟩

end

theorem encodeSlot_hasWords (s : Slot) : (encodeSlot s).HasWords :=
  record_hasWords (by simp [slotFields, encodeElement_hasWords])

theorem encodePattern_hasWords (p : Pattern) : (encodePattern p).HasWords :=
  record_hasWords (by simp [patternFields, strings, encodeSlot_hasWords])

theorem Stated.hasWords {e : PatternEntry} (h : Stated e) : (encodeEntry e).HasWords := by
  have hproperties : ∀ p ∈ e.properties, (encodeProperty p).HasWords := fun p hp =>
    encodeProperty_hasWords (h.defaults p hp) (h.ordinals p hp)
  exact record_hasWords (by simpa [entryFields, encodePattern_hasWords] using hproperties)

/-- The whole numbers in the JSON of an analysis fit 64 bits. -/
theorem toJson_hasWords {a : Analysis} (hentries : ∀ e ∈ a.patterns, Stated e) (hpackage : a.packageFile.HasWords) :
    a.toJson.HasWords := by
  have hpatterns : ∀ e ∈ a.patterns, (encodeEntry e).HasWords := fun e he => (hentries e he).hasWords
  exact record_hasWords (by simpa [fields, hpackage] using hpatterns)

end Analysis

end PatternCatalog
