/-
  PatternCatalog.Proofs.Json.Record — records as objects.

  A record is an object without the fields that are absent (`record`). Of such an object each
  named field is read back, there or missing, when no name is given twice
  (`recordFields?_present`, `recordFields?_written`); fields of other names do not matter.
-/

import PatternCatalog.Json.Decode
import PatternCatalog.Proofs.Json.Printer

namespace PatternCatalog.Json

/-! ## Views of arrays and objects -/

theorem scalars_array (items : List Json) : scalars (.array items) = items.flatMap scalars := by
  rw [scalars]
  induction items with
  | nil => rfl
  | cons v vs ih => rw [scalarsOfItems, ih, List.flatMap_cons]

theorem scalars_object (fields : List (String × Json)) : scalars (.object fields) = fields.flatMap (·.2.scalars) := by
  rw [scalars]
  induction fields with
  | nil => rfl
  | cons f fs ih => rw [scalarsOfFields, ih, List.flatMap_cons]

theorem written_array (items : List Json) : written (.array items) = .array (items.map written) := by
  rw [written]
  congr 1
  induction items with
  | nil => rfl
  | cons v vs ih => rw [writtenItems, ih, List.map_cons]

theorem written_object (fields : List (String × Json)) :
    written (.object fields) = .object (fields.map fun f => (f.1, f.2.written)) := by
  rw [written]
  congr 1
  induction fields with
  | nil => rfl
  | cons f fs ih => rw [writtenFields, ih, List.map_cons]

/-! ## Fields that are there -/

theorem present_cons (f : String × Option Json) (fs : List (String × Option Json)) :
    present (f :: fs) = optional f.1 f.2 ++ present fs := List.flatMap_cons

theorem mem_present_name {fields : List (String × Option Json)} {f : String × Json} (h : f ∈ present fields) :
    f.1 ∈ fields.map (·.1) := by
  obtain ⟨g, hg, hf⟩ := List.mem_flatMap.mp h
  obtain ⟨name, v⟩ := g
  cases v with
  | none => cases hf
  | some v =>
    obtain rfl := List.mem_singleton.mp hf
    exact List.mem_map_of_mem hg

theorem mem_present {fields : List (String × Option Json)} {name : String} {v : Json} (h : (name, some v) ∈ fields) :
    (name, v) ∈ present fields :=
  List.mem_flatMap.mpr ⟨(name, some v), h, List.mem_singleton_self _⟩

theorem depth_le_depthFields {fields : List (String × Json)} {f : String × Json} (h : f ∈ fields) :
    f.2.depth ≤ depthFields fields := by
  induction fields with
  | nil => cases h
  | cons g gs ih =>
    obtain ⟨name, v⟩ := g
    rw [depthFields]
    rcases List.mem_cons.mp h with rfl | h
    · exact Nat.le_max_left _ _
    · exact Nat.le_trans (ih h) (Nat.le_max_right _ _)

/-- A record is deeper than each of its fields. -/
theorem depth_lt_record {fields : List (String × Option Json)} {name : String} {v : Json} (h : (name, some v) ∈ fields) :
    v.written.depth < (record fields).written.depth := by
  have hmem : (name, v.written) ∈ (present fields).map fun f => (f.1, f.2.written) :=
    List.mem_map.mpr ⟨(name, v), mem_present h, rfl⟩
  rw [record, written_object, depth]
  exact Nat.lt_succ_of_le (depth_le_depthFields hmem)

theorem filter_optional_self (name : String) (v : Option Json) : (optional name v).filter (·.1 == name) = optional name v := by
  cases v with
  | none => rfl
  | some v => exact List.filter_cons_of_pos (beq_self_eq_true name)

theorem filter_optional_of_ne {name other : String} (h : other ≠ name) (v : Option Json) :
    (optional other v).filter (·.1 == name) = [] := by
  cases v with
  | none => rfl
  | some v => exact List.filter_cons_of_neg (by simpa using h)

theorem filter_present_of_not_mem {fields : List (String × Option Json)} {name : String} (h : name ∉ fields.map (·.1)) :
    (present fields).filter (·.1 == name) = [] := by
  induction fields with
  | nil => rfl
  | cons f fs ih =>
    rw [List.map_cons, List.mem_cons, not_or] at h
    rw [present_cons, List.filter_append, filter_optional_of_ne (Ne.symm h.1), ih h.2]
    rfl

theorem filter_present {fields : List (String × Option Json)} (hnodup : (fields.map (·.1)).Nodup) {name : String}
    {v : Option Json} (hmem : (name, v) ∈ fields) : (present fields).filter (·.1 == name) = optional name v := by
  induction fields with
  | nil => cases hmem
  | cons f fs ih =>
    rw [List.map_cons, List.nodup_cons] at hnodup
    rw [present_cons, List.filter_append]
    rcases List.mem_cons.mp hmem with rfl | hmem
    · rw [filter_optional_self, filter_present_of_not_mem hnodup.1, List.append_nil]
    · have hne : f.1 ≠ name := by
        rintro rfl
        exact hnodup.1 (List.mem_map.mpr ⟨(f.1, v), hmem, rfl⟩)
      rw [filter_optional_of_ne hne, ih hnodup.2 hmem, List.nil_append]

/-- A field is read back from among fields of other names. -/
theorem singleField?_present {fields : List (String × Option Json)} (hnodup : (fields.map (·.1)).Nodup)
    {others : List (String × Json)} (hothers : ∀ o ∈ others, o.1 ∉ fields.map (·.1)) {name : String} {v : Option Json}
    (hmem : (name, v) ∈ fields) : singleField? (present fields ++ others) name = some v := by
  have hnone : others.filter (·.1 == name) = [] := by
    refine List.filter_eq_nil_iff.mpr fun o ho hname => hothers o ho ?_
    rw [eq_of_beq hname]
    exact List.mem_map_of_mem hmem
  unfold singleField?
  rw [List.filter_append, hnone, List.append_nil, filter_present hnodup hmem]
  cases v with
  | none => rfl
  | some v => rfl

/-- The fields of a record are read back, there or missing. -/
theorem recordFields?_present (fields : List (String × Option Json)) (hnodup : (fields.map (·.1)).Nodup)
    (others : List (String × Json)) (hothers : ∀ o ∈ others, o.1 ∉ fields.map (·.1)) :
    recordFields? (fields.map (·.1)) (.object (present fields ++ others)) = some (fields.map (·.2)) := by
  have hread : ∀ fs : List (String × Option Json), fs ⊆ fields →
      (fs.map (·.1)).mapM (singleField? (present fields ++ others)) = some (fs.map (·.2)) := by
    intro fs hfs
    induction fs with
    | nil => rfl
    | cons f fs ih =>
      rw [List.cons_subset] at hfs
      rw [List.map_cons, List.mapM_cons, singleField?_present hnodup hothers hfs.1, ih hfs.2]
      rfl
  exact hread fields (List.Subset.refl fields)

theorem written_present (fields : List (String × Option Json)) :
    (present fields).map (fun f => (f.1, f.2.written)) = present (fields.map fun f => (f.1, f.2.map written)) := by
  induction fields with
  | nil => rfl
  | cons f fs ih =>
    rw [List.map_cons, present_cons, present_cons, List.map_append, ih]
    obtain ⟨name, v⟩ := f
    cases v with
    | none => rfl
    | some v => rfl

/-- The fields of a record are read back as they are written, there or missing. -/
theorem recordFields?_written (fields : List (String × Option Json)) (hnodup : (fields.map (·.1)).Nodup)
    (others : List (String × Json)) (hothers : ∀ o ∈ others, o.1 ∉ fields.map (·.1)) :
    recordFields? (fields.map (·.1)) (Json.object (present fields ++ others)).written =
      some (fields.map fun f => f.2.map written) := by
  have hnames : (fields.map fun f => (f.1, f.2.map written)).map (·.1) = fields.map (·.1) := by
    rw [List.map_map]
    rfl
  have hread := recordFields?_present (fields.map fun f => (f.1, f.2.map written)) (hnames.symm ▸ hnodup)
    (others.map fun o => (o.1, o.2.written)) ?_
  · rw [written_object, List.map_append, written_present]
    rw [hnames, List.map_map] at hread
    exact hread
  · rw [hnames]
    intro o ho
    obtain ⟨o', ho', rfl⟩ := List.mem_map.mp ho
    exact hothers o' ho'

theorem recordFields?_record (fields : List (String × Option Json)) (hnodup : (fields.map (·.1)).Nodup) :
    recordFields? (fields.map (·.1)) (record fields).written = some (fields.map fun f => f.2.map written) := by
  have hread := recordFields?_written fields hnodup [] fun _ ho => nomatch ho
  rwa [List.append_nil] at hread

/-! ## Whole numbers -/

/-- Whether the whole numbers in a value fit 64 bits. -/
def HasWords (v : Json) : Prop := ∀ n, .int n ∈ v.scalars → IsWord n

@[simp] theorem hasWords_string (s : String) : (Json.string s).HasWords := by
  simp [HasWords, scalars]

@[simp] theorem hasWords_bool (b : Bool) : (Json.bool b).HasWords := by
  simp [HasWords, scalars]

@[simp] theorem hasWords_float (x : Binary64) : (Json.float x).HasWords := by
  simp [HasWords, scalars]

@[simp] theorem hasWords_int (n : Int) : (Json.int n).HasWords ↔ IsWord n := by
  simp [HasWords, scalars]

@[simp] theorem hasWords_array (vs : List Json) : (Json.array vs).HasWords ↔ ∀ v ∈ vs, v.HasWords := by
  simp only [HasWords, scalars_array, List.mem_flatMap]
  constructor
  · exact fun h v hv n hn => h n ⟨v, hv, hn⟩
  · rintro h n ⟨v, hv, hn⟩
    exact h v hv n hn

theorem hasWords_object (fs : List (String × Json)) : (Json.object fs).HasWords ↔ ∀ f ∈ fs, f.2.HasWords := by
  simp only [HasWords, scalars_object, List.mem_flatMap]
  constructor
  · exact fun h f hf n hn => h n ⟨f, hf, hn⟩
  · rintro h n ⟨f, hf, hn⟩
    exact h f hf n hn

theorem present_hasWords {fields : List (String × Option Json)} (h : ∀ f ∈ fields, ∀ v ∈ f.2, v.HasWords) :
    ∀ f ∈ present fields, f.2.HasWords := by
  intro f hf
  obtain ⟨⟨name, v⟩, hg, hf⟩ := List.mem_flatMap.mp hf
  cases v with
  | none => cases hf
  | some v =>
    obtain rfl := List.mem_singleton.mp hf
    exact h _ hg v rfl

theorem record_hasWords {fields : List (String × Option Json)} (h : ∀ f ∈ fields, ∀ v ∈ f.2, v.HasWords) :
    (record fields).HasWords := (hasWords_object _).mpr (present_hasWords h)

/-! ## Lists -/

/-- A list is read back when all its items are, and otherwise it is not. -/
theorem asList?_written_if {α : Type} {write : α → Json} {read : Json → Option α} {p : α → Bool} {as : List α}
    (h : ∀ a ∈ as, read (write a).written = if p a then some a else none) :
    asList? read (Json.array (as.map write)).written = if as.all p then some as else none := by
  rw [written_array, asList?]
  induction as with
  | nil => rfl
  | cons a as ih =>
    have hrest := ih fun b hb => h b (List.mem_cons_of_mem _ hb)
    rw [List.map_cons, List.map_cons, List.mapM_cons, h a List.mem_cons_self, hrest, List.all_cons]
    cases p a with
    | false => rfl
    | true =>
      cases as.all p with
      | false => rfl
      | true => rfl

theorem asList?_written {α : Type} {write : α → Json} {read : Json → Option α} {as : List α}
    (h : ∀ a ∈ as, read (write a).written = some a) : asList? read (Json.array (as.map write)).written = some as := by
  have hread := asList?_written_if (p := fun _ => true) fun a ha => (h a ha).trans (if_pos rfl).symm
  rwa [List.all_eq_true.mpr fun _ _ => rfl, if_pos rfl] at hread

end PatternCatalog.Json
