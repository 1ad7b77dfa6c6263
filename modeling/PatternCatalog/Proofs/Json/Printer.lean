/-
  PatternCatalog.Proofs.Json.Printer — what the text of a value says.

  The text of a value is read back as the value, except that a number that is not finite has
  become null (`written`), and that a value with more than 127 arrays and objects inside one
  another is not read at all (`parse?_text`). This is said of values whose whole numbers fit 64
  bits and whose finite numbers read back one by one.
-/

import PatternCatalog.Proofs.Json.Number
import PatternCatalog.Proofs.Json.Quote

namespace PatternCatalog.Json

/-! ## Views of a value -/

mutual

/-- The values in a value that are neither arrays nor objects. -/
def scalars : Json → List Json
  | .array items => scalarsOfItems items
  | .object fields => scalarsOfFields fields
  | v => [v]

def scalarsOfItems : List Json → List Json
  | [] => []
  | v :: vs => scalars v ++ scalarsOfItems vs

def scalarsOfFields : List (String × Json) → List Json
  | [] => []
  | (_, v) :: fs => scalars v ++ scalarsOfFields fs

end

mutual

/-- The value with null for each number that is not finite. -/
def written : Json → Json
  | .float x => if x.isFinite then .float x else .null
  | .array items => .array (writtenItems items)
  | .object fields => .object (writtenFields fields)
  | v => v

def writtenItems : List Json → List Json
  | [] => []
  | v :: vs => written v :: writtenItems vs

def writtenFields : List (String × Json) → List (String × Json)
  | [] => []
  | (name, v) :: fs => (name, written v) :: writtenFields fs

end

mutual

/-- How many arrays and objects lie inside one another. -/
def levels : Json → Nat
  | .array items => levelsOfItems items + 1
  | .object fields => levelsOfFields fields + 1
  | _ => 0

def levelsOfItems : List Json → Nat
  | [] => 0
  | v :: vs => max (levels v) (levelsOfItems vs)

def levelsOfFields : List (String × Json) → Nat
  | [] => 0
  | (_, v) :: fs => max (levels v) (levelsOfFields fs)

end

/-- Whether a number is read back from its text. -/
def ReadsBack : Json → Prop
  | .int n => IsWord n
  | .float x => x.isFinite = true → parse? (text (.float x)) = some (.float x)
  | _ => True

/-! ## Numbers -/

def floats (v : Json) : List Binary64 := v.scalars.filterMap fun
  | .float x => some x
  | _ => none

theorem mem_floats {v : Json} {x : Binary64} : x ∈ v.floats ↔ .float x ∈ v.scalars := by
  constructor
  · intro h
    obtain ⟨t, ht, hx⟩ := List.mem_filterMap.mp h
    split at hx
    · rwa [← Option.some.inj hx]
    · cases hx
  · exact fun h => List.mem_filterMap.mpr ⟨.float x, h, rfl⟩

/-- The finite floating-point numbers in a value are read back from their texts. -/
def KeepsNumbers (v : Json) : Prop :=
  ∀ x ∈ v.floats, x.isFinite = true → parse? (text (.float x)) = some (.float x)

/-- Whether a number is what its text is read as. -/
def keepsValue (x : Binary64) : Bool :=
  match parse? (text (.float x)) with
  | some (.float y) => x == y
  | _ => false

theorem parse?_of_keepsValue {x : Binary64} (h : keepsValue x = true) : parse? (text (.float x)) = some (.float x) := by
  unfold keepsValue at h
  split at h
  · next y hy => rw [hy, eq_of_beq h]
  · cases h

/-! ## Opening characters -/

theorem render_int_numeral (n : Int) : ∀ c ∈ render (.int n), isNumeral c = true := by
  cases n with
  | ofNat n =>
    rw [Int.ofNat_eq_natCast, render_nat]
    exact digitText_numeral n
  | negSucc n =>
    rw [render_negSucc]
    exact List.forall_mem_cons.mpr ⟨by decide, digitText_numeral (n + 1)⟩

/-- The text of a number, as any number is read in any place. -/
theorem value?_number {s rest : List Char} {v : Json} (hs : ∀ c ∈ s, isNumeral c = true) (h : number? s = some (v, []))
    (hrest : Ends rest) (fuel depth : Nat) : value? (fuel + 1) depth (s ++ rest) = some (v, rest) := by
  have hread := number?_append hrest h
  cases s with
  | nil => cases h
  | cons c s => exact (value?_numeral (hs c List.mem_cons_self) fuel depth (s ++ rest)).trans hread

/-- The text of a value starts with no blank and closes no array. -/
theorem render_opens {v : Json} (h : ∀ s ∈ v.scalars, s.ReadsBack) :
    ∃ c r, render v = c :: r ∧ isSpace c = false ∧ c ≠ ']' := by
  have hnumber : ∀ {s w}, (∀ c ∈ s, isNumeral c = true) → number? s = some (w, []) →
      ∃ c r, s = c :: r ∧ isSpace c = false ∧ c ≠ ']' := by
    intro s w hs hread
    cases s with
    | nil => cases hread
    | cons c s =>
      have hopens := numeral_opens (hs c List.mem_cons_self)
      exact ⟨c, s, rfl, hopens.1, hopens.2.2.2.1⟩
  cases v with
  | null => exact ⟨_, _, rfl, by decide, by decide⟩
  | bool b =>
    cases b with
    | true => exact ⟨_, _, rfl, by decide, by decide⟩
    | false => exact ⟨_, _, rfl, by decide, by decide⟩
  | int n =>
    have hword : IsWord n := h _ List.mem_cons_self
    exact hnumber (render_int_numeral n) (number?_whole hword)
  | float x =>
    by_cases hx : x.isFinite = true
    · exact hnumber (render_numeral hx) (number?_of_parse? hx (h _ List.mem_cons_self hx))
    · refine ⟨'n', ['u', 'l', 'l'], ?_, by decide, by decide⟩
      cases x with
      | finite s m e => exact absurd rfl hx
      | nan => rfl
      | infinite s => rfl
  | string s => exact ⟨_, _, rfl, by decide, by decide⟩
  | array items => exact ⟨_, _, rfl, by decide, by decide⟩
  | object fields => exact ⟨_, _, rfl, by decide, by decide⟩

/-! ## Reading back -/

theorem value?_float {x : Binary64} (h : ReadsBack (.float x)) {rest : List Char} (hrest : Ends rest) (fuel depth : Nat) :
    value? (fuel + 1) depth (render (.float x) ++ rest) = some (written (.float x), rest) := by
  rw [written]
  by_cases hx : x.isFinite = true
  · rw [if_pos hx]
    exact value?_number (render_numeral hx) (number?_of_parse? hx (h hx)) hrest fuel depth
  · rw [if_neg hx]
    cases x with
    | finite s m e => exact absurd rfl hx
    | nan => rfl
    | infinite s => rfl

theorem value?_string (s : String) (rest : List Char) (fuel depth : Nat) :
    value? (fuel + 1) depth (render (.string s) ++ rest) = some (.string s, rest) := by
  have hbody := stringBody_quoted [] s.toList rest
  have hquote : render (.string s) ++ rest = '"' :: (s.toList.flatMap escape ++ '"' :: rest) := by
    simp [render, quote]
  rw [hquote, value?, skipSpaces_cons (by decide)]
  simp only [if_true, hbody, Option.map_some, List.reverse_nil, List.nil_append, String.ofList_toList]

/-- An array is read by its items. -/
theorem value?_array {c : Char} {s : List Char} (hspace : isSpace c = false) (hclose : c ≠ ']') (fuel depth : Nat) :
    value? (fuel + 1) depth ('[' :: c :: s) =
      if depth = 0 then none else (items? fuel (depth - 1) (c :: s)).map fun (vs, rest) => (.array vs, rest) := by
  rw [value?, skipSpaces_cons (by decide)]
  simp only [Char.reduceEq, if_false, if_true, skipSpaces_cons hspace]
  split
  · rfl
  · split
    · next hc => exact absurd (List.cons.inj hc).1 hclose
    · rfl

/-- An object is read by its fields. -/
theorem value?_object (s : List Char) (fuel depth : Nat) :
    value? (fuel + 1) depth ('\x7b' :: '"' :: s) =
      if depth = 0 then none else (fields? fuel (depth - 1) ('"' :: s)).map fun (fs, rest) => (.object fs, rest) := by
  have hspace : skipSpaces ('"' :: s) = '"' :: s := skipSpaces_cons (by decide) s
  rw [value?, skipSpaces_cons (by decide)]
  simp only [Char.reduceEq, if_false, if_true, hspace]

/-- The first field, and what stands after it. -/
theorem fields?_cons (name : String) (s : List Char) (fuel depth : Nat) :
    fields? (fuel + 1) depth (quote name.toList ++ ':' :: s) =
      match value? fuel depth s with
      | none => none
      | some (v, rest) =>
        match skipSpaces rest with
        | c :: rest =>
          if c = ',' then (fields? fuel depth rest).map fun (fs, rest) => ((name, v) :: fs, rest)
          else if c = '\x7d' then some ([(name, v)], rest)
          else none
        | [] => none := by
  have hbody := stringBody_quoted [] name.toList (':' :: s)
  have hquote : quote name.toList ++ ':' :: s = '"' :: (name.toList.flatMap escape ++ '"' :: ':' :: s) := by
    simp [quote]
  rw [hquote, fields?, skipSpaces_cons (by decide)]
  simp only [hbody, List.reverse_nil, List.nil_append, String.ofList_toList]
  rw [skipSpaces_cons (by decide)]
  rfl

/-- The items of an array start with those of the first. -/
theorem renderItems_opens (v : Json) (vs : List Json) (h : ∀ s ∈ scalarsOfItems (v :: vs), s.ReadsBack) :
    ∃ c r, renderItems (v :: vs) = c :: r ∧ isSpace c = false ∧ c ≠ ']' := by
  obtain ⟨c, r, hopens, hspace, hclose⟩ := render_opens (v := v) fun s hs => h s (List.mem_append_left _ hs)
  cases vs with
  | nil => exact ⟨c, r, hopens, hspace, hclose⟩
  | cons w ws => exact ⟨c, r ++ ',' :: renderItems (w :: ws), by simp [renderItems, hopens], hspace, hclose⟩

theorem renderFields_opens (f : String × Json) (fs : List (String × Json)) : ∃ r, renderFields (f :: fs) = '"' :: r := by
  obtain ⟨name, v⟩ := f
  cases fs with
  | nil => exact ⟨_, rfl⟩
  | cons g gs => exact ⟨_, rfl⟩

mutual

theorem value?_render : (v : Json) → (∀ s ∈ v.scalars, s.ReadsBack) → ∀ (fuel depth : Nat) (rest : List Char),
    (render v).length < fuel → Ends rest →
    value? fuel depth (render v ++ rest) = if v.levels ≤ depth then some (v.written, rest) else none
  | v, _, 0, _, _, hfuel, _ => absurd hfuel (Nat.not_lt_zero _)
  | .null, _, _ + 1, _, _, _, _ => rfl
  | .bool true, _, _ + 1, _, _, _, _ => rfl
  | .bool false, _, _ + 1, _, _, _, _ => rfl
  | .int n, h, fuel + 1, depth, _, _, hrest =>
    value?_number (render_int_numeral n) (number?_whole (h _ List.mem_cons_self)) hrest fuel depth
  | .float x, h, fuel + 1, depth, _, _, hrest => value?_float (h _ List.mem_cons_self) hrest fuel depth
  | .string s, _, fuel + 1, depth, rest, _, _ => value?_string s rest fuel depth
  | .array [], _, _ + 1, 0, _, _, _ => rfl
  | .array [], _, _ + 1, _ + 1, _, _, _ => rfl
  | .array (v :: vs), h, fuel + 1, depth, rest, hfuel, _ => by
    have hlength : (renderItems (v :: vs)).length + 1 < fuel := by
      simp only [render, List.length_cons, List.length_append, List.length_nil] at hfuel
      omega
    have hitems := items?_render v vs h fuel (depth - 1) rest hlength
    obtain ⟨c, r, hopens, hspace, hclose⟩ := renderItems_opens v vs h
    have htext : render (.array (v :: vs)) ++ rest = '[' :: (renderItems (v :: vs) ++ ']' :: rest) := by simp [render]
    rw [htext]
    rw [hopens, List.cons_append] at hitems ⊢
    rw [value?_array hspace hclose, hitems]
    cases depth with
    | zero => rfl
    | succ depth =>
      rw [if_neg (Nat.succ_ne_zero depth), levels, written, Nat.add_sub_cancel]
      by_cases hlevels : levelsOfItems (v :: vs) ≤ depth
      · rw [if_pos hlevels, if_pos (Nat.succ_le_succ hlevels), Option.map_some]
      · rw [if_neg hlevels, if_neg fun hle => hlevels (Nat.le_of_succ_le_succ hle), Option.map_none]
  | .object [], _, _ + 1, 0, _, _, _ => rfl
  | .object [], _, _ + 1, _ + 1, _, _, _ => rfl
  | .object (f :: fs), h, fuel + 1, depth, rest, hfuel, _ => by
    have hlength : (renderFields (f :: fs)).length + 1 < fuel := by
      simp only [render, List.length_cons, List.length_append, List.length_nil] at hfuel
      omega
    have hfields := fields?_render f fs h fuel (depth - 1) rest hlength
    obtain ⟨r, hopens⟩ := renderFields_opens f fs
    have htext : render (.object (f :: fs)) ++ rest = '\x7b' :: (renderFields (f :: fs) ++ '\x7d' :: rest) := by simp [render]
    rw [htext]
    rw [hopens, List.cons_append] at hfields ⊢
    rw [value?_object, hfields]
    cases depth with
    | zero => rfl
    | succ depth =>
      rw [if_neg (Nat.succ_ne_zero depth), levels, written, Nat.add_sub_cancel]
      by_cases hlevels : levelsOfFields (f :: fs) ≤ depth
      · rw [if_pos hlevels, if_pos (Nat.succ_le_succ hlevels), Option.map_some]
      · rw [if_neg hlevels, if_neg fun hle => hlevels (Nat.le_of_succ_le_succ hle), Option.map_none]

theorem items?_render : (v : Json) → (vs : List Json) → (∀ s ∈ scalarsOfItems (v :: vs), s.ReadsBack) →
    ∀ (fuel depth : Nat) (rest : List Char), (renderItems (v :: vs)).length + 1 < fuel →
    items? fuel depth (renderItems (v :: vs) ++ ']' :: rest) =
      if levelsOfItems (v :: vs) ≤ depth then some (writtenItems (v :: vs), rest) else none
  | v, _, _, 0, _, _, hfuel => absurd hfuel (Nat.not_lt_zero _)
  | v, [], h, fuel + 1, depth, rest, hfuel => by
    have hlength : (render v).length < fuel := by
      rw [renderItems] at hfuel
      omega
    have hv := value?_render v (fun s hs => h s (List.mem_append_left _ hs)) fuel depth (']' :: rest) hlength
      (ends_cons (by decide) rest)
    rw [renderItems, items?, hv]
    by_cases hlevels : v.levels ≤ depth
    · have hle : levelsOfItems [v] ≤ depth := Nat.max_le.mpr ⟨hlevels, Nat.zero_le _⟩
      rw [if_pos hlevels, if_pos hle]
      rfl
    · have hle : ¬ levelsOfItems [v] ≤ depth := fun hle => hlevels (Nat.max_le.mp hle).1
      rw [if_neg hlevels, if_neg hle]
  | v, w :: ws, h, fuel + 1, depth, rest, hfuel => by
    have htext : renderItems (v :: w :: ws) ++ ']' :: rest = render v ++ ',' :: (renderItems (w :: ws) ++ ']' :: rest) := by
      simp [renderItems]
    have hlength : (render v).length + (renderItems (w :: ws)).length + 1 < fuel := by
      rw [renderItems, List.length_append, List.length_cons] at hfuel
      · omega
      · simp
    have hv := value?_render v (fun s hs => h s (List.mem_append_left _ hs)) fuel depth
      (',' :: (renderItems (w :: ws) ++ ']' :: rest)) (by omega) (ends_cons (by decide) _)
    have hws := items?_render w ws (fun s hs => h s (List.mem_append_right _ hs)) fuel depth rest (by omega)
    rw [htext, items?, hv]
    by_cases hlevels : v.levels ≤ depth
    · rw [if_pos hlevels]
      dsimp only
      rw [skipSpaces_cons (by decide)]
      change (items? fuel depth (renderItems (w :: ws) ++ ']' :: rest)).map (fun x => (v.written :: x.1, x.2)) = _
      rw [hws]
      by_cases hrest : levelsOfItems (w :: ws) ≤ depth
      · have hle : levelsOfItems (v :: w :: ws) ≤ depth := Nat.max_le.mpr ⟨hlevels, hrest⟩
        rw [if_pos hrest, if_pos hle]
        rfl
      · have hle : ¬ levelsOfItems (v :: w :: ws) ≤ depth := fun hle => hrest (Nat.max_le.mp hle).2
        rw [if_neg hrest, if_neg hle]
        rfl
    · have hle : ¬ levelsOfItems (v :: w :: ws) ≤ depth := fun hle => hlevels (Nat.max_le.mp hle).1
      rw [if_neg hlevels, if_neg hle]

theorem fields?_render : (f : String × Json) → (fs : List (String × Json)) →
    (∀ s ∈ scalarsOfFields (f :: fs), s.ReadsBack) → ∀ (fuel depth : Nat) (rest : List Char),
    (renderFields (f :: fs)).length + 1 < fuel →
    fields? fuel depth (renderFields (f :: fs) ++ '\x7d' :: rest) =
      if levelsOfFields (f :: fs) ≤ depth then some (writtenFields (f :: fs), rest) else none
  | _, _, _, 0, _, _, hfuel => absurd hfuel (Nat.not_lt_zero _)
  | (name, v), [], h, fuel + 1, depth, rest, hfuel => by
    have hlength : (render v).length < fuel := by
      rw [renderFields, List.length_append, List.length_cons] at hfuel
      omega
    have hv := value?_render v (fun s hs => h s (List.mem_append_left _ hs)) fuel depth ('\x7d' :: rest) hlength
      (ends_cons (by decide) rest)
    rw [renderFields, List.append_assoc, List.cons_append, fields?_cons, hv]
    by_cases hlevels : v.levels ≤ depth
    · have hle : levelsOfFields [(name, v)] ≤ depth := Nat.max_le.mpr ⟨hlevels, Nat.zero_le _⟩
      rw [if_pos hlevels, if_pos hle]
      rfl
    · have hle : ¬ levelsOfFields [(name, v)] ≤ depth := fun hle => hlevels (Nat.max_le.mp hle).1
      rw [if_neg hlevels, if_neg hle]
  | (name, v), g :: gs, h, fuel + 1, depth, rest, hfuel => by
    have htext : renderFields ((name, v) :: g :: gs) ++ '\x7d' :: rest =
        quote name.toList ++ ':' :: (render v ++ ',' :: (renderFields (g :: gs) ++ '\x7d' :: rest)) := by
      simp [renderFields]
    have hlength : (render v).length + (renderFields (g :: gs)).length + 1 < fuel := by
      rw [renderFields] at hfuel
      · simp only [List.length_append, List.length_cons] at hfuel
        omega
      · simp
    have hv := value?_render v (fun s hs => h s (List.mem_append_left _ hs)) fuel depth
      (',' :: (renderFields (g :: gs) ++ '\x7d' :: rest)) (by omega) (ends_cons (by decide) _)
    have hgs := fields?_render g gs (fun s hs => h s (List.mem_append_right _ hs)) fuel depth rest (by omega)
    rw [htext, fields?_cons, hv]
    by_cases hlevels : v.levels ≤ depth
    · rw [if_pos hlevels]
      dsimp only
      rw [skipSpaces_cons (by decide)]
      simp only [if_true]
      rw [hgs]
      by_cases hrest : levelsOfFields (g :: gs) ≤ depth
      · have hle : levelsOfFields ((name, v) :: g :: gs) ≤ depth := Nat.max_le.mpr ⟨hlevels, hrest⟩
        rw [if_pos hrest, if_pos hle]
        rfl
      · have hle : ¬ levelsOfFields ((name, v) :: g :: gs) ≤ depth := fun hle => hrest (Nat.max_le.mp hle).2
        rw [if_neg hrest, if_neg hle]
        rfl
    · have hle : ¬ levelsOfFields ((name, v) :: g :: gs) ≤ depth := fun hle => hlevels (Nat.max_le.mp hle).1
      rw [if_neg hlevels, if_neg hle]

end

/-- The text of a value says the value as it is written, unless it nests too deep to be read. -/
theorem parse?_text {v : Json} (h : ∀ s ∈ v.scalars, s.ReadsBack) :
    parse? v.text = if v.levels ≤ 127 then some v.written else none := by
  have hread := value?_render v h ((render v).length + 1) 127 [] (Nat.lt_succ_self _) ends_nil
  rw [List.append_nil] at hread
  unfold parse? text
  rw [String.toList_ofList]
  dsimp only
  rw [hread]
  by_cases hlevels : v.levels ≤ 127
  · rw [if_pos hlevels, if_pos hlevels]
    rfl
  · rw [if_neg hlevels, if_neg hlevels]

end PatternCatalog.Json
