/-
  PatternCatalog.Proofs.Bundle — what the lines of a module map say.

  The module map has an opening line, one line for each entry whose id did not come before,
  and a closing line (`lines_moduleText`); a line maps the id of its entry and no other
  (`mapsId_line`), so the lines that map an id are the one of the first entry with that id
  (`lines_mapping_id`). A module map is made exactly when every implementation exists
  (`moduleMap_ok_iff`).
-/

import PatternCatalog.Bundle
import PatternCatalog.Proofs.Firsts
import PatternCatalog.Proofs.Json.Quote

namespace PatternCatalog

namespace Bundle

open Text (InLine)

/-! ## One line -/

/-- What a line says before the implementation: the id. -/
def lineStart (id : String) : List Char := "  ".toList ++ Json.quote id.toList ++ ": () => import(".toList

/-- Whether a line maps an id to an implementation. -/
def mapsId (id : String) (l : List Char) : Bool := (lineStart id).isPrefixOf l

theorem line_eq (e : BundleEntry) : line e = lineStart e.id ++ (Json.quote e.path.text.toList ++ "),".toList) := by
  simp [line, lineStart]

theorem line_inLine (e : BundleEntry) : InLine (line e) := by
  have hindent : InLine "  ".toList := by decide
  have harrow : InLine ": () => import(".toList := by decide
  have hend : InLine "),".toList := by decide
  exact (((hindent.append (Json.quote_inLine _)).append harrow).append (Json.quote_inLine _)).append hend

theorem mapsId_line (id : String) (e : BundleEntry) : mapsId id (line e) = true ↔ e.id = id := by
  rw [mapsId, List.isPrefixOf_iff_prefix]
  constructor
  · rintro ⟨rest, h⟩
    rw [line_eq, lineStart, lineStart] at h
    simp only [List.append_assoc, List.append_cancel_left_eq] at h
    exact (String.toList_inj.mp (Json.quote_append_inj h).1).symm
  · rintro rfl
    exact ⟨_, (line_eq e).symm⟩

/-! ## All lines -/

def opening : List Char := "export const components = \x7b".toList

def closing : List Char := "\x7d;".toList

theorem toList_moduleText (ls : List (List Char)) :
    (moduleText ls).toList = opening ++ '\n' :: (Text.unlines ls ++ '\n' :: "\x7d;\n".toList) := by
  have hstart : "export const components = \x7b\n".toList = opening ++ ['\n'] := by decide
  have hend : "\n\x7d;\n".toList = '\n' :: "\x7d;\n".toList := by decide
  unfold moduleText
  rw [String.toList_ofList, hstart, hend]
  simp only [List.append_assoc, List.cons_append, List.nil_append]

theorem lines_moduleText {es : List BundleEntry} (h : es ≠ []) :
    Text.lines (moduleText ((firsts (·.id) es).map line)).toList = opening :: (firsts (·.id) es).map line ++ [closing] := by
  have hopening : InLine opening := by decide
  have hclosing : Text.lines "\x7d;\n".toList = [closing] := by decide
  have hne : (firsts (·.id) es).map line ≠ [] := by
    cases es with
    | nil => exact absurd rfl h
    | cons e es => exact List.cons_ne_nil _ _
  have hls : ∀ l ∈ (firsts (·.id) es).map line, Text.IsLine l := by
    intro l hl
    obtain ⟨e, -, rfl⟩ := List.mem_map.mp hl
    exact (line_inLine e).isLine
  rw [toList_moduleText, Text.lines_append_break hopening.isLine, Text.lines_unlines hls hne, hclosing, List.cons_append]

/-- An id is mapped by the line of the first entry with that id, and by no other. -/
theorem lines_mapping_id {es : List BundleEntry} {e : BundleEntry} (h : e ∈ firsts (·.id) es) :
    (Text.lines (moduleText ((firsts (·.id) es).map line)).toList).filter (mapsId e.id) = [line e] := by
  have hne : es ≠ [] := by
    rintro rfl
    cases h
  have hopening : mapsId e.id opening = false := rfl
  have hclosing : mapsId e.id closing = false := rfl
  have hlines : ((firsts (·.id) es).map line).filter (mapsId e.id) = [line e] := by
    rw [List.filter_map]
    have hone : (firsts (·.id) es).filter (mapsId e.id ∘ line) = [e] :=
      filter_key_eq (·.id) (firsts_nodup _ es) h fun b _ => mapsId_line e.id b
    rw [hone, List.map_singleton]
  rw [lines_moduleText hne, List.cons_append, List.filter_cons_of_neg (by simp [hopening]), List.filter_append, hlines,
    List.filter_cons_of_neg (by simp [hclosing])]
  rfl

/-! ## Implementations -/

/-- A missing implementation ends the loop; otherwise it makes the lines of the entries with new ids. -/
theorem foldlM_addEntry (fs : FileSystem) (es : List BundleEntry) (made : List String × List (List Char)) :
    (es.foldlM (addEntry fs) made).map (·.2) =
      match es.find? fun e => !fs.exists? e.path with
      | some e => .error (.missingImplementation e.id e.path)
      | none => .ok (made.2 ++ ((firsts (·.id) es).filter fun e => e.id ∉ made.1).map line) := by
  induction es generalizing made with
  | nil => exact congrArg Except.ok (List.append_nil _).symm
  | cons e es ih =>
    rw [List.foldlM_cons, addEntry, List.find?_cons]
    cases fs.exists? e.path with
    | false => rfl
    | true =>
      rw [if_neg (by decide)]
      by_cases hseen : e.id ∈ made.1
      · rw [if_pos hseen, filter_firsts_of_mem BundleEntry.id hseen]
        exact ih made
      · have hmade := ih (e.id :: made.1, made.2 ++ [line e])
        rw [List.append_assoc] at hmade
        rw [if_neg hseen, filter_firsts_of_notMem BundleEntry.id hseen fun _ => List.mem_cons]
        exact hmade

theorem moduleMap?_eq (fs : FileSystem) (es : List BundleEntry) :
    moduleMap? fs es = match es.find? fun e => !fs.exists? e.path with
      | some e => .error (.missingImplementation e.id e.path)
      | none => .ok (moduleText ((firsts (·.id) es).map line)) := by
  have hloop := congrArg (Except.map moduleText) (foldlM_addEntry fs es ([], []))
  have hall : (firsts (·.id) es).filter (fun e => decide (e.id ∉ ([] : List String))) = firsts (·.id) es :=
    List.filter_eq_self.mpr fun e _ => by simp
  rw [hall] at hloop
  have hmap : moduleMap? fs es = ((es.foldlM (addEntry fs) ([], [])).map (·.2)).map moduleText := by
    rw [moduleMap?]
    cases es.foldlM (addEntry fs) ([], []) <;> rfl
  rw [hmap, hloop]
  cases es.find? fun e => !fs.exists? e.path <;> rfl

theorem moduleMap_ok_iff {fs : FileSystem} {es : List BundleEntry} {text : String} :
    moduleMap fs es = .ok text ↔
      (∀ e ∈ es, fs.exists? e.path = true) ∧ text = moduleText ((firsts (·.id) es).map line) := by
  rw [moduleMap, moduleMap?_eq]
  cases hfind : es.find? fun e => !fs.exists? e.path with
  | none =>
    have hall : ∀ e ∈ es, fs.exists? e.path = true := by simpa using List.find?_eq_none.mp hfind
    exact ⟨fun h => ⟨hall, (Except.ok.inj h).symm⟩, fun h => congrArg Except.ok h.2.symm⟩
  | some e =>
    have hmem := List.mem_of_find?_eq_some hfind
    have hmissing := List.find?_some hfind
    constructor
    · intro h
      cases h
    · rintro ⟨hall, -⟩
      simp [hall e hmem] at hmissing

end Bundle

end PatternCatalog
