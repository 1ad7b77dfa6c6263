/-
  PatternCatalog.Proofs.Bundle.Reader — a module map is read back as its entries.

  A reader goes through a module map line by line. Between the first line and the last each line
  has two string literals, an id and a path (`readLine?`), or it is empty, as in the map of no
  entries. Literals say what they quote, whatever quotes, backslashes, line ends or braces that is,
  and a line is one line for that reason:
  - `readLine?_line`: a line is read as its entry.
  - `read?_moduleText`: the map is read as its entries, the first of each id.
  - `module_map_reads_back`: a map that is made reads back; it is not made exactly when an
    implementation does not exist, and then the first such entry is named, whether or not its id
    came before.
-/

import PatternCatalog.Proofs.Bundle

namespace PatternCatalog

/-! ## Literals -/

namespace Json

/-- The string literal at the head of a text, and the rest. -/
def literal? : List Char → Option (String × List Char)
  | '"' :: s => (stringBody [] none s).map fun (cs, rest) => (String.ofList cs, rest)
  | _ => none

theorem literal?_quote (s : String) (rest : List Char) : literal? (quote s.toList ++ rest) = some (s, rest) := by
  have hbody := stringBody_quoted [] s.toList rest
  simp only [quote, List.cons_append, List.append_assoc, List.nil_append, literal?, hbody, Option.map_some, List.reverse_nil,
    String.ofList_toList]

end Json

namespace Text

theorem dropStart?_append (head s : List Char) : dropStart? (head ++ s) head = some s := by
  have hbegins : head.isPrefixOf (head ++ s) = true := List.isPrefixOf_iff_prefix.mpr (List.prefix_append head s)
  rw [dropStart?, if_pos hbegins, List.drop_left]

end Text

namespace Bundle

open Text (dropStart?)

/-! ## The reader -/

/-- The entry that a line maps: the texts of its two literals. -/
def readLine? (l : List Char) : Option BundleEntry := do
  let (id, s) ← dropStart? l "  ".toList >>= Json.literal?
  let (path, s) ← dropStart? s ": () => import(".toList >>= Json.literal?
  if s = "),".toList then some ⟨id, ⟨path⟩⟩ else none

/-- The entries that a module map maps, line by line; none for another text. -/
def read? (text : String) : Option (List BundleEntry) :=
  match Text.lines text.toList with
  | [] => none
  | first :: rest =>
    if first = opening ∧ rest.getLast? = some closing then (rest.dropLast.filter (!·.isEmpty)).mapM readLine? else none

/-! ## Reading back -/

theorem readLine?_line (e : BundleEntry) : readLine? (line e) = some e := by
  have hline : line e = "  ".toList ++ (Json.quote e.id.toList ++
      (": () => import(".toList ++ (Json.quote e.path.text.toList ++ "),".toList))) := by
    simp only [line, List.append_assoc]
  rw [readLine?, hline, Text.dropStart?_append]
  simp only [bind, Option.bind_some, Json.literal?_quote, Text.dropStart?_append, if_true]

theorem mapM_readLine? (es : List BundleEntry) : (es.map line).mapM readLine? = some es := by
  induction es with
  | nil => rfl
  | cons e es ih => rw [List.map_cons, List.mapM_cons, readLine?_line, ih]; rfl

theorem line_ne_nil (e : BundleEntry) : line e ≠ [] := by
  rw [line_eq, lineStart]
  exact List.cons_ne_nil _ _

theorem read?_moduleText (es : List BundleEntry) : read? (moduleText ((firsts (·.id) es).map line)) = some (firsts (·.id) es) := by
  by_cases hes : es = []
  · rw [hes]
    decide
  · have hlines : ((firsts (·.id) es).map line).filter (!·.isEmpty) = (firsts (·.id) es).map line := by
      refine List.filter_eq_self.mpr fun l hl => ?_
      obtain ⟨e, -, rfl⟩ := List.mem_map.mp hl
      simpa using line_ne_nil e
    rw [read?, lines_moduleText hes, List.cons_append]
    simp only [List.getLast?_concat, List.dropLast_concat, and_self, if_true, hlines, mapM_readLine?]

/-! ## Missing implementations -/

theorem moduleMap_error_iff {fs : FileSystem} {es : List BundleEntry} {fault : BundleFault} :
    moduleMap fs es = .error fault ↔ ∃ before e after, es = before ++ e :: after ∧
      (∀ b ∈ before, fs.exists? b.path = true) ∧ fs.exists? e.path = false ∧
        fault = .error (.missingImplementation e.id e.path) := by
  have hmap : moduleMap fs es = .error fault ↔ ∃ e, (es.find? fun e => !fs.exists? e.path) = some e ∧
      fault = .error (.missingImplementation e.id e.path) := by
    rw [moduleMap, moduleMap?_eq]
    cases es.find? fun e => !fs.exists? e.path with
    | none =>
      constructor
      · rintro ⟨⟩
      · rintro ⟨_, ⟨⟩, _⟩
    | some e =>
      constructor
      · exact fun h => ⟨e, rfl, (Except.error.inj h).symm⟩
      · rintro ⟨_, ⟨rfl⟩, rfl⟩
        rfl
  rw [hmap]
  constructor
  · rintro ⟨e, hfind, hfault⟩
    obtain ⟨hmissing, before, after, hes, hbefore⟩ := List.find?_eq_some_iff_append.mp hfind
    exact ⟨before, e, after, hes, fun b hb => by simpa using hbefore b hb, by simpa using hmissing, hfault⟩
  · rintro ⟨before, e, after, hes, hbefore, hmissing, hfault⟩
    refine ⟨e, List.find?_eq_some_iff_append.mpr ⟨?_, before, after, hes, ?_⟩, hfault⟩
    · simpa using hmissing
    · simpa using hbefore

/-! ## The module map -/

theorem module_map_reads_back (fs : FileSystem) (es : List BundleEntry) :
    ((∃ fault, moduleMap fs es = .error fault) ↔ ∃ e ∈ es, fs.exists? e.path = false) ∧
      (∀ fault, moduleMap fs es = .error fault → ∃ before e after, es = before ++ e :: after ∧
        (∀ b ∈ before, fs.exists? b.path = true) ∧ fs.exists? e.path = false ∧
          fault = .error (.missingImplementation e.id e.path)) ∧
      ∀ text, moduleMap fs es = .ok text → read? text = some (firsts (·.id) es) := by
  refine ⟨⟨fun ⟨_, h⟩ => ?_, fun ⟨e, he, hmissing⟩ => ?_⟩, fun _ => moduleMap_error_iff.mp, fun text h => ?_⟩
  · obtain ⟨before, e, after, rfl, -, hmissing, -⟩ := moduleMap_error_iff.mp h
    exact ⟨e, List.mem_append_right _ List.mem_cons_self, hmissing⟩
  · cases hmap : moduleMap fs es with
    | error fault => exact ⟨fault, rfl⟩
    | ok text =>
      have hexists := (moduleMap_ok_iff.mp hmap).1 e he
      rw [hmissing] at hexists
      cases hexists
  · rw [(moduleMap_ok_iff.mp h).2, read?_moduleText]

/-- Entries with marks of strings and modules in their ids and paths; the last one has the id of the first. -/
def oddEntries : List BundleEntry :=
  [⟨"a\"b\\c", ⟨"/lib/\x7b\n\x7d.js"⟩⟩, ⟨"\x7d;", ⟨"/lib/d.js"⟩⟩, ⟨"a\"b\\c", ⟨"/lib/e.js"⟩⟩]

def oddFiles : List (Path × String) := [(⟨"/lib/\x7b\n\x7d.js"⟩, ""), (⟨"/lib/d.js"⟩, ""), (⟨"/lib/e.js"⟩, "")]

/-- With all three files the map has two entries; without the last one that file is named, though the id came before. -/
theorem odd_entries_read_back :
    (∃ text, moduleMap (.memory oddFiles) oddEntries = .ok text ∧ read? text = some (oddEntries.take 2)) ∧
      ∃ before e after, oddEntries = before ++ e :: after ∧
        (∀ b ∈ before, (FileSystem.memory oddFiles.dropLast).exists? b.path = true) ∧
        (FileSystem.memory oddFiles.dropLast).exists? e.path = false ∧
        BundleFault.error (.missingImplementation "a\"b\\c" ⟨"/lib/e.js"⟩) = .error (.missingImplementation e.id e.path) := by
  have hmade : moduleMap (.memory oddFiles) oddEntries = .ok (moduleText ((firsts (·.id) oddEntries).map line)) :=
    moduleMap_ok_iff.mpr ⟨by decide +kernel, rfl⟩
  have hfault : moduleMap (.memory oddFiles.dropLast) oddEntries =
      .error (.error (.missingImplementation "a\"b\\c" ⟨"/lib/e.js"⟩)) :=
    moduleMap_error_iff.mpr ⟨oddEntries.take 2, _, [], rfl, by decide +kernel, by decide +kernel, rfl⟩
  exact ⟨⟨_, hmade, (module_map_reads_back _ oddEntries).2.2 _ hmade⟩, (module_map_reads_back _ oddEntries).2.1 _ hfault⟩

end Bundle

end PatternCatalog
