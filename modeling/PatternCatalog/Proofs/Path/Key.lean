/-
  PatternCatalog.Proofs.Path.Key — normal forms of paths as keys.

  A path in normal form is normalized to itself, holds no `.`, and holds a `..` nowhere but at its
  start or right after its root (`normalize_normalize`, `parent_at_front`). So paths lead to one place
  just when they have one normal form, and what is stored by paths is stored by normal forms: of the
  rows stored at one normal form the last counts (`lastAt?_concat`, `lastAt?_iff`). The texts of a
  memory and the numbers of the files of a library are such rows (`Store.text?_storeOf`,
  `Library.file?_eq_lastAt?`), so a spelling never matters to either (`normal_form_is_key`).
-/

import Mathlib.Data.List.Induction
import PatternCatalog.FileSystem
import PatternCatalog.Library
import PatternCatalog.Proofs.Path

namespace PatternCatalog

namespace Path

/-! ## The shape of normal forms -/

theorem normalize_normalize (p : Path) : p.normalize.normalize = p.normalize :=
  normalize_eq_iff.mpr (components_normalize_normalize p)

theorem kept_normalize (p : Path) : Kept p.normalize.components.reverse := by
  rw [components_normalize, normalizeComponents, List.reverse_reverse]
  exact kept_componentsOf p.text.toList

theorem current_not_mem_normalize (p : Path) : .current ∉ p.normalize.components := by
  intro hcurrent
  rcases (kept_normalize p).mem (List.mem_reverse.mpr hcurrent) with h | h
  · cases h
  · cases h

/-- Below a `..` nothing is kept but a root. -/
theorem Kept.below_parent {kept above below : List Component} (h : Kept kept) (hkept : kept = above ++ .parent :: below) :
    below = [] ∨ below = [.root] := by
  induction above generalizing kept with
  | nil =>
    subst hkept
    cases h with
    | parent => exact .inl rfl
    | rootParent => exact .inr rfl
  | cons c above ih =>
    subst hkept
    exact ih h.tail rfl

/-- In a normal form a `..` comes first, or right after the root. -/
theorem parent_at_front {p : Path} {before after : List Component} (h : p.normalize.components = before ++ .parent :: after) :
    before = [] ∨ before = [.root] := by
  have hkept : p.normalize.components.reverse = after.reverse ++ .parent :: before.reverse := by simp [h]
  rcases (kept_normalize p).below_parent hkept with hbefore | hbefore
  · exact .inl (by simpa using hbefore)
  · exact .inr (by simpa using hbefore)

/-! ## Rows stored by paths -/

section

variable {β : Type} (rows : List (Path × β))

/-- What the last row holds whose path has the normal form of a path. -/
def lastAt? (q : Path) : Option β :=
  (rows.reverse.find? fun row => row.1.normalize.components == q.normalize.components).map (·.2)

/-- A row whose path has the normal form of a path, with no such row after it. -/
def LastAt (q : Path) (b : β) : Prop :=
  ∃ before p after, rows = before ++ (p, b) :: after ∧ p.normalize = q.normalize ∧ ∀ row ∈ after, row.1.normalize ≠ q.normalize

/-- A new row counts for every spelling of its path, and changes nothing for any other path. -/
theorem lastAt?_concat (p : Path) (b : β) (q : Path) :
    lastAt? (rows ++ [(p, b)]) q = if p.normalize = q.normalize then some b else lastAt? rows q := by
  rw [lastAt?, List.reverse_append, List.reverse_singleton, List.singleton_append, List.find?_cons]
  by_cases h : p.normalize = q.normalize
  · simp [h]
  · have hkey : (p.normalize.components == q.normalize.components) = false :=
      beq_eq_false_iff_ne.mpr fun hcomponents => h (normalize_eq_iff.mpr hcomponents)
    rw [if_neg h, hkey, lastAt?]

variable {rows}

theorem lastAt_concat_iff {p q : Path} {b c : β} : LastAt (rows ++ [(p, b)]) q c ↔
    (p.normalize = q.normalize ∧ c = b) ∨ (p.normalize ≠ q.normalize ∧ LastAt rows q c) := by
  constructor
  · rintro ⟨before, p', after, hrows, hp, hafter⟩
    rcases List.eq_nil_or_concat after with rfl | ⟨after, row, rfl⟩
    · obtain ⟨-, hlast⟩ := List.append_inj' hrows rfl
      obtain ⟨rfl, rfl⟩ := Prod.mk.inj (List.cons.inj hlast).1
      exact .inl ⟨hp, rfl⟩
    · rw [List.concat_eq_append, ← List.cons_append, ← List.append_assoc] at hrows
      obtain ⟨hinit, hlast⟩ := List.append_inj' hrows rfl
      rw [List.concat_eq_append] at hafter
      have hrow := hafter row (List.mem_append_right _ List.mem_cons_self)
      rw [← (List.cons.inj hlast).1] at hrow
      exact .inr ⟨hrow, before, p', after, hinit, hp, fun r hr => hafter r (List.mem_append_left _ hr)⟩
  · rintro (⟨hp, rfl⟩ | ⟨hp, before, p', after, rfl, hp', hafter⟩)
    · exact ⟨rows, p, [], rfl, hp, List.forall_mem_nil _⟩
    · refine ⟨before, p', after ++ [(p, b)], by simp, hp', List.forall_mem_append.mpr ⟨hafter, ?_⟩⟩
      exact List.forall_mem_singleton.mpr hp

/-- After any rows the last one at a normal form is found. -/
theorem lastAt?_iff {q : Path} {b : β} : lastAt? rows q = some b ↔ LastAt rows q b := by
  induction rows using List.reverseRecOn generalizing b with
  | nil =>
    refine ⟨fun h => (nomatch h), fun ⟨before, p, after, h, _⟩ => ?_⟩
    exact absurd h (by simp)
  | append_singleton rows row ih =>
    obtain ⟨p, c⟩ := row
    rw [lastAt?_concat, lastAt_concat_iff]
    by_cases h : p.normalize = q.normalize
    · simp [h, eq_comm]
    · simp [h, ih]

theorem lastAt?_isSome_iff {q : Path} : (lastAt? rows q).isSome = true ↔ ∃ row ∈ rows, row.1.normalize = q.normalize := by
  rw [lastAt?, Option.isSome_map, List.find?_isSome]
  simp only [List.mem_reverse, beq_iff_eq, normalize_eq_iff]

/-- Spellings of one path find the same row. -/
theorem lastAt?_spelled {p q : Path} (h : p.normalize = q.normalize) : lastAt? rows p = lastAt? rows q := by
  rw [lastAt?, h, lastAt?]

end

end Path

/-! ## Memories and libraries -/

theorem FileSystem.Store.text?_storeOf (files : List (Path × String)) (q : Path) :
    (storeOf files).text? q = Path.lastAt? files q := by
  rw [text?, storeOf, ← List.map_reverse, List.find?_map, Option.map_map]
  rfl

theorem FileSystem.memory_read_iff {files : List (Path × String)} {q : Path} {text : String} :
    (memory files).read q = .ok text ↔ Path.LastAt files q text := by
  rw [← Path.lastAt?_iff, ← Store.text?_storeOf]
  constructor
  · exact Store.text?_of_read
  · intro h
    have hread : (memory files).read q = (storeOf files).read q := rfl
    rw [hread, Store.read, h]

theorem FileSystem.memory_exists_iff {files : List (Path × String)} {q : Path} :
    (memory files).exists? q = true ↔ ∃ f ∈ files, f.1.normalize = q.normalize := by
  rw [← Path.lastAt?_isSome_iff, ← Store.text?_storeOf]
  rfl

namespace Library

/-- The paths of the files with the numbers of the files. -/
def numbered (l : Library) : List (Path × Nat) := l.files.zipIdx.map fun (f, i) => (f.path, i)

theorem file?_eq_lastAt? (l : Library) (q : Path) : l.file? q = Path.lastAt? l.numbered q := by
  rw [file?, Path.lastAt?, numbered, ← List.map_reverse, List.find?_map, Option.map_map]
  rfl

theorem exists_numbered {l : Library} {f : SourceFile} (h : f ∈ l.files) : ∃ row ∈ l.numbered, row.1 = f.path := by
  obtain ⟨i, hi⟩ := List.mem_iff_getElem?.mp h
  exact ⟨(f.path, i), List.mem_map.mpr ⟨(f, i), List.mem_zipIdx_iff_getElem?.mpr hi, rfl⟩, rfl⟩

end Library

/-- The normal form of a path is a key: it is a normal form of its own, memories hold one text at it, the last one
stored, and every spelling of the path of a file finds the number of the last file with that normal form. -/
theorem Path.normal_form_is_key (p : Path) (files : List (Path × String)) (l : Library) :
    p.normalize.normalize = p.normalize ∧ .current ∉ p.normalize.components ∧
      (∀ before after, p.normalize.components = before ++ .parent :: after → before = [] ∨ before = [.root]) ∧
      ((FileSystem.memory files).exists? p = true ↔ ∃ f ∈ files, f.1.normalize = p.normalize) ∧
      (∀ text, (FileSystem.memory files).read p = .ok text ↔ LastAt files p text) ∧
      l.file? p = l.file? p.normalize ∧
      ∀ f ∈ l.files, f.path.normalize = p.normalize →
        ∃ i, l.file? p = some i ∧ l.file? f.path.normalize = some i ∧ LastAt l.numbered p i := by
  refine ⟨normalize_normalize p, current_not_mem_normalize p, fun _ _ => parent_at_front, FileSystem.memory_exists_iff,
    fun _ => FileSystem.memory_read_iff, ?_, fun f hf hpath => ?_⟩
  · rw [Library.file?_eq_lastAt?, Library.file?_eq_lastAt?, lastAt?_spelled (normalize_normalize p)]
  · obtain ⟨row, hrow, hsame⟩ := Library.exists_numbered hf
    have hfound : (lastAt? l.numbered p).isSome = true := lastAt?_isSome_iff.mpr ⟨row, hrow, by rw [hsame, hpath]⟩
    obtain ⟨i, hi⟩ := Option.isSome_iff_exists.mp hfound
    refine ⟨i, ?_, ?_, lastAt?_iff.mp hi⟩
    · rw [Library.file?_eq_lastAt?, hi]
    · rw [Library.file?_eq_lastAt?, lastAt?_spelled (normalize_normalize f.path), lastAt?_spelled hpath, hi]

/-- Four spellings of one path: the later text is read, and the file is found. -/
theorem Path.respelled_index_found :
    let files : List (Path × String) := [(⟨"/lib/x/../index.d.ts"⟩, "old"), (⟨"/lib/./index.d.ts"⟩, "new")]
    let f : SourceFile := ⟨⟨"/lib/y/../index.d.ts"⟩, {}⟩
    let l : Library := ⟨⟨"/lib"⟩, none, [".d.ts"], [f]⟩
    let p : Path := ⟨"/lib//index.d.ts"⟩
    f ∈ l.files ∧ f.path.normalize = p.normalize ∧ (FileSystem.memory files).read p = .ok "new" ∧
      ∃ i, l.file? p = some i ∧ l.file? f.path.normalize = some i ∧ LastAt l.numbered p i := by
  intro files f l p
  have hkey := normal_form_is_key p files l
  have hf : f ∈ l.files := List.mem_singleton_self f
  have hsame : f.path.normalize = p.normalize := by decide
  have hlast : LastAt files p "new" :=
    ⟨[(⟨"/lib/x/../index.d.ts"⟩, "old")], ⟨"/lib/./index.d.ts"⟩, [], rfl, by decide, List.forall_mem_nil _⟩
  exact ⟨hf, hsame, (hkey.2.2.2.2.1 "new").mpr hlast, hkey.2.2.2.2.2.2 f hf hsame⟩

end PatternCatalog
