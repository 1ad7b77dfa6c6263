/-
  PatternCatalog.FileSystem — the files an analysis can see.

  A file system answers two questions, whether a path is a file and what text it holds; a
  failed read comes with its reason. It holds finitely many texts (`held`), and its answers do
  not depend on how a path is spelled (`alike`). `FileSystem.memory` holds texts under
  normalized paths, the last one stored under a path counts. `FileSystem.disk` is a directory
  tree of octets, in which a `..` step leaves the directory that the steps before it really
  reached.
-/

import PatternCatalog.Path.Normal
import PatternCatalog.Total

namespace PatternCatalog

/-- Texts by the components of their normalized paths. -/
abbrev FileSystem.Store := List (List Path.Component × String)

structure FileSystem where
  exists? : Path → Bool
  read : Path → Except String String
  /-- The texts that may be read. -/
  contents : FileSystem.Store
  held : ∀ {p text}, read p = .ok text → (p.normalize.components, text) ∈ contents
  existing : ∀ {p text}, read p = .ok text → exists? p
  /-- A spelling that ends in a slash may mean nothing where another one means a file. -/
  alike : ∀ {p q}, p.components = q.components → exists? p → exists? q → read p = read q

namespace FileSystem

/-- The contents with their paths, counted together. -/
def size (fs : FileSystem) : Nat := fs.contents.length + total (fs.contents.map fun row => row.1.length + row.2.utf8ByteSize)

/-! ## Memory -/

def storeOf (files : List (Path × String)) : Store := files.map fun f => (f.1.normalize.components, f.2)

namespace Store

/-- The last text stored under a path. -/
def text? (s : Store) (p : Path) : Option String :=
  let key := p.normalize.components
  (s.reverse.find? (·.1 == key)).map (·.2)

theorem mem_of_text? {s : Store} {p : Path} {text : String} (h : s.text? p = some text) :
    (p.normalize.components, text) ∈ s := by
  obtain ⟨row, hrow, rfl⟩ := Option.map_eq_some_iff.mp h
  have hkey : row.1 = p.normalize.components := by simpa using List.find?_some hrow
  rw [← hkey]
  exact List.mem_reverse.mp (List.mem_of_find?_eq_some hrow)

def read (s : Store) (p : Path) : Except String String :=
  match s.text? p with
  | some text => .ok text
  | none => .error p.text

theorem text?_of_read {s : Store} {p : Path} {text : String} (h : s.read p = .ok text) : s.text? p = some text := by
  unfold read at h
  split at h
  · next htext => rw [htext, Except.ok.inj h]
  · cases h

theorem text?_alike (s : Store) {p q : Path} (h : p.components = q.components) : s.text? p = s.text? q := by
  rw [text?, text?, Path.normalize, Path.normalize, h]

end Store

def ofStore (store : Store) : FileSystem where
  exists? p := (store.text? p).isSome
  read := store.read
  contents := store
  held h := Store.mem_of_text? (Store.text?_of_read h)
  existing h := by rw [Store.text?_of_read h]; rfl
  alike h hp hq := by
    obtain ⟨text, hp⟩ := Option.isSome_iff_exists.mp hp
    rw [Store.read, Store.read, ← store.text?_alike h, hp]

def memory (files : List (Path × String)) : FileSystem := ofStore (storeOf files)

theorem ok_of_ite {c : Bool} {x : Except String String} {text reason : String}
    (h : (if c then .error reason else x) = .ok text) : x = .ok text := by
  cases c with
  | true => cases h
  | false => exact h

/-- The same files, of which some exist but cannot be read. -/
def withUnreadable (fs : FileSystem) (paths : List Path) : FileSystem :=
  let keys := paths.map (·.normalize.components)
  { fs with
    read := fun p => if keys.contains p.normalize.components then .error "unreadable" else fs.read p
    held := fun h => fs.held (ok_of_ite h)
    existing := fun h => fs.existing (ok_of_ite h)
    alike := fun {p q} h hp hq => by rw [Path.normalize, Path.normalize, h, fs.alike h hp hq] }

/-! ## Disk -/

/-- A file with its place below the working directory, and its octets. -/
structure DiskFile where
  place : List String
  octets : ByteArray

/-- Whether a place is the working directory or a directory on the way to some file. -/
def isDirectory (files : List DiskFile) (place : List String) : Bool :=
  place.isEmpty || files.any fun f => place.isPrefixOf f.place && place.length < f.place.length

/-- Follows path steps from a directory; every step but the last has to reach a directory. -/
def follow? (files : List DiskFile) (place : List String) : List Path.Component → Option (List String)
  | [] => some place
  | .root :: _ => none
  | .current :: r => if isDirectory files place then follow? files place r else none
  | .parent :: r =>
    if isDirectory files place ∧ place ≠ [] then follow? files place.dropLast r else none
  | .name s :: r => if isDirectory files place then follow? files (place ++ [s]) r else none

/-- Whether the text of a path demands that it be a directory. -/
def demandsDirectory (p : Path) : Bool :=
  let s := p.text.toList
  s.getLast? == some '/' || "/.".toList.isSuffixOf s

def find? (files : List DiskFile) (p : Path) : Option DiskFile :=
  if demandsDirectory p then none
  else
    match follow? files [] p.components with
    | some place => files.find? fun f => f.place == place
    | none => none

def readDisk (files : List DiskFile) (p : Path) : Except String String :=
  match find? files p with
  | some f =>
    match String.fromUTF8? f.octets with
    | some text => .ok text
    | none => .error "stream did not contain valid UTF-8"
  | none =>
    match follow? files [] p.components with
    | some place =>
      if isDirectory files place then .error "Is a directory (os error 21)"
      else .error "No such file or directory (os error 2)"
    | none => .error "No such file or directory (os error 2)"

/-- The files that are texts. -/
def texts (files : List DiskFile) : Store :=
  files.filterMap fun f => (String.fromUTF8? f.octets).map fun text => (f.place.map .name, text)

/-- The steps that lead to a place are those that normalization keeps. -/
theorem follow?_kept {files : List DiskFile} {cs : List Path.Component} {place reached : List String}
    (h : follow? files place cs = some reached) :
    cs.foldl Path.normalizeStep (place.reverse.map .name) = reached.reverse.map .name := by
  induction cs generalizing place with
  | nil => rw [← Option.some.inj h]; rfl
  | cons c cs ih =>
    cases c with
    | root => cases h
    | current =>
      rw [follow?] at h
      split at h
      · exact ih h
      · cases h
    | parent =>
      rw [follow?] at h
      split at h
      · next hplace =>
        have hstep := ih h
        rw [← List.tail_reverse] at hstep
        cases hrev : place.reverse with
        | nil => exact absurd (List.reverse_eq_nil_iff.mp hrev) hplace.2
        | cons last before =>
          rw [hrev] at hstep
          exact hstep
      · cases h
    | name s =>
      rw [follow?] at h
      split at h
      · have hstep := ih h
        rwa [List.reverse_append] at hstep
      · cases h

/-- A file is found where the steps of its path lead. -/
theorem find?_some {files : List DiskFile} {p : Path} {f : DiskFile} (h : find? files p = some f) :
    f ∈ files ∧ p.normalize.components = f.place.map .name := by
  unfold find? at h
  split at h
  · cases h
  · split at h
    · next place hplace =>
      have hkept : p.components.foldl Path.normalizeStep [] = place.reverse.map .name := follow?_kept hplace
      have hf : f.place = place := by simpa using List.find?_some h
      refine ⟨List.mem_of_find?_eq_some h, ?_⟩
      rw [Path.components_normalize, Path.normalizeComponents, hkept, hf, List.map_reverse, List.reverse_reverse]
    · cases h

theorem find?_alike {files : List DiskFile} {p q : Path} (h : p.components = q.components) (hp : (find? files p).isSome)
    (hq : (find? files q).isSome) : find? files p = find? files q := by
  unfold find? at hp hq ⊢
  by_cases hdir : demandsDirectory p = true
  · rw [if_pos hdir] at hp
    cases hp
  · by_cases hdir' : demandsDirectory q = true
    · rw [if_pos hdir'] at hq
      cases hq
    · rw [if_neg hdir, if_neg hdir', h]

theorem find?_of_readDisk {files : List DiskFile} {p : Path} {text : String} (h : readDisk files p = .ok text) :
    ∃ f, find? files p = some f ∧ String.fromUTF8? f.octets = some text := by
  unfold readDisk at h
  split at h
  · next f hf =>
    refine ⟨f, hf, ?_⟩
    split at h
    · next htext => rw [htext, Except.ok.inj h]
    · cases h
  · split at h
    · split at h <;> cases h
    · cases h

def disk (files : List DiskFile) : FileSystem where
  exists? p := (find? files p).isSome
  read := readDisk files
  contents := texts files
  held h := by
    obtain ⟨f, hf, htext⟩ := find?_of_readDisk h
    obtain ⟨hmem, hplace⟩ := find?_some hf
    exact List.mem_filterMap.mpr ⟨f, hmem, by rw [htext, hplace]; rfl⟩
  existing h := by
    obtain ⟨f, hf, -⟩ := find?_of_readDisk h
    rw [hf]
    rfl
  alike h hp hq := by rw [readDisk, readDisk, find?_alike h hp hq, h]

end FileSystem

end PatternCatalog
