/-
  PatternCatalog.Proofs.Run.Resolved — specifiers mean among the files what they meant to the walk.

  A walk asks the file system for the first candidate of a specifier, a library asks its own
  files. They agree, since the files of a walk hold every target of a relative specifier of
  theirs: where existing files can be read, a specifier leads somewhere just when the walk
  found a target for it, and then to a file at the normalized path of the target
  (`specifiers_resolved`). A library tells its files apart by normalized paths alone, so of
  several files at one such path it finds the last; an extension of dots can bring that about
  (`a_dotted_target_is_another_file`), others cannot.
  - `paired_resolved`: a file and the one it imports.
-/

import Mathlib.Data.List.Nodup
import PatternCatalog.Proofs.Discovery.Walk
import PatternCatalog.Proofs.Run

namespace PatternCatalog

/-- Two searches agree on the first item where one succeeds, if the other succeeds nowhere before it. -/
theorem findSome?_eq_find?_bind {α β : Type} {p : α → Bool} {f : α → Option β} {as : List α}
    (hsome : ∀ a ∈ as, (f a).isSome → p a) (hfirst : ∀ a, as.find? p = some a → (f a).isSome) :
    as.findSome? f = (as.find? p).bind f := by
  induction as with
  | nil => rfl
  | cons a as ih =>
    rw [List.findSome?_cons, List.find?_cons]
    by_cases ha : p a = true
    · obtain ⟨b, hb⟩ := Option.isSome_iff_exists.mp (hfirst a (by rw [List.find?_cons, ha]))
      simp [ha, hb]
    · have hnone : f a = none := by
        cases hf : f a with
        | none => rfl
        | some b => exact absurd (hsome a List.mem_cons_self (by rw [hf]; rfl)) ha
      have hrest := ih (fun b hb => hsome b (List.mem_cons_of_mem _ hb)) fun b hb =>
        hfirst b (by simpa [List.find?_cons, ha] using hb)
      simp [ha, hnone, hrest]

/-! ## Files of a library -/

namespace Library

variable {l : Library}

/-- A file that a path leads to lies at its normalized path. -/
theorem file?_some {p : Path} {i : Nat} (h : l.file? p = some i) :
    ∃ g, l.files[i]? = some g ∧ g.path.normalize = p.normalize := by
  obtain ⟨⟨g, j⟩, hfind, rfl⟩ := Option.map_eq_some_iff.mp h
  have hmem := List.mem_reverse.mp (List.mem_of_find?_eq_some hfind)
  have hkey := List.find?_some hfind
  exact ⟨g, List.mem_zipIdx_iff_getElem?.mp hmem, Path.normalize_eq_iff.mpr (by simpa using hkey)⟩

theorem file?_isSome {p : Path} {g : SourceFile} (hg : g ∈ l.files) (h : g.path.normalize = p.normalize) :
    (l.file? p).isSome := by
  obtain ⟨i, hi⟩ := List.mem_iff_getElem?.mp hg
  unfold file?
  rw [Option.isSome_map, List.find?_isSome]
  exact ⟨(g, i), List.mem_reverse.mpr (List.mem_zipIdx_iff_getElem?.mpr hi), by simp [h]⟩

theorem after?_some {p s rest : List Char} (h : after? p s = some rest) : s = p ++ rest := by
  fun_induction after? p s with
  | case1 s => exact Option.some.inj h
  | case2 ps c cs ih => rw [ih h, List.cons_append]
  | case3 => cases h
  | case4 => cases h

section Relative

variable (hname : ∀ name, l.packageName = some name → name.toList.head? ≠ some '.') {specifier : String}
  (hrelative : Specifier.isRelative specifier = true)

include hname hrelative

/-- A relative specifier does not start as the name of the library does. -/
theorem ownPath?_relative : l.ownPath? specifier = none := by
  have hdot := Specifier.head?_eq_dot hrelative
  unfold ownPath?
  cases hpackage : l.packageName with
  | none => rfl
  | some package =>
    cases hafter : after? package.toList specifier.toList with
    | none => simp [hafter]
    | some rest =>
      have hspecifier := after?_some hafter
      have hstart : package.toList = [] := by
        cases hchars : package.toList with
        | nil => rfl
        | cons c cs =>
          rw [hspecifier, hchars] at hdot
          exact absurd (by rw [hchars]; exact hdot) (hname package hpackage)
      rw [hstart, List.nil_append] at hspecifier
      rw [hspecifier] at hdot
      obtain ⟨tail, rfl⟩ := List.head?_eq_some_iff.mp hdot
      simp [hafter]

/-- A relative specifier of a file in a directory means the first file at its candidates. -/
theorem module?_relative {i : Nat} {f : SourceFile} (hf : l.files[i]? = some f) (hempty : f.path.components ≠ [])
    (hroot : f.path.components ≠ [.root]) :
    l.module? i specifier = l.candidateFile? (f.path.parent?.getD ⟨""⟩) specifier := by
  obtain ⟨dir, hdir⟩ : ∃ dir, f.path.parent? = some dir := by
    unfold Path.parent?
    split
    · next hlast => exact absurd (List.getLast?_eq_none_iff.mp hlast) hempty
    · next hlast => exact absurd (Path.componentsOf_getLast?_root hlast) hroot
    · exact ⟨_, rfl⟩
  simp [module?, ownPath?_relative hname hrelative, hrelative, hf, hdir]

end Relative

end Library

/-! ## Targets -/

namespace Discovery

theorem read_of_files {fs : FileSystem} {extensions : List String} {entry : Path} {found : List SourceFile}
    (h : files fs extensions entry = .ok found) : ∃ text, fs.read entry.normalize = .ok text := by
  dsimp only [files] at h
  cases hread : fs.read entry.normalize with
  | error reason => rw [hread] at h; cases h
  | ok text => exact ⟨text, rfl⟩

end Discovery

/-- A file system that can read what exists, by normalized paths alone. -/
structure FileSystem.Readable (fs : FileSystem) : Prop where
  read : ∀ p, fs.exists? p → ∃ text, fs.read p = .ok text
  normalized : ∀ p q, p.normalize = q.normalize → fs.exists? p = fs.exists? q

theorem FileSystem.memory_readable (files : List (Path × String)) : (memory files).Readable where
  read p h := by
    obtain ⟨text, htext⟩ := Option.isSome_iff_exists.mp h
    exact ⟨text, by simp [memory, ofStore, Store.read, htext]⟩
  normalized p q h := by simp [memory, ofStore, Store.text?, h]

namespace Run

open Discovery (target?)

variable {r : Run} {entry : Path} {found : List SourceFile}

theorem exact_of_discover (hfound : r.discover entry = .ok found)
    (hext : ∀ ext ∈ r.options.declarationExtensions, '/' ∉ ext.toList) :
    ∃ text, r.fs.read entry.normalize = .ok text ∧
      Discovery.Exact r.fs r.options.declarationExtensions ⟨entry.normalize, Module.parse text⟩ found := by
  obtain ⟨text, hread⟩ := Discovery.read_of_files (Except.mapError_ok hfound)
  obtain ⟨found', hfound', hexact⟩ := Discovery.files_exact hread hext
  obtain rfl : found' = found := Except.ok.inj (hfound'.symm.trans (Except.mapError_ok hfound))
  exact ⟨text, hread, hexact⟩

/-- Extensions that are more than dots lead to normalized paths only. -/
theorem normalized_of_discover (hfound : r.discover entry = .ok found)
    (hext : ∀ ext ∈ r.options.declarationExtensions, '/' ∉ ext.toList)
    (hdots : ∀ ext ∈ r.options.declarationExtensions, ∃ c ∈ ext.toList, c ≠ '.') :
    ∀ f ∈ found, f.path.normalize.components = f.path.components := by
  obtain ⟨text, -, hexact⟩ := exact_of_discover hfound hext
  intro f hf
  cases hexact.sound f hf with
  | entry => exact Path.components_normalize_normalize entry
  | step _ hleads =>
    obtain ⟨specifier, -, -, htarget, -⟩ := hleads
    rw [Path.components_normalize]
    exact (Specifier.candidate_kept (List.mem_of_find?_eq_some htarget) hext hdots).normalizeComponents_eq

/-- What a library makes of the relative specifiers of its files, where a walk has found targets for them. -/
structure ResolvesTargets (r : Run) (l : Library) (found : List SourceFile) : Prop where
  resolved : ∀ (i : Nat) f, found[i]? = some f → ∀ s ∈ f.module.dependencies, Specifier.isRelative s = true →
    ((l.module? i s).isSome ↔ (target? r.fs r.options.declarationExtensions f s).isSome)
  leads : ∀ (i : Nat) f, found[i]? = some f → ∀ s ∈ f.module.dependencies, Specifier.isRelative s = true →
    ∀ p, target? r.fs r.options.declarationExtensions f s = some p → ∀ j, l.module? i s = some j →
      ∃ g, found[j]? = some g ∧ g.path.normalize = p.normalize ∧
        ((found.map (·.path.normalize)).Nodup → g.path.components = p.components)
  /-- Files at one normalized path come from extensions of dots alone. -/
  distinct : (∀ ext ∈ r.options.declarationExtensions, ∃ c ∈ ext.toList, c ≠ '.') → (found.map (·.path.normalize)).Nodup

/-- Where what exists can be read, a library resolves the relative specifiers of its files as the walk did. -/
theorem specifiers_resolved (hfound : r.discover entry = .ok found) (hfs : r.fs.Readable)
    (hext : ∀ ext ∈ r.options.declarationExtensions, '/' ∉ ext.toList)
    (hplaces : ∀ f ∈ found, f.path.components ≠ [] ∧ f.path.components ≠ [.root]) {package : Json}
    (hname : ∀ name, package.stringField? "name" = some name → name.toList.head? ≠ some '.') (root : Path) :
    r.ResolvesTargets (r.setting root package found).library found := by
  obtain ⟨text, hread, hexact⟩ := exact_of_discover hfound hext
  have hparsed := Discovery.files_parsed (Except.mapError_ok hfound)
  have hlisted : ∀ f ∈ found, ∀ s ∈ f.module.dependencies, Specifier.isRelative s = true →
      ∀ p, target? r.fs r.options.declarationExtensions f s = some p → ∃ g ∈ found, g.path.components = p.components := by
    intro f hf s hs hrelative p hp
    obtain ⟨text, htext⟩ := hfs.read p (Discovery.target?_exists hp)
    have hleads : Discovery.Leads r.fs r.options.declarationExtensions f ⟨p, Module.parse text⟩ :=
      ⟨s, hs, hrelative, hp, text, htext, rfl⟩
    obtain ⟨g, hg, hsame, -⟩ := hexact.complete _ ((hexact.sound f hf).step hleads)
    exact ⟨g, hg, hsame⟩
  -- The library asks its files at the same candidates, and has none where nothing exists.
  have hmodule : ∀ (i : Nat) f, found[i]? = some f → ∀ s ∈ f.module.dependencies, Specifier.isRelative s = true →
      (r.setting root package found).library.module? i s =
        (target? r.fs r.options.declarationExtensions f s).bind (r.setting root package found).library.file? := by
    intro i f hi s hs hrelative
    have hf := List.mem_of_getElem? hi
    rw [Library.module?_relative hname hrelative hi (hplaces f hf).1 (hplaces f hf).2]
    refine findSome?_eq_find?_bind (fun p _ hp => ?_) fun p hp => ?_
    · obtain ⟨j, hj⟩ := Option.isSome_iff_exists.mp hp
      obtain ⟨g, hg, hsame⟩ := Library.file?_some hj
      obtain ⟨text, htext, -⟩ := hparsed g (List.mem_of_getElem? hg)
      rw [← hfs.normalized _ _ hsame]
      exact r.fs.existing htext
    · obtain ⟨g, hg, hsame⟩ := hlisted f hf s hs hrelative p hp
      exact Library.file?_isSome hg (by rw [Path.normalize, Path.normalize, hsame])
  refine ⟨fun i f hi s hs hrelative => ?_, fun i f hi s hs hrelative p hp j hj => ?_, fun hdots => ?_⟩
  · rw [hmodule i f hi s hs hrelative]
    cases hp : target? r.fs r.options.declarationExtensions f s with
    | none => rfl
    | some p =>
      obtain ⟨g, hg, hsame⟩ := hlisted f (List.mem_of_getElem? hi) s hs hrelative p hp
      simpa using Library.file?_isSome hg (by rw [Path.normalize, Path.normalize, hsame])
  · rw [hmodule i f hi s hs hrelative, hp, Option.bind_some] at hj
    obtain ⟨g, hg, hnormal⟩ := Library.file?_some hj
    refine ⟨g, hg, hnormal, fun hdistinct => ?_⟩
    obtain ⟨g', hg', hsame⟩ := hlisted f (List.mem_of_getElem? hi) s hs hrelative p hp
    have hnormal' : g'.path.normalize = p.normalize := by rw [Path.normalize, Path.normalize, hsame]
    rw [List.inj_on_of_nodup_map hdistinct (List.mem_of_getElem? hg) hg' (hnormal.trans hnormal'.symm), hsame]
  · have hnormalized := normalized_of_discover hfound hext hdots
    have hcomponents : (found.map (·.path.normalize)).map Path.components = found.map (·.path.components) := by
      simp only [List.map_map, Function.comp_def]
      exact List.map_congr_left hnormalized
    refine List.Nodup.of_map Path.components ?_
    rw [hcomponents]
    exact hexact.distinct

/-! ## A file and the one it imports -/

def pairedFiles : List (Path × String) := [(⟨"/lib/index.d.ts"⟩, "import './b';\n"), (⟨"/lib/b.d.ts"⟩, "")]

def paired : Run where
  digest := .sha256
  fs := .memory pairedFiles

def named : Json := .object [("name", .string "acme")]

theorem named_start : ∀ name, named.stringField? "name" = some name → name.toList.head? ≠ some '.' := by
  rintro name ⟨⟩
  decide

set_option maxRecDepth 100000 in
theorem paired_resolved : ∃ found, paired.discover ⟨"/lib/index.d.ts"⟩ = .ok found ∧ paired.fs.Readable ∧
    found.map (·.path) = [⟨"/lib/index.d.ts"⟩, ⟨"/lib/b.d.ts"⟩] ∧
    paired.ResolvesTargets (paired.setting ⟨"/lib"⟩ named found).library found := by
  have hstore : FileSystem.storeOf pairedFiles =
      [([.root, .name "lib", .name "index.d.ts"], "import './b';\n"), ([.root, .name "lib", .name "b.d.ts"], "")] := by
    decide +kernel
  have hrun : ∃ found, paired.discover ⟨"/lib/index.d.ts"⟩ = .ok found ∧
      found.map (·.path) = [⟨"/lib/index.d.ts"⟩, ⟨"/lib/b.d.ts"⟩] := by
    rw [paired, FileSystem.memory_eq hstore]
    refine Except.exists_ok ?_
    decide +kernel
  obtain ⟨found, hfound, hpaths⟩ := hrun
  have hplaces : ∀ f ∈ found, f.path.components ≠ [] ∧ f.path.components ≠ [.root] := by
    intro f hf
    have hpath : f.path ∈ [⟨"/lib/index.d.ts"⟩, ⟨"/lib/b.d.ts"⟩] := hpaths ▸ List.mem_map_of_mem hf
    revert hpath
    generalize f.path = path
    revert path
    decide
  exact ⟨found, hfound, FileSystem.memory_readable _, hpaths,
    specifiers_resolved hfound (FileSystem.memory_readable _) (by decide) hplaces named_start ⟨"/lib"⟩⟩

/-! ## Two targets at one normalized path -/

def dottedFiles : List (Path × String) :=
  [(⟨"/lib/index.d.ts"⟩, "import './b/.js';\nimport './c/.js';\n"), (⟨"/lib"⟩, "export interface X \x7b \x7d\n")]

/-- With the extension `..` both specifiers mean the file above their directory. -/
def dotted : Run where
  digest := .sha256
  options := { declarationExtensions := [".."] }
  fs := .memory dottedFiles

set_option maxRecDepth 100000 in
theorem dotted_files : ∃ found, dotted.discover ⟨"/lib/index.d.ts"⟩ = .ok found ∧
    found.map (·.path) = [⟨"/lib/index.d.ts"⟩, ⟨"/lib/b/.."⟩, ⟨"/lib/c/.."⟩] ∧
    (dotted.setting ⟨"/lib"⟩ named found).library.module? 0 "./b/.js" = some 2 ∧
    (found.head?.any fun f => f.module.dependencies.contains "./b/.js" &&
      target? dotted.fs dotted.options.declarationExtensions f "./b/.js" == some ⟨"/lib/b/.."⟩) = true := by
  have hstore : FileSystem.storeOf dottedFiles =
      [([.root, .name "lib", .name "index.d.ts"], "import './b/.js';\nimport './c/.js';\n"),
       ([.root, .name "lib"], "export interface X \x7b \x7d\n")] := by decide +kernel
  rw [dotted, FileSystem.memory_eq hstore]
  refine Except.exists_ok ?_
  decide +kernel

/-- The target of one specifier is what the library takes the other one to mean. -/
theorem a_dotted_target_is_another_file : ∃ found f g p, dotted.discover ⟨"/lib/index.d.ts"⟩ = .ok found ∧ dotted.fs.Readable ∧
    (∀ ext ∈ dotted.options.declarationExtensions, '/' ∉ ext.toList) ∧
    (∀ f ∈ found, f.path.components ≠ [] ∧ f.path.components ≠ [.root]) ∧
    (∀ name, named.stringField? "name" = some name → name.toList.head? ≠ some '.') ∧ found[0]? = some f ∧
    "./b/.js" ∈ f.module.dependencies ∧ Specifier.isRelative "./b/.js" = true ∧
    target? dotted.fs dotted.options.declarationExtensions f "./b/.js" = some p ∧
    (dotted.setting ⟨"/lib"⟩ named found).library.module? 0 "./b/.js" = some 2 ∧ found[2]? = some g ∧
    g.path.components ≠ p.components := by
  obtain ⟨found, hfound, hpaths, hmodule, hfirst⟩ := dotted_files
  obtain ⟨f, rest, rfl, hf, hrest⟩ := List.map_eq_cons_iff.mp hpaths
  obtain ⟨f', rest', rfl, hf', hrest'⟩ := List.map_eq_cons_iff.mp hrest
  obtain ⟨g, rest'', rfl, hg, hrest''⟩ := List.map_eq_cons_iff.mp hrest'
  obtain rfl := List.map_eq_nil_iff.mp hrest''
  obtain ⟨hdependency, htarget⟩ := Bool.and_eq_true_iff.mp hfirst
  refine ⟨_, f, g, ⟨"/lib/b/.."⟩, hfound, FileSystem.memory_readable _, by decide, fun x hx => ?_, named_start, rfl,
    by simpa using hdependency, by decide, by simpa using htarget, hmodule, rfl, ?_⟩
  · have hpath : x.path ∈ [⟨"/lib/index.d.ts"⟩, ⟨"/lib/b/.."⟩, ⟨"/lib/c/.."⟩] := hpaths ▸ List.mem_map_of_mem hx
    revert hpath
    generalize x.path = path
    revert path
    decide
  · rw [hg]
    decide

end Run

end PatternCatalog
