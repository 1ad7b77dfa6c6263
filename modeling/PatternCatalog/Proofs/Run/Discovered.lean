/-
  PatternCatalog.Proofs.Run.Discovered — which files a run discovers.

  From an entry that can be read a run discovers exactly the files that the entry leads to, over
  any imports: the entry first, none of them twice, and nothing that can be reached only through a file
  which cannot be read (`readable_entry_discovered`). Each file has its candidate. Extensions hold no
  slash: with one, a walk may come to paths that no file or specifier determines.
  - `cycle_discovered`: files that import each other and themselves are found once each, and a file
    behind an unreadable one is not found.
-/

import PatternCatalog.Proofs.Discovery.Walk
import PatternCatalog.Proofs.Run

namespace PatternCatalog.Run

/-- What the discovered files are to an entry. -/
structure Discovered (r : Run) (entry : SourceFile) (found : List SourceFile) : Prop where
  exact : Discovery.Exact r.fs r.options.declarationExtensions entry found
  candidates : ∀ root package, (r.setting root package found).candidates.map (·.declarationPath) = found.map (·.path)

theorem readable_entry_discovered {r : Run} {entry : Path} {text : String} (hread : r.fs.read entry.normalize = .ok text)
    (hext : ∀ ext ∈ r.options.declarationExtensions, '/' ∉ ext.toList) :
    ∃ found, r.discover entry = .ok found ∧ r.Discovered ⟨entry.normalize, Module.parse text⟩ found := by
  obtain ⟨found, hfound, hexact⟩ := Discovery.files_exact hread hext
  refine ⟨found, ?_, hexact, fun root package => ?_⟩
  · rw [discover, hfound]
    rfl
  · rw [setting, List.map_map]
    rfl

/-! ## A cycle -/

/-- A library whose files import each other, themselves and one that cannot be read. -/
def cycleFiles : List (Path × String) :=
  [(⟨"/lib/index.d.ts"⟩, "export * from './button';\nexport * from './card';\nexport * from './secret';\n"),
   (⟨"/lib/button.d.ts"⟩, "import './card';\nimport './button';\nexport * from './index';\n"),
   (⟨"/lib/card.d.ts"⟩, "export * from './button';\n"),
   (⟨"/lib/secret.d.ts"⟩, "export * from './hidden';\n"),
   (⟨"/lib/hidden.d.ts"⟩, "")]

def cycle : Run where
  digest := .sha256
  fs := (FileSystem.memory cycleFiles).withUnreadable [⟨"/lib/secret.d.ts"⟩]

set_option maxRecDepth 100000 in
theorem cycle_files : (∃ found, cycle.discover ⟨"/lib/index.d.ts"⟩ = .ok found ∧
    found.map (·.path.text) = ["/lib/index.d.ts", "/lib/button.d.ts", "/lib/card.d.ts"]) ∧
    cycle.fs.read (⟨"/lib/index.d.ts"⟩ : Path).normalize =
      .ok "export * from './button';\nexport * from './card';\nexport * from './secret';\n" := by
  have hstore : FileSystem.storeOf cycleFiles =
      [([.root, .name "lib", .name "index.d.ts"], "export * from './button';\nexport * from './card';\nexport * from './secret';\n"),
       ([.root, .name "lib", .name "button.d.ts"], "import './card';\nimport './button';\nexport * from './index';\n"),
       ([.root, .name "lib", .name "card.d.ts"], "export * from './button';\n"),
       ([.root, .name "lib", .name "secret.d.ts"], "export * from './hidden';\n"),
       ([.root, .name "lib", .name "hidden.d.ts"], "")] := by decide +kernel
  rw [cycle, FileSystem.memory_eq hstore]
  refine And.imp Except.exists_ok id ?_
  decide +kernel

theorem cycle_discovered : ∃ text found, cycle.fs.read (⟨"/lib/index.d.ts"⟩ : Path).normalize = .ok text ∧
    (∀ ext ∈ cycle.options.declarationExtensions, '/' ∉ ext.toList) ∧ cycle.discover ⟨"/lib/index.d.ts"⟩ = .ok found ∧
    found.map (·.path.text) = ["/lib/index.d.ts", "/lib/button.d.ts", "/lib/card.d.ts"] ∧
    cycle.Discovered ⟨(⟨"/lib/index.d.ts"⟩ : Path).normalize, Module.parse text⟩ found := by
  obtain ⟨⟨found', hfound', hpaths⟩, hread⟩ := cycle_files
  have hext : ∀ ext ∈ cycle.options.declarationExtensions, '/' ∉ ext.toList := by decide
  obtain ⟨found, hfound, hdiscovered⟩ := readable_entry_discovered hread hext
  obtain rfl : found' = found := Except.ok.inj (hfound'.symm.trans hfound)
  exact ⟨_, found', hread, hext, hfound, hpaths, hdiscovered⟩

end PatternCatalog.Run
