/-
  PatternCatalog.Discovery — the declaration files that belong to a library.

  Starting at the typings entry, every relative import and re-export is followed to the first
  of its candidate paths at which there is a file, depth first. No path is visited twice, and a
  file that cannot be read is passed over, unless it is the entry.
-/

import PatternCatalog.FileSystem
import PatternCatalog.Library
import PatternCatalog.Module

namespace PatternCatalog.Discovery

/-- What has been seen of a library; files in the order in which they were entered. -/
structure Walk where
  visited : List Path
  files : List SourceFile

/-- The file that a relative specifier means to a file. -/
def target? (fs : FileSystem) (extensions : List String) (f : SourceFile) (specifier : String) : Option Path :=
  (Specifier.candidates (f.path.parent?.getD ⟨""⟩) specifier extensions).find? fs.exists?

/-- Visits what a specifier means; `enter` goes on at a file that is new. -/
def followSpecifier (fs : FileSystem) (extensions : List String) (f : SourceFile) (enter : Walk → SourceFile → Walk)
    (w : Walk) (specifier : String) : Walk :=
  match target? fs extensions f specifier with
  | none => w
  | some path =>
    if w.visited.any path.same then w
    else
      let w := { w with visited := path :: w.visited }
      match fs.read path with
      | .ok text => enter w ⟨path, Module.parse text⟩
      | .error _ => w

/-- Enters a file and everything it leads to, so many files deep. -/
def enter (fs : FileSystem) (extensions : List String) : Nat → Walk → SourceFile → Walk
  | 0, w, _ => w
  | depth + 1, w, f =>
    (f.module.dependencies.filter Specifier.isRelative).foldl
      (followSpecifier fs extensions f (enter fs extensions depth))
      { w with files := w.files ++ [f] }

/-- A bound for the paths of one walk. Nearly all are paths of files; a path that ends in `..` after
a step may mean a file again, and that step is one of a path or of a specifier. -/
def depthBound (fs : FileSystem) : Nat := (fs.size + 2) * (fs.size + 2)

/-- The files that an entry leads to, itself first; an error is the reason why it cannot be read. -/
def files (fs : FileSystem) (extensions : List String) (entry : Path) : Except String (List SourceFile) := do
  let entry := entry.normalize
  let text ← fs.read entry
  return (enter fs extensions (depthBound fs + 1) ⟨[entry], []⟩ ⟨entry, Module.parse text⟩).files

end PatternCatalog.Discovery
