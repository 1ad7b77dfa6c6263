/-
  PatternCatalog.Proofs.Discovery — what the discovered files are.

  Whatever way the walk takes, each file in it was read at its path and holds the module that
  its text describes (`files_parsed`): `AllParsed` says so of a walk, one followed specifier
  keeps it (`followSpecifier_parsed`), and so does entering a file (`enter_parsed`).
-/

import PatternCatalog.Discovery

namespace PatternCatalog.Discovery

variable {fs : FileSystem} {extensions : List String}

/-- A file as it was read. -/
def Parsed (fs : FileSystem) (f : SourceFile) : Prop := ∃ text, fs.read f.path = .ok text ∧ f.module = Module.parse text

/-- A walk that holds only files as they were read. -/
def AllParsed (fs : FileSystem) (w : Walk) : Prop := ∀ f ∈ w.files, Parsed fs f

theorem followSpecifier_parsed {f : SourceFile} {enter : Walk → SourceFile → Walk}
    (henter : ∀ w g, AllParsed fs w → Parsed fs g → AllParsed fs (enter w g)) {w : Walk} (h : AllParsed fs w)
    (specifier : String) : AllParsed fs (followSpecifier fs extensions f enter w specifier) := by
  unfold followSpecifier
  split
  · exact h
  · next path _ =>
    split
    · exact h
    · dsimp only
      split
      · next text hread => exact henter _ _ h ⟨text, hread, rfl⟩
      · exact h

theorem enter_parsed (depth : Nat) {w : Walk} {f : SourceFile} (h : AllParsed fs w) (hf : Parsed fs f) :
    AllParsed fs (enter fs extensions depth w f) := by
  induction depth generalizing w f with
  | zero => exact h
  | succ depth ih =>
    have hstart : AllParsed fs { w with files := w.files ++ [f] } := by
      intro g hg
      rcases List.mem_append.mp hg with hg | hg
      · exact h g hg
      · obtain rfl := List.mem_singleton.mp hg
        exact hf
    rw [enter]
    generalize f.module.dependencies.filter Specifier.isRelative = specifiers
    generalize ({ w with files := w.files ++ [f] } : Walk) = v at hstart
    induction specifiers generalizing v with
    | nil => exact hstart
    | cons specifier rest ihrest => exact ihrest _ (followSpecifier_parsed (fun _ _ => ih) hstart specifier)

theorem files_parsed {entry : Path} {found : List SourceFile} (h : files fs extensions entry = .ok found) :
    ∀ f ∈ found, Parsed fs f := by
  dsimp only [files] at h
  cases hread : fs.read entry.normalize with
  | error reason => rw [hread] at h; cases h
  | ok text =>
    rw [hread] at h
    cases h
    exact enter_parsed _ (fun _ hf => nomatch hf) ⟨text, hread, rfl⟩

end PatternCatalog.Discovery
