/-
  PatternCatalog.Proofs.Discovery.Places — the places a walk can come to.

  A walk leads from file to file (`Leads`), and there are finitely many files; but an extension
  such as `..` lets a path end in a step and a step back, so that it means a file again under components of
  its own. The step is one of the components of a path or the one that a specifier determines, of
  which there are finitely many as well (`steps`). So the components of all files that a walk can reach
  (`Reached`) are in one finite list (`Reached.mem_places`), and the depth of a walk bounds its
  length (`places_length`).
-/

import Mathlib.Tactic.Ring
import PatternCatalog.Proofs.Dependencies
import PatternCatalog.Proofs.Discovery
import PatternCatalog.Proofs.Path.Specifier
import PatternCatalog.Proofs.Script.Statements
import PatternCatalog.Proofs.Text.Octets

namespace PatternCatalog

open PatternCatalog.Path (Kept innerComponents normalizeComponents normalizeStep ownNames)

/-! ## Dependencies of a text -/

theorem Module.dependencies_length (text : String) : (parse text).dependencies.length ≤ Text.octets text.toList + 1 := by
  refine Nat.le_trans (dependencies_sublist text).length_le (Nat.le_trans (List.length_filterMap_le _ _) ?_)
  unfold statements
  cases hscript : Script.parse? dialect text with
  | none => exact Nat.zero_le _
  | some script =>
    dsimp only
    rw [List.length_map]
    exact Script.parse?_length hscript

namespace Discovery

variable {fs : FileSystem} {extensions : List String}

/-! ## Reachable files -/

/-- Whether the first existing candidate of a relative dependency of a file is a file that can be read. -/
def Leads (fs : FileSystem) (extensions : List String) (f g : SourceFile) : Prop :=
  ∃ specifier ∈ f.module.dependencies, Specifier.isRelative specifier = true ∧
    target? fs extensions f specifier = some g.path ∧ Parsed fs g

/-- The files that an entry leads to, over any number of files. -/
inductive Reached (fs : FileSystem) (extensions : List String) (entry : SourceFile) : SourceFile → Prop where
  | entry : Reached fs extensions entry entry
  | step {f g : SourceFile} : Reached fs extensions entry f → Leads fs extensions f g → Reached fs extensions entry g

theorem Reached.parsed {entry f : SourceFile} (hentry : Parsed fs entry) (h : Reached fs extensions entry f) :
    Parsed fs f := by
  cases h with
  | entry => exact hentry
  | step _ hleads =>
    obtain ⟨-, -, -, -, hparsed⟩ := hleads
    exact hparsed

/-! ## Places -/

/-- The step that a specifier alone can put before the last component of a path. -/
def stepOf? (specifier : String) : Option Path.Component := (ownNames (innerComponents specifier.toList))[1]?

/-- The components of the paths of files, and the steps that specifiers determine. -/
def steps (fs : FileSystem) : List Path.Component :=
  .current :: .parent :: fs.contents.flatMap fun row => row.1 ++ (Module.parse row.2).dependencies.filterMap stepOf?

/-- The components of files, also with a step and a step back. -/
def places (fs : FileSystem) : List (List Path.Component) :=
  [.current] :: fs.contents.flatMap fun row => row.1 :: (steps fs).map fun c => row.1 ++ [c, .parent]

theorem mem_places_of_row {cs : List Path.Component} {text : String} (h : (cs, text) ∈ fs.contents) : cs ∈ places fs :=
  List.mem_cons_of_mem _ (List.mem_flatMap.mpr ⟨(cs, text), h, List.mem_cons_self⟩)

theorem mem_steps_of_mem_places {cs : List Path.Component} (h : cs ∈ places fs) : ∀ c ∈ cs, c ∈ steps fs := by
  have hcurrent : .current ∈ steps fs := List.mem_cons_self
  have hparent : .parent ∈ steps fs := List.mem_cons_of_mem _ List.mem_cons_self
  intro c hc
  rcases List.mem_cons.mp h with rfl | h
  · rwa [List.mem_singleton.mp hc]
  · obtain ⟨row, hrow, hcs⟩ := List.mem_flatMap.mp h
    have hpath : ∀ c ∈ row.1, c ∈ steps fs := fun c hc =>
      List.mem_cons_of_mem _ (List.mem_cons_of_mem _ (List.mem_flatMap.mpr ⟨row, hrow, List.mem_append_left _ hc⟩))
    rcases List.mem_cons.mp hcs with rfl | hcs
    · exact hpath c hc
    · obtain ⟨step, hstep, rfl⟩ := List.mem_map.mp hcs
      rcases List.mem_append.mp hc with hc | hc
      · exact hpath c hc
      · rcases List.mem_cons.mp hc with rfl | hc
        · exact hstep
        · rwa [List.mem_singleton.mp hc]

theorem normalizeStep_parent {step : Path.Component} (h : step ≠ .root) (rest : List Path.Component) :
    normalizeStep (step :: rest) .parent = rest := by
  cases step with
  | root => exact absurd rfl h
  | _ => rfl

/-- What a specifier of a file means lies at one of the places. -/
theorem mem_places_of_target {f g : SourceFile} {specifier : String} (hext : ∀ ext ∈ extensions, '/' ∉ ext.toList)
    (hf : Parsed fs f) (hplace : f.path.components ∈ places fs) (hspecifier : specifier ∈ f.module.dependencies)
    (hrelative : Specifier.isRelative specifier = true) (htarget : target? fs extensions f specifier = some g.path)
    (hg : Parsed fs g) : g.path.components ∈ places fs := by
  obtain ⟨text, hread, -⟩ := hg
  have hrow := fs.held hread
  rw [Path.components_normalize] at hrow
  rcases Specifier.candidate_cases (List.mem_of_find?_eq_some htarget) hext with hkept | hcurrent | ⟨last, step, rest, hall, hroot, hback⟩
  · rw [hkept.normalizeComponents_eq] at hrow
    exact mem_places_of_row hrow
  · rw [hcurrent]
    exact List.mem_cons_self
  · have hkept : Kept (last :: step :: rest) := hall ▸ Path.kept_componentsOf _
    have hnormal : normalizeComponents g.path.components = rest.reverse := by
      have hreverse := hkept.tail.foldl_reverse
      rw [List.reverse_cons] at hreverse
      rw [normalizeComponents, hback, List.append_cons, List.foldl_append, hreverse]
      exact congrArg List.reverse (normalizeStep_parent hroot rest)
    have hstep : step ∈ steps fs := by
      rw [Specifier.kept, Path.normalize_join _ (Specifier.head?_of_isRelative hrelative)] at hall
      rcases Path.step_of_foldl (fun c hc => Path.step_of_mem_innerComponents hc) hall with hdir | rfl | hown
      · rw [Path.components_parent] at hdir
        rcases Path.mem_foldl_normalizeStep hdir with hdir | hdir
        · cases hdir
        · exact mem_steps_of_mem_places hplace step (List.dropLast_subset _ hdir)
      · exact List.mem_cons_of_mem _ List.mem_cons_self
      · obtain ⟨text, hread, hmodule⟩ := hf
        rw [hmodule] at hspecifier
        refine List.mem_cons_of_mem _ (List.mem_cons_of_mem _ (List.mem_flatMap.mpr ⟨_, fs.held hread, ?_⟩))
        exact List.mem_append_right _ (List.mem_filterMap.mpr ⟨specifier, hspecifier, hown⟩)
    rw [hnormal] at hrow
    refine List.mem_cons_of_mem _ (List.mem_flatMap.mpr ⟨_, hrow, List.mem_cons_of_mem _ ?_⟩)
    rw [hback]
    exact List.mem_map_of_mem hstep

/-- The files of a walk lie at the places. -/
theorem Reached.mem_places {path : Path} {module : Module} {f : SourceFile} (hext : ∀ ext ∈ extensions, '/' ∉ ext.toList)
    (hentry : Parsed fs ⟨path.normalize, module⟩) (h : Reached fs extensions ⟨path.normalize, module⟩ f) :
    f.path.components ∈ places fs := by
  induction h with
  | entry =>
    obtain ⟨text, hread, -⟩ := hentry
    have hrow : (path.normalize.normalize.components, text) ∈ fs.contents := fs.held hread
    rw [Path.components_normalize_normalize] at hrow
    exact mem_places_of_row hrow
  | step hf hleads ih =>
    obtain ⟨specifier, hspecifier, hrelative, htarget, hg⟩ := hleads
    exact mem_places_of_target hext (hf.parsed hentry) ih hspecifier hrelative htarget hg

/-! ## How many there are -/

theorem steps_length (fs : FileSystem) : (steps fs).length ≤ fs.size + 2 := by
  have hrow : ∀ row : List Path.Component × String,
      (row.1 ++ (Module.parse row.2).dependencies.filterMap stepOf?).length ≤ row.1.length + row.2.utf8ByteSize + 1 := by
    intro row
    have hmap := List.length_filterMap_le stepOf? (Module.parse row.2).dependencies
    have hdependencies := Module.dependencies_length row.2
    rw [Text.octets_toList] at hdependencies
    rw [List.length_append]
    omega
  have hrows : ∀ rows : FileSystem.Store,
      (rows.flatMap fun row => row.1 ++ (Module.parse row.2).dependencies.filterMap stepOf?).length ≤
        rows.length + total (rows.map fun row => row.1.length + row.2.utf8ByteSize) := by
    intro rows
    induction rows with
    | nil => exact Nat.le_refl 0
    | cons row rows ih =>
      have hfirst := hrow row
      rw [List.flatMap_cons, List.length_append, List.map_cons, total_cons, List.length_cons]
      omega
  exact Nat.add_le_add_right (hrows fs.contents) 2

theorem places_length (fs : FileSystem) : (places fs).length ≤ depthBound fs := by
  have hrows : ∀ rows : FileSystem.Store, (rows.flatMap fun row => row.1 :: (steps fs).map fun c => row.1 ++ [c, .parent]).length =
      rows.length * ((steps fs).length + 1) := by
    intro rows
    induction rows with
    | nil => exact (Nat.zero_mul _).symm
    | cons row rows ih =>
      rw [List.flatMap_cons, List.length_append, ih, List.length_cons, List.length_map, List.length_cons, Nat.succ_mul,
        Nat.add_comm]
  have hsteps := steps_length fs
  have hcontents : fs.contents.length ≤ fs.size := Nat.le_add_right _ _
  rw [places, List.length_cons, hrows, depthBound]
  calc fs.contents.length * ((steps fs).length + 1) + 1
    _ ≤ fs.size * (fs.size + 3) + 1 := Nat.succ_le_succ (Nat.mul_le_mul hcontents (Nat.succ_le_succ hsteps))
    _ ≤ (fs.size + 2) * (fs.size + 2) := by
      have hsquare : (fs.size + 2) * (fs.size + 2) = fs.size * (fs.size + 3) + 1 + (fs.size + 3) := by ring
      rw [hsquare]
      exact Nat.le_add_right _ _

end Discovery

end PatternCatalog
