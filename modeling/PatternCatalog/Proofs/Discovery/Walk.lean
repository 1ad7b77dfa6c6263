/-
  PatternCatalog.Proofs.Discovery.Walk — a walk finds exactly the files that its entry leads to.

  A walk marks each path it comes to, readable or not, and lists the readable ones in the order of
  the marks (`Sound`). What it lists besides is settled once it is done with it: every path that
  one of its specifiers means is marked (`Settled`). One specifier keeps to this
  (`followSpecifier_grows`), so does a list of them (`foldl_grows`) and so does entering a file, as long as
  the depth lasts (`enter_grows`); and it lasts, since the files of a walk lie at different places
  and there are no more places than that. So the files of a walk are those that the entry leads to
  (`files_exact`).
-/

import Mathlib.Data.List.Perm.Subperm
import PatternCatalog.Proofs.Discovery.Places

namespace PatternCatalog.Discovery

variable {fs : FileSystem} {extensions : List String} {entry : SourceFile}

/-! ## Invariants -/

/-- Whether a walk has come to a path, however it is spelled. -/
def Walk.Saw (w : Walk) (p : Path) : Prop := ∃ q ∈ w.visited, p.components = q.components

/-- What a walk has marked and listed. -/
structure Sound (fs : FileSystem) (extensions : List String) (entry : SourceFile) (w : Walk) : Prop where
  distinct : (w.visited.map (·.components)).Nodup
  existing : ∀ p ∈ w.visited, fs.exists? p
  files : w.files.map (·.path) = (w.visited.filter fun p => (fs.read p).isOk).reverse
  reached : ∀ f ∈ w.files, Reached fs extensions entry f

/-- Whether everything that a file leads to is marked. -/
def Settled (fs : FileSystem) (extensions : List String) (w : Walk) (f : SourceFile) : Prop :=
  ∀ specifier ∈ f.module.dependencies, Specifier.isRelative specifier = true →
    ∀ p, target? fs extensions f specifier = some p → w.Saw p

/-- What a walk has become, with new files that are settled. -/
structure Grows (fs : FileSystem) (extensions : List String) (w w' : Walk) : Prop where
  visited : w.visited ⊆ w'.visited
  files : ∃ new, w'.files = w.files ++ new ∧ ∀ g ∈ new, Settled fs extensions w' g

theorem Walk.Saw.mono {w w' : Walk} {p : Path} (h : w.Saw p) (hsub : w.visited ⊆ w'.visited) : w'.Saw p := by
  obtain ⟨q, hq, hsame⟩ := h
  exact ⟨q, hsub hq, hsame⟩

theorem Settled.mono {w w' : Walk} {f : SourceFile} (h : Settled fs extensions w f) (hsub : w.visited ⊆ w'.visited) :
    Settled fs extensions w' f :=
  fun specifier hspecifier hrelative p hp => (h specifier hspecifier hrelative p hp).mono hsub

theorem Grows.refl (w : Walk) : Grows fs extensions w w :=
  ⟨List.Subset.refl _, [], (List.append_nil _).symm, fun _ hg => nomatch hg⟩

theorem Grows.trans {w w' w'' : Walk} (h : Grows fs extensions w w') (h' : Grows fs extensions w' w'') :
    Grows fs extensions w w'' := by
  obtain ⟨new, hnew, hsettled⟩ := h.files
  obtain ⟨new', hnew', hsettled'⟩ := h'.files
  refine ⟨List.Subset.trans h.visited h'.visited, new ++ new', by rw [hnew', hnew, List.append_assoc], fun g hg => ?_⟩
  rcases List.mem_append.mp hg with hg | hg
  · exact (hsettled g hg).mono h'.visited
  · exact hsettled' g hg

theorem Grows.length_le {w w' : Walk} (h : Grows fs extensions w w') : w.files.length ≤ w'.files.length := by
  obtain ⟨new, hnew, -⟩ := h.files
  rw [hnew, List.length_append]
  exact Nat.le_add_right _ _

/-! ## One specifier -/

/-- The walk after it has entered a file. -/
structure Entered (fs : FileSystem) (extensions : List String) (entry : SourceFile) (w : Walk) (f : SourceFile) (w' : Walk) :
    Prop where
  sound : Sound fs extensions entry w'
  grows : Grows fs extensions { w with files := w.files ++ [f] } w'
  settled : Settled fs extensions w' f

theorem target?_exists {f : SourceFile} {specifier : String} {p : Path} (h : target? fs extensions f specifier = some p) :
    fs.exists? p := List.find?_some h

theorem Sound.mark {w : Walk} (h : Sound fs extensions entry w) {p : Path} (hp : fs.exists? p) (hnew : ¬ w.Saw p)
    {files : List SourceFile} (hfiles : files.map (·.path) = ((p :: w.visited).filter fun p => (fs.read p).isOk).reverse)
    (hreached : ∀ f ∈ files, Reached fs extensions entry f) : Sound fs extensions entry ⟨p :: w.visited, files⟩ := by
  refine ⟨?_, fun q hq => ?_, hfiles, hreached⟩
  · rw [List.map_cons, List.nodup_cons]
    refine ⟨fun hmem => hnew ?_, h.distinct⟩
    obtain ⟨q, hq, hsame⟩ := List.mem_map.mp hmem
    exact ⟨q, hq, hsame.symm⟩
  · rcases List.mem_cons.mp hq with rfl | hq
    · exact hp
    · exact h.existing q hq

theorem followSpecifier_grows {depth : Nat} {enter : Walk → SourceFile → Walk}
    (henter : ∀ w g, Sound fs extensions entry { w with files := w.files ++ [g] } →
      (places fs).length ≤ depth + w.files.length → Entered fs extensions entry w g (enter w g))
    {w : Walk} (h : Sound fs extensions entry w) {f : SourceFile} (hf : Reached fs extensions entry f)
    (hdepth : (places fs).length ≤ depth + w.files.length) {specifier : String} (hspecifier : specifier ∈ f.module.dependencies)
    (hrelative : Specifier.isRelative specifier = true) :
    Sound fs extensions entry (followSpecifier fs extensions f enter w specifier) ∧
      Grows fs extensions w (followSpecifier fs extensions f enter w specifier) ∧
      ∀ p, target? fs extensions f specifier = some p → (followSpecifier fs extensions f enter w specifier).Saw p := by
  unfold followSpecifier
  cases htarget : target? fs extensions f specifier with
  | none => exact ⟨h, .refl w, fun p hp => nomatch hp⟩
  | some path =>
    have hpath : ∀ {w' : Walk}, w'.Saw path → ∀ p, some path = some p → w'.Saw p := by
      intro w' hsaw p hp
      rwa [← Option.some.inj hp]
    dsimp only
    split
    · next hsame =>
      obtain ⟨q, hq, hsame⟩ := List.any_eq_true.mp hsame
      exact ⟨h, .refl w, hpath ⟨q, hq, by simpa [Path.same] using hsame⟩⟩
    · next hsame =>
      have hnew : ¬ w.Saw path := by
        rintro ⟨q, hq, hcomponents⟩
        exact hsame (List.any_eq_true.mpr ⟨q, hq, by simpa [Path.same] using hcomponents⟩)
      have hexists := target?_exists htarget
      split
      · next text hread =>
        have hleads : Leads fs extensions f ⟨path, Module.parse text⟩ :=
          ⟨specifier, hspecifier, hrelative, htarget, text, hread, rfl⟩
        have hfiles : (w.files ++ [(⟨path, Module.parse text⟩ : SourceFile)]).map (·.path) =
            ((path :: w.visited).filter fun p => (fs.read p).isOk).reverse := by
          rw [List.map_append, h.files, List.filter_cons_of_pos (by rw [hread]; rfl), List.reverse_cons]
          rfl
        have hreached : ∀ g ∈ w.files ++ [(⟨path, Module.parse text⟩ : SourceFile)], Reached fs extensions entry g := by
          intro g hg
          rcases List.mem_append.mp hg with hg | hg
          · exact h.reached g hg
          · rw [List.mem_singleton.mp hg]
            exact hf.step hleads
        obtain ⟨hsound, hgrows, hsettled⟩ := henter ⟨path :: w.visited, w.files⟩ ⟨path, Module.parse text⟩
          (h.mark hexists hnew hfiles hreached) hdepth
        obtain ⟨new, hnewfiles, hsettlednew⟩ := hgrows.files
        refine ⟨hsound, ⟨List.Subset.trans (List.subset_cons_self _ _) hgrows.visited,
          (⟨path, Module.parse text⟩ : SourceFile) :: new, ?_, ?_⟩, ?_⟩
        · rw [hnewfiles, List.append_assoc]
          rfl
        · intro g hg
          rcases List.mem_cons.mp hg with rfl | hg
          · exact hsettled
          · exact hsettlednew g hg
        · exact hpath ⟨path, hgrows.visited List.mem_cons_self, rfl⟩
      · next reason hread =>
        have hfiles : w.files.map (·.path) = ((path :: w.visited).filter fun p => (fs.read p).isOk).reverse := by
          rw [h.files, List.filter_cons_of_neg (by rw [hread]; exact Bool.false_ne_true)]
        refine ⟨h.mark hexists hnew hfiles h.reached, ⟨List.subset_cons_self _ _, [], (List.append_nil _).symm, ?_⟩, ?_⟩
        · exact fun g hg => nomatch hg
        · exact hpath ⟨path, List.mem_cons_self, rfl⟩

/-! ## Files -/

theorem foldl_grows {depth : Nat} {enter : Walk → SourceFile → Walk}
    (henter : ∀ w g, Sound fs extensions entry { w with files := w.files ++ [g] } →
      (places fs).length ≤ depth + w.files.length → Entered fs extensions entry w g (enter w g))
    {f : SourceFile} (hf : Reached fs extensions entry f) {specifiers : List String}
    (hspecifiers : ∀ s ∈ specifiers, s ∈ f.module.dependencies ∧ Specifier.isRelative s = true) {w : Walk}
    (h : Sound fs extensions entry w) (hdepth : (places fs).length ≤ depth + w.files.length) :
    Sound fs extensions entry (specifiers.foldl (followSpecifier fs extensions f enter) w) ∧
      Grows fs extensions w (specifiers.foldl (followSpecifier fs extensions f enter) w) ∧
      ∀ s ∈ specifiers, ∀ p, target? fs extensions f s = some p →
        (specifiers.foldl (followSpecifier fs extensions f enter) w).Saw p := by
  induction specifiers generalizing w with
  | nil => exact ⟨h, .refl w, fun s hs => nomatch hs⟩
  | cons s rest ih =>
    obtain ⟨hmem, hrelative⟩ := hspecifiers s List.mem_cons_self
    obtain ⟨hsound, hgrows, hsaw⟩ := followSpecifier_grows henter h hf hdepth hmem hrelative
    obtain ⟨hsoundrest, hgrowsrest, hsawrest⟩ := ih (fun t ht => hspecifiers t (List.mem_cons_of_mem _ ht)) hsound
      (Nat.le_trans hdepth (Nat.add_le_add_left hgrows.length_le depth))
    refine ⟨hsoundrest, hgrows.trans hgrowsrest, fun t ht p hp => ?_⟩
    rcases List.mem_cons.mp ht with rfl | ht
    · exact (hsaw p hp).mono hgrowsrest.visited
    · exact hsawrest t ht p hp

theorem Sound.files_distinct {w : Walk} (h : Sound fs extensions entry w) : (w.files.map (·.path.components)).Nodup := by
  have hmap : w.files.map (·.path.components) = ((w.visited.filter fun p => (fs.read p).isOk).map (·.components)).reverse := by
    rw [← List.map_reverse, ← h.files, List.map_map]
    rfl
  rw [hmap, (List.reverse_perm _).nodup_iff]
  exact h.distinct.sublist (List.filter_sublist.map _)

section

variable {path : Path} {module : Module} (hext : ∀ ext ∈ extensions, '/' ∉ ext.toList)
  (hentry : Parsed fs ⟨path.normalize, module⟩)
include hext hentry

theorem Sound.files_length_le {w : Walk} (h : Sound fs extensions ⟨path.normalize, module⟩ w) :
    w.files.length ≤ (places fs).length := by
  have hplaces : w.files.map (·.path.components) ⊆ places fs := by
    intro cs hcs
    obtain ⟨f, hf, rfl⟩ := List.mem_map.mp hcs
    exact (h.reached f hf).mem_places hext hentry
  have hlength := (List.subperm_of_subset h.files_distinct hplaces).length_le
  rwa [List.length_map] at hlength

/-- The files that a walk has left to enter are fewer than its depth. -/
theorem enter_grows (depth : Nat) {w : Walk} {f : SourceFile}
    (h : Sound fs extensions ⟨path.normalize, module⟩ { w with files := w.files ++ [f] })
    (hdepth : (places fs).length ≤ depth + w.files.length) :
    Entered fs extensions ⟨path.normalize, module⟩ w f (enter fs extensions depth w f) := by
  induction depth generalizing w f with
  | zero =>
    have hlength := h.files_length_le hext hentry
    rw [List.length_append, List.length_singleton] at hlength
    omega
  | succ depth ih =>
    have hf : Reached fs extensions ⟨path.normalize, module⟩ f := h.reached f (List.mem_append_right _ List.mem_cons_self)
    have hdepth' : (places fs).length ≤ depth + (w.files ++ [f]).length := by
      rw [List.length_append, List.length_singleton]
      omega
    have hspecifiers : ∀ s ∈ f.module.dependencies.filter Specifier.isRelative,
        s ∈ f.module.dependencies ∧ Specifier.isRelative s = true := fun s hs => List.mem_filter.mp hs
    obtain ⟨hsound, hgrows, hsaw⟩ := foldl_grows (fun w g hw hlength => ih hw hlength) hf hspecifiers h hdepth'
    exact ⟨hsound, hgrows, fun s hs hrelative p hp => hsaw s (List.mem_filter.mpr ⟨hs, hrelative⟩) p hp⟩

end

/-! ## The whole walk -/

/-- A specifier means the same to a file however the path of the file is spelled. -/
theorem target?_alike {f g : SourceFile} (h : f.path.components = g.path.components) {specifier : String}
    (hrelative : Specifier.isRelative specifier = true) :
    target? fs extensions f specifier = target? fs extensions g specifier := by
  have hhead := Specifier.head?_of_isRelative hrelative
  have hbase : ((f.path.parent?.getD ⟨""⟩).join specifier).normalize = ((g.path.parent?.getD ⟨""⟩).join specifier).normalize := by
    unfold Path.normalize Path.normalizeComponents
    rw [Path.normalize_join _ hhead, Path.normalize_join _ hhead, Path.components_parent, Path.components_parent, h]
  rw [target?, target?, Specifier.candidates, Specifier.candidates, hbase]

/-- What is marked and can be read is listed, as it was read. -/
theorem Sound.listed {w : Walk} (h : Sound fs extensions entry w) (hentry : Parsed fs entry) {f : SourceFile}
    (hf : Parsed fs f) (hsaw : w.Saw f.path) : ∃ g ∈ w.files, g.path.components = f.path.components ∧ g.module = f.module := by
  obtain ⟨text, hread, hmodule⟩ := hf
  obtain ⟨q, hq, hsame⟩ := hsaw
  have hreadq : fs.read q = .ok text := by rw [← hread, fs.alike hsame (fs.existing hread) (h.existing q hq)]
  have hlisted : q ∈ w.files.map (·.path) := by
    rw [h.files]
    exact List.mem_reverse.mpr (List.mem_filter.mpr ⟨hq, by rw [hreadq]; rfl⟩)
  obtain ⟨g, hg, rfl⟩ := List.mem_map.mp hlisted
  obtain ⟨text', hread', hmodule'⟩ := (h.reached g hg).parsed hentry
  refine ⟨g, hg, hsame.symm, ?_⟩
  rw [hmodule', hmodule, Except.ok.inj (hread'.symm.trans hreadq)]

/-- The files that an entry leads to, itself first and none twice. A file may be met under another
spelling of its path than the one it is listed with. -/
structure Exact (fs : FileSystem) (extensions : List String) (entry : SourceFile) (found : List SourceFile) : Prop where
  first : found.head? = some entry
  distinct : (found.map (·.path.components)).Nodup
  sound : ∀ f ∈ found, Reached fs extensions entry f
  complete : ∀ f, Reached fs extensions entry f → ∃ g ∈ found, g.path.components = f.path.components ∧ g.module = f.module

theorem files_exact {path : Path} {text : String} (hread : fs.read path.normalize = .ok text)
    (hext : ∀ ext ∈ extensions, '/' ∉ ext.toList) :
    ∃ found, files fs extensions path = .ok found ∧ Exact fs extensions ⟨path.normalize, Module.parse text⟩ found := by
  have hentry : Parsed fs ⟨path.normalize, Module.parse text⟩ := ⟨text, hread, rfl⟩
  have hstart : Sound fs extensions ⟨path.normalize, Module.parse text⟩
      ⟨[path.normalize], [⟨path.normalize, Module.parse text⟩]⟩ := by
    refine ⟨List.pairwise_singleton _ _, fun p hp => ?_, ?_, fun f hf => ?_⟩
    · rw [List.mem_singleton.mp hp]
      exact fs.existing hread
    · rw [List.filter_cons_of_pos (by rw [hread]; rfl)]
      rfl
    · rw [List.mem_singleton.mp hf]
      exact .entry
  have hdepth : (places fs).length ≤ depthBound fs + 1 := Nat.le_succ_of_le (places_length fs)
  obtain ⟨hsound, hgrows, hsettled⟩ := enter_grows hext hentry (depthBound fs + 1) (w := ⟨[path.normalize], []⟩) hstart hdepth
  have hfiles : files fs extensions path = .ok (enter fs extensions (depthBound fs + 1) ⟨[path.normalize], []⟩
      ⟨path.normalize, Module.parse text⟩).files := by
    dsimp only [files]
    rw [hread]
    rfl
  generalize enter fs extensions (depthBound fs + 1) ⟨[path.normalize], []⟩ ⟨path.normalize, Module.parse text⟩ = w
    at hsound hgrows hsettled hfiles
  obtain ⟨new, hnew, hsettlednew⟩ := hgrows.files
  have hall : w.files = ⟨path.normalize, Module.parse text⟩ :: new := hnew
  have hclosed : ∀ g ∈ w.files, Settled fs extensions w g := by
    intro g hg
    rw [hall] at hg
    rcases List.mem_cons.mp hg with rfl | hg
    · exact hsettled
    · exact hsettlednew g hg
  refine ⟨w.files, hfiles, by rw [hall]; rfl, hsound.files_distinct, hsound.reached, fun f hf => ?_⟩
  induction hf with
  | entry => exact ⟨_, by rw [hall]; exact List.mem_cons_self, rfl, rfl⟩
  | step _ hleads ih =>
    obtain ⟨g, hg, hcomponents, hmodule⟩ := ih
    obtain ⟨specifier, hspecifier, hrelative, htarget, hparsed⟩ := hleads
    rw [← hmodule] at hspecifier
    rw [← target?_alike hcomponents hrelative] at htarget
    exact hsound.listed hentry hparsed (hclosed g hg specifier hspecifier hrelative _ htarget)

end PatternCatalog.Discovery
