/-
  PatternCatalog.Proofs.Run — what a successful run went through.

  A run that gives an analysis has found a setting (`settingAt`) in which at least one component
  is registered; the analysis lists the registered patterns in order, each with content in its
  slots and otherwise as it was registered, and holds what the bundler made of them
  (`analyze_ok`).
-/

import PatternCatalog.Proofs.Discovery
import PatternCatalog.Proofs.Except
import PatternCatalog.Proofs.Registry
import PatternCatalog.Run

namespace PatternCatalog

/-! ## Evaluation -/

/-- Normalizes the stored paths once for all look-ups. -/
theorem FileSystem.memory_eq {files : List (Path × String)} {store : Store} (h : storeOf files = store) :
    memory files = ofStore store := congrArg ofStore h

namespace Run

/-- What the patterns of a run are built from, once its files are discovered. -/
def settingAt (r : Run) (root : Path) : Except Failure Setting := do
  let root := root.normalize
  let package ← r.readPackage root
  let entry ← r.typingsEntry root package
  let files ← r.discover entry
  return r.setting root package files

/-- What a bundler is told of a pattern. -/
def bundleEntry (e : PatternEntry) : BundleEntry := ⟨e.pattern.id, e.path⟩

/-- What a successful run has found and made. -/
structure Analyzed (r : Run) (root : Path) (s : Setting) (a : Analysis) : Prop where
  setting : r.settingAt root = .ok s
  files : ∃ found, s = r.setting a.path a.packageFile found ∧ ∀ f ∈ found, Discovery.Parsed r.fs f
  registered : Registry.ofSetting s ≠ []
  patterns : a.patterns = (Registry.ofSetting s).map (r.entryWithContent s (Registry.ofSetting s) a.id)
  bundle : r.bundler r.fs (a.patterns.map bundleEntry) = .ok a.bundle

variable {r : Run} {root : Path} {package : Json} {s : Setting} {a : Analysis}

/-- A completed analysis lists the registered patterns with content in their slots. -/
theorem complete_ok (h : r.complete root package s = .ok a) : Registry.ofSetting s ≠ [] ∧
    ∃ bundle, r.bundler r.fs (((Registry.ofSetting s).map (r.entryWithContent s (Registry.ofSetting s)
        (r.libraryId (packageTitle root package)))).map bundleEntry) = .ok bundle ∧
      a = ⟨r.libraryId (packageTitle root package), root, package, (Registry.ofSetting s).map (r.entryWithContent s
        (Registry.ofSetting s) (r.libraryId (packageTitle root package))), bundle⟩ := by
  dsimp only [complete] at h
  split at h
  · cases h
  · next hne =>
    obtain ⟨bundle, hbundle, h⟩ := Except.bind_ok h
    cases h
    exact ⟨by simpa using hne, bundle, Except.mapError_ok hbundle, rfl⟩

/-- An analysis is completed from the package, the entry and the files that its run finds. -/
theorem analyze_steps (h : r.analyze root = .ok a) :
    ∃ package entry files, r.readPackage root.normalize = .ok package ∧ r.typingsEntry root.normalize package = .ok entry ∧
      r.discover entry = .ok files ∧ r.complete root.normalize package (r.setting root.normalize package files) = .ok a := by
  obtain ⟨_, hdiscovered, h⟩ := Except.bind_ok h
  obtain ⟨package, hpackage, hdiscovered⟩ := Except.bind_ok hdiscovered
  obtain ⟨entry, hentry, hdiscovered⟩ := Except.bind_ok hdiscovered
  obtain ⟨files, hfiles, hdiscovered⟩ := Except.bind_ok hdiscovered
  cases hdiscovered
  exact ⟨package, entry, files, hpackage, hentry, hfiles, h⟩

theorem settingAt_of_steps {entry : Path} {files : List SourceFile} (hpackage : r.readPackage root.normalize = .ok package)
    (hentry : r.typingsEntry root.normalize package = .ok entry) (hfiles : r.discover entry = .ok files) :
    r.settingAt root = .ok (r.setting root.normalize package files) := by
  simp only [settingAt, hpackage, hentry, hfiles, bind, Except.bind, pure, Except.pure]

theorem analyze_ok (h : r.analyze root = .ok a) : ∃ s, r.Analyzed root s a := by
  obtain ⟨package, entry, files, hpackage, hentry, hfiles, hcomplete⟩ := analyze_steps h
  obtain ⟨hne, bundle, hbundle, rfl⟩ := complete_ok hcomplete
  have hparsed := Discovery.files_parsed (Except.mapError_ok hfiles)
  exact ⟨_, settingAt_of_steps hpackage hentry hfiles, ⟨files, rfl, hparsed⟩, hne, rfl, hbundle⟩

/-- A run that gets through its steps gives an analysis. -/
theorem analyze_of_steps {entry : Path} {files : List SourceFile} {patterns : List PatternEntry} {bundle : String}
    (hpackage : r.readPackage root.normalize = .ok package)
    (hentry : r.typingsEntry root.normalize package = .ok entry) (hfiles : r.discover entry = .ok files)
    (hs : r.setting root.normalize package files = s) (hne : Registry.ofSetting s ≠ [])
    (hpatterns : (Registry.ofSetting s).map (r.entryWithContent s (Registry.ofSetting s)
      (r.libraryId (packageTitle root.normalize package))) = patterns)
    (hbundle : r.bundler r.fs (patterns.map bundleEntry) = .ok bundle) :
    r.analyze root = .ok ⟨r.libraryId (packageTitle root.normalize package), root.normalize, package, patterns, bundle⟩ := by
  subst hs hpatterns
  have hsome : ¬ (Registry.ofSetting (r.setting root.normalize package files)).isEmpty = true := by simpa using hne
  have hbundled : (Except.ok bundle).mapError Failure.ofBundler = .ok bundle := rfl
  unfold bundleEntry at hbundle
  simp only [analyze, discovered, complete, hpackage, hentry, hfiles, hbundle, hbundled, bind, Except.bind, if_neg hsome, pure,
    Except.pure]

/-! ## Entries -/

/-- What the analysis says of a component, given those registered before it. -/
structure Describes (s : Setting) (before : List Listing) (x : Listing) (e : PatternEntry) : Prop where
  path : e.path = x.1.artifactPath
  declarationPath : e.declarationPath = x.1.declarationPath
  contextId : e.pattern.contextId = s.componentContextId x.2
  id : e.pattern.id = s.patternId x.2
  propertyIds : e.pattern.propertyIds =
    (s.propertyMembers x.2).map fun m => (s.ownerId? before m.key).getD (s.mintedId x.2 m)
  properties : e.properties =
    ((s.propertyMembers x.2).filter fun m => (s.ownerId? before m.key).isNone).map
      (Property.ofMember s.library s.ids (s.patternId x.2))
  slots : e.pattern.slots.map (fun t => (t.contextId, t.id)) =
    (s.slotNames x.2).map fun name => (name, s.ids.slot (s.patternId x.2) name)

/-- Filling slots with content keeps what does not depend on it. -/
theorem map_zipWith_fill {α β κ : Type} {fill : α → β → α} {key : α → κ} (hfill : ∀ t d, key (fill t d) = key t)
    (ts : List α) (ds : List β) (hlength : ts.length = ds.length) : (List.zipWith fill ts ds).map key = ts.map key := by
  induction ts generalizing ds with
  | nil => rfl
  | cons t ts ih =>
    cases ds with
    | nil => cases hlength
    | cons d ds => simp [hfill, ih ds (Nat.succ.inj hlength)]

theorem describes_registration (r : Run) (s : Setting) (rs : Registry) (libraryId : String) (before : List Listing)
    (x : Listing) : Describes s before x (r.entryWithContent s rs libraryId (s.registration before x)) where
  path := rfl
  declarationPath := rfl
  contextId := s.build_contextId (s.ownerId? before) x.2
  id := s.build_id (s.ownerId? before) x.2
  propertyIds := s.build_pattern_propertyIds (s.ownerId? before) x.2
  properties := s.build_properties (s.ownerId? before) x.2
  slots := by
    refine Eq.trans ?_ (s.build_slots (s.ownerId? before) x.2)
    refine map_zipWith_fill ?_ _ _ ?_
    · exact fun _ _ => rfl
    · exact (s.length_slotSources (s.ownerId? before) x.2).symm

namespace Analyzed

variable {r : Run} {root : Path} {s : Setting} {a : Analysis}

theorem ids_eq (h : r.Analyzed root s a) : s.ids = r.ids := by
  obtain ⟨found, rfl, -⟩ := h.files
  rfl

theorem options_eq (h : r.Analyzed root s a) : s.options = r.options := by
  obtain ⟨found, rfl, -⟩ := h.files
  rfl

theorem exists_listing (h : r.Analyzed root s a) {e : PatternEntry} (he : e ∈ a.patterns) :
    ∃ before x after, s.registered = before ++ x :: after ∧ Describes s before x e := by
  rw [h.patterns] at he
  obtain ⟨g, hg, rfl⟩ := List.mem_map.mp he
  rw [Registry.ofSetting_eq] at hg
  obtain ⟨before, x, after, hxs, rfl⟩ := s.mem_registrations.mp hg
  exact ⟨before, x, after, hxs, describes_registration r s _ _ _ x⟩

theorem exists_entry (h : r.Analyzed root s a) {before after : List Listing} {x : Listing}
    (hxs : s.registered = before ++ x :: after) : ∃ e ∈ a.patterns, Describes s before x e := by
  refine ⟨_, ?_, describes_registration r s (Registry.ofSetting s) a.id before x⟩
  rw [h.patterns]
  refine List.mem_map.mpr ⟨_, ?_, rfl⟩
  rw [Registry.ofSetting_eq]
  exact s.mem_registrations.mpr ⟨before, x, after, hxs, rfl⟩

/-- A property that a pattern lists is made from a member. -/
theorem exists_member (h : r.Analyzed root s a) {e : PatternEntry} (he : e ∈ a.patterns) {p : Property}
    (hp : p ∈ e.properties) : ∃ m, p = Property.ofMember s.library s.ids e.pattern.id m := by
  obtain ⟨before, x, after, -, hdesc⟩ := h.exists_listing he
  rw [hdesc.properties] at hp
  obtain ⟨m, -, rfl⟩ := List.mem_map.mp hp
  exact ⟨m, by rw [hdesc.id]⟩

/-- The context ids of an analysis are those of the registered components, in order. -/
theorem contextIds (h : r.Analyzed root s a) :
    a.patterns.map (·.pattern.contextId) = s.registered.map fun x => s.componentContextId x.2 := by
  have hregistrations : ∀ before xs, (s.registrations before xs).map (fun g => g.build.pattern.contextId) =
      xs.map fun x => s.componentContextId x.2 := by
    intro before xs
    induction xs generalizing before with
    | nil => rfl
    | cons x xs ih =>
      rw [Setting.registrations, List.map_cons, List.map_cons, ih, Setting.registration, Setting.build_contextId]
  rw [h.patterns, List.map_map, Registry.ofSetting_eq]
  exact hregistrations [] s.registered

end Analyzed

end Run

end PatternCatalog
