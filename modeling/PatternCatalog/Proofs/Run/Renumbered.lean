/-
  PatternCatalog.Proofs.Run.Renumbered — code that only moves within its files.

  An example in a slot is made of names, so it shows the same elements in a library in which names
  mean the same (`Slot.content?_of_sameNames`), and its walks end where they ended
  (`Slot.contentEnds_of_sameNames`). A pattern that is built on demand shares nothing, so the
  offsets of its members are of no account (`Registry.pattern?_renumbered`). Nothing else of a run
  has to do with offsets:
  - `same_outcome_renumbered`: the registry is the same up to the offsets in it, and the run has
    the same outcome, patterns with default content and the bundle.
-/

import PatternCatalog.Proofs.Renumbered.Extended
import PatternCatalog.Proofs.Run.Examples

namespace PatternCatalog

/-! ## Examples of slots -/

theorem Library.SameNames.tag?_eq {l l' : Library} (h : l.SameNames l') (file : Nat) (imports : List Markup.Import) :
    Scope.tag? ⟨l', file, imports⟩ = Scope.tag? ⟨l, file, imports⟩ := by
  have hfirst : Scope.first? ⟨l', file, imports⟩ = Scope.first? ⟨l, file, imports⟩ := by
    funext name
    simp only [Scope.first?, Scope.importSymbol?, h.module?_eq, h.exported?_eq, h.local?_eq]
  funext tag
  unfold Scope.tag?
  simp only [hfirst, h.exported?_eq]

namespace ContentSetting

variable (c : ContentSetting) {scope : Scope}

mutual

/-- Of the place of an example only counts what its tags name. -/
theorem element?_of_tag? (htag : scope.tag? = c.scope.tag?) (parent id : String) : (n : Markup.Node) →
    element? { c with scope } parent id n = c.element? parent id n
  | ⟨tag, attributes, children⟩ => by rw [element?, element?, htag, elements?_of_tag? htag id 0 children]

theorem elements?_of_tag? (htag : scope.tag? = c.scope.tag?) (parent : String) (index : Nat) : (ns : List Markup.Node) →
    elements? { c with scope } parent index ns = c.elements? parent index ns
  | [] => rfl
  | n :: ns => by rw [elements?, elements?, element?_of_tag? htag parent _ n, elements?_of_tag? htag parent (index + 1) ns]

end

theorem scan?_of_tag? (htag : scope.tag? = c.scope.tag?) (ends : DeclarationKey → Bool) (tags : List (List String)) :
    scan? { c with scope } ends tags = c.scan? ends tags := by
  induction tags with
  | nil => rfl
  | cons tag tags ih => rw [scan?, scan?, htag, ih]

end ContentSetting

namespace Slot

variable {l l' : Library} (h : l.SameNames l') (digest : Digest) (pattern? : DeclarationKey → Option PatternIdentity)
  (libraryId : String) (maxDepth : Nat)

include h

theorem content?_of_sameNames (slotId : String) (source : SlotSource) :
    content? digest l' pattern? libraryId maxDepth slotId source = content? digest l pattern? libraryId maxDepth slotId source := by
  unfold content?
  refine congrArg (Option.bind _) (funext fun block => congrArg (Option.bind _) (funext fun m => ?_))
  exact ContentSetting.element?_of_tag? ⟨digest, ⟨l, source.file, m.imports⟩, pattern?, libraryId⟩ (h.tag?_eq _ _) _ _ _

theorem contentEnds_of_sameNames (ends : DeclarationKey → Bool) :
    contentEnds digest l' pattern? ends libraryId maxDepth = contentEnds digest l pattern? ends libraryId maxDepth := by
  funext source
  unfold contentEnds
  refine congrArg (Option.all · _) (funext fun block => congrArg (Option.all · _) (funext fun m => ?_))
  simp only [ContentSetting.shows?_eq]
  exact congrArg Option.isSome
    (ContentSetting.scan?_of_tag? ⟨digest, ⟨l, source.file, m.imports⟩, pattern?, libraryId⟩ (h.tag?_eq _ _) _ _)

end Slot

/-! ## Patterns on demand -/

namespace Registry

variable {f : Renumbering} (s : Setting) (rs : Registry)

theorem ofDeclaration?_renumbered (key : DeclarationKey) :
    Component.ofDeclaration? (s.renumbered f).library (s.renumbered f).options ((s.renumbered f).library.exportName key) key =
      (Component.ofDeclaration? s.library s.options (s.library.exportName key) key).map f.component := by
  have hname : (s.renumbered f).library.exportName = s.library.exportName := Library.exportName_labeled f.labeling s.library
  rw [hname]
  exact Component.ofDeclaration?_labeled f.labeling s.options _ key

theorem ignored_renumbered (c : Component) : (f.component c).ignored = c.ignored := rfl

/-- Nothing is shared with a pattern that is built on demand. -/
theorem identity_renumbered (c : Component) :
    ((s.renumbered f).build (fun _ => none) (f.component c)).identity = (s.build (fun _ => none) c).identity :=
  (congrArg PatternBuild.identity (Setting.build_renumbered (fun _ => rfl) c)).trans (f.identity_build _)

theorem buildEnds_renumbered (c : Component) :
    (s.renumbered f).buildEnds (fun _ => none) (f.component c) = s.buildEnds (fun _ => none) c :=
  Setting.buildEnds_renumbered (fun _ => rfl) c

theorem pattern?_renumbered : pattern? (s.renumbered f) (rs.map f.registration) = pattern? s rs := by
  funext key
  simp only [pattern?, identity?_renumbered, ofDeclaration?_renumbered, Option.bind_eq_bind, Option.bind_map, Function.comp_def,
    ignored_renumbered, identity_renumbered]

theorem patternEnds_renumbered : patternEnds (s.renumbered f) (rs.map f.registration) = patternEnds s rs := by
  funext key
  have hdecided : Component.isDecided (s.renumbered f).library (s.renumbered f).options =
      Component.isDecided s.library s.options := funext (Component.isDecided_labeled f.labeling s.options)
  simp only [patternEnds, identity?_renumbered, hdecided, ofDeclaration?_renumbered, Option.all_map,
    ignored_renumbered, buildEnds_renumbered]

end Registry

/-! ## The run -/

namespace Run

variable (r : Run) (root : Path) (package : Json) {f : Renumbering} (s : Setting)

theorem sameNames_renumbered : s.library.SameNames (s.renumbered f).library := Library.sameNames_labeled f.labeling s.library

theorem entryWithContent_renumbered (rs : Registry) (libraryId : String) (e : Registration) :
    r.entryWithContent (s.renumbered f) (rs.map f.registration) libraryId (f.registration e) =
      r.entryWithContent s rs libraryId e := by
  have hentry : (f.registration e).entry = e.entry := rfl
  unfold entryWithContent
  simp only [hentry, Registry.pattern?_renumbered, Slot.content?_of_sameNames (sameNames_renumbered s)]
  rfl

theorem complete_renumbered (hf : f.Apart) : r.complete root package (s.renumbered f) = r.complete root package s := by
  have hentries (rs : Registry) (libraryId : String) :
      (rs.map f.registration).map (r.entryWithContent (s.renumbered f) (rs.map f.registration) libraryId) =
        rs.map (r.entryWithContent s rs libraryId) := by
    rw [List.map_map]
    exact List.map_congr_left fun e _ => r.entryWithContent_renumbered s rs libraryId e
  unfold complete
  simp only [Registry.ofSetting_renumbered hf, hentries, List.isEmpty_map]

theorem ends_renumbered (hf : f.Apart) (libraryId : String) : r.ends libraryId (s.renumbered f) = r.ends libraryId s := by
  have hsources (e : Registration) : (f.registration e).build.slotSources = e.build.slotSources := rfl
  unfold ends
  simp only [Registry.ofSetting?_renumbered hf, Option.any_map, Function.comp_def, List.all_map, hsources,
    Registry.pattern?_renumbered, Registry.patternEnds_renumbered, Slot.contentEnds_of_sameNames (sameNames_renumbered s)]

theorem outcome?_renumbered (hf : f.Apart) : r.outcome? root package (s.renumbered f) = r.outcome? root package s := by
  rw [outcome?, ends_renumbered r s hf, complete_renumbered r root package s hf, outcome?]

/-- Where members and declarations start in their files has no part in the outcome of a run, nor in the
registry but for the offsets that it keeps, as long as members that start apart do so afterwards. -/
theorem same_outcome_renumbered (h : f.ApartIn s.library) :
    Registry.ofSetting (s.renumbered f) = (Registry.ofSetting s).map f.registration ∧
      Registry.ofSetting? (s.renumbered f) = (Registry.ofSetting? s).map (List.map f.registration) ∧
      r.complete root package (s.renumbered f) = r.complete root package s ∧
      r.outcome? root package (s.renumbered f) = r.outcome? root package s := by
  have hapart := Renumbering.extended_apart h
  have hregistry := Registry.map_registration_extended (f := f) s
  rw [← s.renumbered_extended]
  refine ⟨(Registry.ofSetting_renumbered hapart s).trans hregistry, ?_, complete_renumbered r root package s hapart,
    outcome?_renumbered r root package s hapart⟩
  rw [Registry.ofSetting?_renumbered hapart]
  refine Option.map_congr fun rs hrs => ?_
  rw [Registry.ofSetting?_eq hrs, hregistry]

/-- The two members of a file exchange their offsets, and all declarations come to start at its beginning. -/
theorem exchanged_offsets_same_outcome :
    let s := hiddenRun.setting ⟨"/lib"⟩ acmePackage [hiddenFile]
    let f : Renumbering := ⟨fun _ n => if n = 77 then 259 else if n = 259 then 77 else 0, fun _ _ => 0⟩
    f.ApartIn s.library ∧
      Registry.ofSetting (s.renumbered f) = (Registry.ofSetting s).map f.registration ∧
      Registry.ofSetting? (s.renumbered f) = (Registry.ofSetting? s).map (List.map f.registration) ∧
      hiddenRun.complete ⟨"/lib"⟩ acmePackage (s.renumbered f) = hiddenRun.complete ⟨"/lib"⟩ acmePackage s ∧
      hiddenRun.outcome? ⟨"/lib"⟩ acmePackage (s.renumbered f) = hiddenRun.outcome? ⟨"/lib"⟩ acmePackage s := by
  intro s f
  have hapart : f.ApartIn s.library := by
    have hstarts : (s.library.moduleAt 0).members.map (·.start) = [77, 259] := by decide +kernel
    intro file m hm n hn
    match file with
    | 0 =>
      have hoffset : ∀ i ∈ [77, 259], ∀ k ∈ [77, 259], f.memberStart 0 i = f.memberStart 0 k → i = k := by decide
      exact hoffset _ (hstarts ▸ List.mem_map_of_mem hm) _ (hstarts ▸ List.mem_map_of_mem hn)
    | file + 1 => cases hm
  exact ⟨hapart, same_outcome_renumbered hiddenRun ⟨"/lib"⟩ acmePackage s hapart⟩

end Run

end PatternCatalog
