/-
  PatternCatalog.Proofs.Renumbered.Patterns — offsets do no more than tell members apart.

  A renumbering says for each file where what starts at an offset starts afterwards. Members are
  told apart by their offsets, and declarations by their place among the declarations of a file.
  So as long as members do not come to start at one offset, the patterns of a library are the
  same before and after (`build_renumbered`). Only the registry, which keeps new properties by the
  members they come from, has the new offsets in place of the old ones (`ofSetting_renumbered`),
  and the registration ends for both or for neither (`ofSetting?_renumbered`).
-/

import PatternCatalog.Proofs.Labels.Kinds
import PatternCatalog.Proofs.Labels.Members
import PatternCatalog.Proofs.Pattern.Build
import PatternCatalog.Registry

namespace PatternCatalog

open Library (MemberRef)

/-! ## Renumberings -/

/-- Where the members and the declarations of each file start instead. -/
structure Renumbering where
  memberStart : Nat → Nat → Nat
  declarationStart : Nat → Nat → Nat

namespace Renumbering

variable (f : Renumbering)

/-- The labels of members that keep their documentation. -/
def labeling : Labeling where
  member file m := ⟨f.memberStart file m.start, m.doc⟩
  declaration file d := f.declarationStart file d.start

/-- No two offsets of a file become one. -/
def Apart : Prop := ∀ file, Function.Injective (f.memberStart file)

def key (k : MemberKey) : MemberKey := ⟨k.file, f.memberStart k.file k.start⟩

def member (m : MemberRef) : MemberRef := m.labeled f.labeling

def component (c : Component) : Component := c.labeled f.labeling

def build (b : PatternBuild) : PatternBuild := { b with minted := b.minted.map f.key }

def registration (e : Registration) : Registration := { e with build := f.build e.build }

variable {f}

theorem Apart.key_inj (hf : f.Apart) {k k' : MemberKey} (h : f.key k = f.key k') : k = k' := by
  obtain ⟨file, start⟩ := k
  obtain ⟨file', start'⟩ := k'
  obtain ⟨rfl, hstart⟩ := MemberKey.mk.inj h
  exact congrArg (MemberKey.mk file) (hf file hstart)

variable (f)

theorem identity_build (b : PatternBuild) : (f.build b).identity = b.identity := rfl

theorem mint_build (b : PatternBuild) (key : MemberKey) (p : Property) :
    (f.build b).mint (f.key key) p = f.build (b.mint key p) := by
  simp [build, PatternBuild.mint]

theorem newProperties_build (b : PatternBuild) :
    (f.build b).newProperties = b.newProperties.map fun p => (f.key p.1, p.2) := List.zip_map_left

end Renumbering

def Library.renumbered (f : Renumbering) (l : Library) : Library := l.labeled f.labeling

def Setting.renumbered (f : Renumbering) (s : Setting) : Setting := { s with library := s.library.renumbered f }

/-! ## Patterns -/

namespace Setting

variable (f : Renumbering) (s : Setting)

theorem slotQuantity?_renumbered (m : MemberRef) : (s.renumbered f).slotQuantity? (f.member m) = s.slotQuantity? m :=
  Slot.detect?_labeled f.labeling s.options m _

theorem kind?_renumbered (propertyId : String) (m : MemberRef) :
    PropertyKind.ofMember? (s.renumbered f).library s.ids propertyId (f.member m) (Doc.parse? (f.member m).member.doc) =
      PropertyKind.ofMember? s.library s.ids propertyId m (Doc.parse? m.member.doc) :=
  PropertyKind.ofMember?_labeled f.labeling s.ids propertyId m _

theorem property_renumbered (patternId : String) (m : MemberRef) :
    Property.ofMember (s.renumbered f).library s.ids patternId (f.member m) = Property.ofMember s.library s.ids patternId m := by
  have hkind (id : String) (doc : Doc.Comment) : PropertyKind.ofMember (s.renumbered f).library s.ids id (f.member m) doc =
      PropertyKind.ofMember s.library s.ids id m doc :=
    PropertyKind.ofMember_labeled f.labeling s.ids id m doc
  have hdoc : (f.member m).member.doc = m.member.doc := rfl
  have hname : (f.member m).name = m.name := rfl
  simp only [Property.ofMember, hdoc, hname, hkind]
  rfl

theorem members_renumbered (c : Component) : (s.renumbered f).members (f.component c) = (s.members c).map f.member := by
  have hprops : (f.component c).shape.props = c.shape.props.map (Library.Place.labeled f.labeling) := rfl
  rw [members, hprops, members]
  cases c.shape.props with
  | none => rfl
  | some p => exact Library.apparentMembers_labeled f.labeling p

theorem patternName_renumbered (c : Component) : (s.renumbered f).patternName (f.component c) = s.patternName c := by
  have hown : (s.renumbered f).library.declaration? (f.component c).shape.key =
      (s.library.declaration? c.shape.key).map (Declaration.labeled f.labeling c.shape.key.file) :=
    Library.declaration?_labeled f.labeling s.library c.shape.key
  rw [patternName, hown, Option.map_map]
  rfl

theorem addImplied_renumbered (patternId : String) (c : Component) (b : PatternBuild) :
    (s.renumbered f).addImplied patternId (f.component c) (f.build b) = f.build (s.addImplied patternId c b) := by
  rw [addImplied, addImplied, apply_ite f.build]
  rfl

section Shared

variable {f s} {sharedId? sharedId?' : MemberKey → Option String} (hshared : ∀ key, sharedId?' (f.key key) = sharedId? key)

include hshared

theorem addMember_renumbered (patternId : String) (b : PatternBuild) (m : MemberRef) :
    (s.renumbered f).addMember patternId sharedId?' (f.build b) (f.member m) =
      f.build (s.addMember patternId sharedId? b m) := by
  have hkey : sharedId?' (f.member m).key = sharedId? m.key := hshared m.key
  have hids : (s.renumbered f).ids = s.ids := rfl
  have hignored : isIgnored (f.member m) = isIgnored m := rfl
  have hmint := f.mint_build b m.key (Property.ofMember s.library s.ids patternId m)
  rw [addMember_eq, addMember_eq, slotQuantity?_renumbered, hids, hkey, property_renumbered, hignored]
  cases isIgnored m with
  | true => rfl
  | false =>
    cases s.slotQuantity? m with
    | some q => rfl
    | none =>
      cases sharedId? m.key with
      | some id => rfl
      | none => exact congrArg (PatternBuild.refer · m.name (s.ids.property patternId m.name)) hmint

theorem partEnds_renumbered (patternId : String) (m : MemberRef) :
    (s.renumbered f).partEnds patternId sharedId?' (f.member m) = s.partEnds patternId sharedId? m := by
  have hkey : sharedId?' (f.member m).key = sharedId? m.key := hshared m.key
  have hids : (s.renumbered f).ids = s.ids := rfl
  have hname : (f.member m).name = m.name := rfl
  have hignored : isIgnored (f.member m) = isIgnored m := rfl
  rw [partEnds_eq, partEnds_eq, slotQuantity?_renumbered, hids, hname, hkey, kind?_renumbered, hignored]

theorem build_renumbered (c : Component) :
    (s.renumbered f).build sharedId?' (f.component c) = f.build (s.build sharedId? c) := by
  have hblank : (s.renumbered f).blank (f.component c) = f.build (s.blank c) := by
    rw [blank, patternName_renumbered]
    rfl
  have hloop : (s.members c).foldl (fun b m => (s.renumbered f).addMember (s.patternId c) sharedId?' b (f.member m))
      (f.build (s.blank c)) = f.build ((s.members c).foldl (s.addMember (s.patternId c) sharedId?) (s.blank c)) :=
    List.foldl_hom f.build fun b m => addMember_renumbered hshared (s.patternId c) b m
  have hbuild : (s.renumbered f).build sharedId?' (f.component c) =
      (s.renumbered f).addImplied (s.patternId c) (f.component c) (((s.renumbered f).members (f.component c)).foldl
        ((s.renumbered f).addMember (s.patternId c) sharedId?') ((s.renumbered f).blank (f.component c))) := rfl
  rw [hbuild, members_renumbered, hblank, List.foldl_map, hloop, addImplied_renumbered]
  rfl

theorem buildEnds_renumbered (c : Component) :
    (s.renumbered f).buildEnds sharedId?' (f.component c) = s.buildEnds sharedId? c := by
  rw [buildEnds, members_renumbered, List.all_map, buildEnds]
  exact congrArg (List.all _) (funext fun m => partEnds_renumbered hshared _ m)

end Shared

end Setting

/-! ## Registries -/

theorem lookup_map_inj {α β γ : Type} [BEq α] [LawfulBEq α] [BEq β] [LawfulBEq β] {f : α → β} (hf : Function.Injective f)
    (k : α) (as : List (α × γ)) : (as.map fun a => (f a.1, a.2)).lookup (f k) = as.lookup k := by
  induction as with
  | nil => rfl
  | cons a as ih =>
    obtain ⟨key, value⟩ := a
    have hkey : (f k == f key) = (k == key) := by simp [hf.eq_iff]
    rw [List.map_cons, List.lookup_cons, List.lookup_cons, ih, hkey]

namespace Registry

open Setting (renumbered)

variable {f : Renumbering} (hf : f.Apart) {s : Setting} (rs : Registry)

include hf in
theorem propertyId?_renumbered (key : MemberKey) :
    propertyId? (rs.map f.registration) (f.key key) = rs.propertyId? key := by
  have hproperties : (rs.map f.registration).flatMap (·.build.newProperties) =
      (rs.flatMap (·.build.newProperties)).map fun p => (f.key p.1, p.2) := by
    rw [List.flatMap_map, List.map_flatMap]
    exact congrArg (List.flatMap · rs) (funext fun e => f.newProperties_build e.build)
  rw [propertyId?, hproperties, ← List.map_reverse, lookup_map_inj fun _ _ => hf.key_inj, propertyId?]

theorem any_key_renumbered (key : DeclarationKey) : (rs.map f.registration).any (·.key == key) = rs.any (·.key == key) := by
  rw [List.any_map]
  rfl

theorem identity?_renumbered : identity? (rs.map f.registration) = rs.identity? := by
  funext key
  rw [identity?, List.find?_map, Option.map_map, identity?]
  rfl

include hf in
theorem add_renumbered (candidate : Candidate) (c : Component) :
    add (s.renumbered f) candidate (rs.map f.registration) (f.component c) = (add s candidate rs c).map f.registration := by
  have hkey : (f.component c).shape.key = c.shape.key := rfl
  have hignored : (f.component c).ignored = c.ignored := rfl
  rw [add, hignored, hkey, any_key_renumbered, Setting.build_renumbered (propertyId?_renumbered hf rs), add]
  split
  · rfl
  · rw [List.map_append, List.map_singleton]
    rfl

include hf in
theorem add?_renumbered (candidate : Candidate) (c : Component) :
    add? (s.renumbered f) candidate (rs.map f.registration) (f.component c) =
      (add? s candidate rs c).map (List.map f.registration) := by
  have hkey : (f.component c).shape.key = c.shape.key := rfl
  have hignored : (f.component c).ignored = c.ignored := rfl
  rw [add?, hignored, hkey, any_key_renumbered, Setting.buildEnds_renumbered (propertyId?_renumbered hf rs), add_renumbered hf,
    add?]
  split <;> rfl

theorem exported_renumbered (file : Nat) : Component.exported (s.renumbered f).library s.options file =
    (Component.exported s.library s.options file).map f.component :=
  Component.exported_labeled f.labeling s.options file

/-- A run of steps that commute with the renumbering commutes with it. -/
theorem foldlM_renumbered {α β : Type} {step : Registry → α → Option Registry} {step' : Registry → β → Option Registry}
    {g : α → β} (hstep : ∀ rs a, step' (rs.map f.registration) (g a) = (step rs a).map (List.map f.registration)) (as : List α) :
    (as.map g).foldlM step' (rs.map f.registration) = (as.foldlM step rs).map (List.map f.registration) := by
  induction as generalizing rs with
  | nil => rfl
  | cons a as ih =>
    rw [List.map_cons, List.foldlM_cons, hstep, List.foldlM_cons]
    cases step rs a with
    | none => rfl
    | some next => exact ih next

include hf in
theorem addFile_renumbered (file : Candidate × Nat) :
    addFile (s.renumbered f) (rs.map f.registration) file = (addFile s rs file).map f.registration := by
  have hexported : Component.exported (s.renumbered f).library (s.renumbered f).options file.2 =
      (Component.exported s.library s.options file.2).map f.component := exported_renumbered file.2
  rw [addFile, hexported, addFile, List.foldl_map]
  exact List.foldl_hom (List.map f.registration) fun rs c => add_renumbered hf rs file.1 c

include hf in
theorem addFile?_renumbered (file : Candidate × Nat) :
    addFile? (s.renumbered f) (rs.map f.registration) file = (addFile? s rs file).map (List.map f.registration) := by
  have hexported : Component.exported (s.renumbered f).library (s.renumbered f).options file.2 =
      (Component.exported s.library s.options file.2).map f.component := exported_renumbered file.2
  have hexports : (s.renumbered f).library.localExports file.2 = s.library.localExports file.2 :=
    Library.localExports_labeled f.labeling s.library file.2
  have hdecided : Component.isDecided (s.renumbered f).library (s.renumbered f).options =
      Component.isDecided s.library s.options := funext (Component.isDecided_labeled f.labeling s.options)
  rw [addFile?, hexported, hexports, hdecided, addFile?]
  split
  · exact foldlM_renumbered rs (fun rs c => add?_renumbered hf rs file.1 c) _
  · rfl

include hf

/-- The registry has the same patterns, and the same new properties by the members at their new offsets. -/
theorem ofSetting_renumbered (s : Setting) : ofSetting (s.renumbered f) = (ofSetting s).map f.registration := by
  change s.candidates.zipIdx.foldl (addFile (s.renumbered f)) (([] : Registry).map f.registration) = _
  exact List.foldl_hom (List.map f.registration) fun rs file => addFile_renumbered hf rs file

theorem ofSetting?_renumbered (s : Setting) : ofSetting? (s.renumbered f) = (ofSetting? s).map (List.map f.registration) := by
  have hrun := foldlM_renumbered (g := id) [] (fun rs file => addFile?_renumbered hf (s := s) rs file) s.candidates.zipIdx
  rwa [List.map_id] at hrun

end Registry

end PatternCatalog
