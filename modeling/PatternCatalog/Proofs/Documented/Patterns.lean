/-
  PatternCatalog.Proofs.Documented.Patterns — patterns of a library whose slots give other examples.

  Two documentations may differ only in the examples that slots give (`Setting.SameButExamples`).
  What is said in a comment besides its examples makes a member a slot or not and describes the
  slot, so a member is the same part of a pattern under both, and only the source that is kept
  for the content of a slot is another (`addMember_documented`). So the registries are the same but
  for such sources (`ofSetting_documented`), and the registration ends for both or for neither
  (`ofSetting?_documented`).
-/

import PatternCatalog.Proofs.Doc.Examples
import PatternCatalog.Proofs.Documented.Library
import PatternCatalog.Proofs.Labels.Kinds
import PatternCatalog.Proofs.Labels.Members
import PatternCatalog.Proofs.Registry

namespace PatternCatalog

open Library (MemberRef)

/-! ## Patterns without the sources of their slots -/

def SlotSource.unread (source : SlotSource) : SlotSource := { source with doc := none }

def PatternBuild.unread (b : PatternBuild) : PatternBuild := { b with slotSources := b.slotSources.map SlotSource.unread }

/-- A registration without the documentation that is kept for the content of its slots. -/
def Registration.unread (e : Registration) : Registration := { e with build := e.build.unread }

theorem PatternBuild.unread_addSlot (b : PatternBuild) (slot : Slot) (source : SlotSource) :
    (b.addSlot slot source).unread = b.unread.addSlot slot source.unread := by
  simp [unread, addSlot]

namespace Registry

variable {rs rs' : Registry}

theorem propertyId?_unread (rs : Registry) : propertyId? (rs.map Registration.unread) = rs.propertyId? := by
  funext key
  rw [propertyId?, List.flatMap_map]
  rfl

end Registry

/-! ## Slots -/

namespace Slot

variable {doc doc' : Doc.Comment}

theorem ofMember_of_withoutExamples (h : doc.withoutExamples = doc'.withoutExamples) (ids : Identity.Strategy)
    (patternId : String) (m : MemberRef) (q : SlotQuantity) :
    ofMember ids patternId m doc q = ofMember ids patternId m doc' q := by
  obtain ⟨htag, hdescription, htext⟩ := Doc.Comment.withoutExamples_eq h
  rw [ofMember, htext "name" (by decide), htext "example" (by decide), hdescription, htag, ofMember]

theorem detect?_of_withoutExamples (h : doc.withoutExamples = doc'.withoutExamples) (l : Library) (o : Options)
    (m : MemberRef) : detect? l o m doc = detect? l o m doc' := by
  rw [detect?, (Doc.Comment.withoutExamples_eq h).1, detect?]

end Slot

namespace Setting

def documented (g : Documentation) (s : Setting) : Setting := { s with library := s.library.documented g }

/-- Two documentations of a library that differ in the examples of slots only. -/
def SameButExamples (s : Setting) (g g' : Documentation) : Prop :=
  ∀ m : MemberRef, g m.file m.member = g' m.file m.member ∨
    ((s.documented g).slotQuantity? (m.documented g)).isSome ∧
      ∃ raw raw', g m.file m.member = some raw ∧ g' m.file m.member = some raw' ∧ Doc.SameButExamples raw raw'

/-! ## Members -/

section Documented

variable (g : Documentation) {s : Setting} {m : MemberRef} {c : Component}

theorem slotQuantity?_documented : (s.documented g).slotQuantity? (m.documented g) =
    Slot.detect? s.library s.options m (Doc.parse? (g m.file m.member)) :=
  Slot.detect?_labeled g.labeling s.options m _

theorem isIgnored_documented : isIgnored (m.documented g) = (Doc.parse? (g m.file m.member)).hasTag "ignore" := rfl

theorem propertyOfMember_documented {g g' : Documentation} (h : g m.file m.member = g' m.file m.member) (ids : Identity.Strategy)
    (patternId : String) : Property.ofMember (s.documented g).library ids patternId (m.documented g) =
      Property.ofMember (s.documented g').library ids patternId (m.documented g') := by
  have hdoc : (m.documented g).member.doc = g m.file m.member := rfl
  have hdoc' : (m.documented g').member.doc = g' m.file m.member := rfl
  have hkind (g : Documentation) (propertyId : String) (doc : Doc.Comment) :
      PropertyKind.ofMember (s.documented g).library ids propertyId (m.documented g) doc =
        PropertyKind.ofMember s.library ids propertyId m doc := PropertyKind.ofMember_labeled g.labeling ids propertyId m doc
  simp only [Property.ofMember, hkind, hdoc, hdoc', h]
  rfl

theorem contextId_documented : (s.documented g).contextId = s.contextId := rfl

theorem patternName_documented : (s.documented g).patternName (c.documented g) = s.patternName c := by
  have hown : (s.documented g).library.declaration? (c.documented g).shape.key =
      (s.library.declaration? c.shape.key).map (Declaration.relabeled (g.label c.shape.key.file)) :=
    Library.declaration?_labeled g.labeling s.library c.shape.key
  rw [patternName, hown, Option.map_map]
  rfl

theorem blank_documented : (s.documented g).blank (c.documented g) = s.blank c := by
  rw [blank, patternName_documented]
  rfl

theorem addImplied_documented (patternId : String) (b : PatternBuild) :
    ((s.documented g).addImplied patternId (c.documented g) b).unread = s.addImplied patternId c b.unread := by
  rw [addImplied, addImplied, apply_ite PatternBuild.unread, PatternBuild.unread_addSlot]
  rfl

theorem members_documented : (s.documented g).members (c.documented g) = (s.members c).map (MemberRef.documented g) := by
  have hprops : (c.documented g).shape.props = c.shape.props.map (Library.Place.documented g) := rfl
  rw [members, hprops, members]
  cases c.shape.props with
  | none => rfl
  | some p => exact Library.apparentMembers_labeled g.labeling p

end Documented

section Examples

variable {s : Setting} {g g' : Documentation} (h : s.SameButExamples g g')

include h

/-- Besides its examples a member says the same. -/
theorem SameButExamples.withoutExamples (m : MemberRef) :
    (Doc.parse? (g m.file m.member)).withoutExamples = (Doc.parse? (g' m.file m.member)).withoutExamples := by
  rcases h m with hsame | ⟨-, raw, raw', hraw, hraw', hlines⟩
  · rw [hsame]
  · rw [hraw, hraw']
    exact Doc.parse_of_sameButExamples hlines

/-- A member that is no slot says the same. -/
theorem SameButExamples.eq_of_property {m : MemberRef}
    (hproperty : Slot.detect? s.library s.options m (Doc.parse? (g m.file m.member)) = none) :
    g m.file m.member = g' m.file m.member := by
  rcases h m with hsame | ⟨hslot, -⟩
  · exact hsame
  · rw [slotQuantity?_documented, hproperty] at hslot
    cases hslot

theorem addMember_documented (patternId : String) (sharedId? : MemberKey → Option String) {b b' : PatternBuild}
    (hb : b.unread = b'.unread) (m : MemberRef) :
    ((s.documented g).addMember patternId sharedId? b (m.documented g)).unread =
      ((s.documented g').addMember patternId sharedId? b' (m.documented g')).unread := by
  have hkey : (m.documented g).key = (m.documented g').key := rfl
  have hids : (s.documented g).ids = (s.documented g').ids := rfl
  have hdoc := h.withoutExamples m
  rw [addMember_eq, addMember_eq, slotQuantity?_documented, slotQuantity?_documented, isIgnored_documented, isIgnored_documented,
    hkey, hids, (Doc.Comment.withoutExamples_eq hdoc).1, ← Slot.detect?_of_withoutExamples hdoc]
  split
  · exact hb
  · split
    · next q _ =>
      have hslot : Slot.ofMember (s.documented g').ids patternId (m.documented g) (Doc.parse? (m.documented g).member.doc) q =
          Slot.ofMember (s.documented g').ids patternId (m.documented g') (Doc.parse? (m.documented g').member.doc) q :=
        Slot.ofMember_of_withoutExamples hdoc (s.documented g').ids patternId m q
      rw [PatternBuild.unread_addSlot, PatternBuild.unread_addSlot, hb, hslot]
      rfl
    · next hproperty =>
      rw [propertyOfMember_documented (h.eq_of_property hproperty)]
      cases sharedId? (m.documented g').key with
      | some id => exact congrArg (PatternBuild.refer · m.name id) hb
      | none =>
        exact congrArg (fun b => (PatternBuild.mint b _ _).refer m.name ((s.documented g').ids.property patternId m.name)) hb

/-- The walk of a new property ends under both documentations or under none. -/
theorem partEnds_documented (patternId : String) (sharedId? : MemberKey → Option String) (m : MemberRef) :
    (s.documented g).partEnds patternId sharedId? (m.documented g) =
      (s.documented g').partEnds patternId sharedId? (m.documented g') := by
  have hkey : (m.documented g).key = (m.documented g').key := rfl
  have hkind (g : Documentation) : PropertyKind.ofMember? (s.documented g).library (s.documented g).ids
        ((s.documented g).ids.property patternId (m.documented g).name) (m.documented g) (Doc.parse? (m.documented g).member.doc) =
      PropertyKind.ofMember? s.library s.ids (s.ids.property patternId m.name) m (Doc.parse? (g m.file m.member)) :=
    PropertyKind.ofMember?_labeled g.labeling s.ids _ m _
  have hdoc := h.withoutExamples m
  rw [partEnds_eq, partEnds_eq, slotQuantity?_documented, slotQuantity?_documented, isIgnored_documented, isIgnored_documented,
    hkey, hkind, hkind, (Doc.Comment.withoutExamples_eq hdoc).1, ← Slot.detect?_of_withoutExamples hdoc]
  cases hquantity : Slot.detect? s.library s.options m (Doc.parse? (g m.file m.member)) with
  | some q => simp only [Option.isSome_some, Bool.or_true, Bool.true_or]
  | none => rw [h.eq_of_property hquantity]

/-! ## Components -/

theorem build_documented (sharedId? : MemberKey → Option String) (c : Component) :
    ((s.documented g).build sharedId? (c.documented g)).unread = ((s.documented g').build sharedId? (c.documented g')).unread := by
  have hbuild (g : Documentation) : ((s.documented g).build sharedId? (c.documented g)).unread =
      s.addImplied (s.patternId c) c
        ((s.members c).foldl (fun b m => (s.documented g).addMember (s.patternId c) sharedId? b (m.documented g)) (s.blank c)).unread := by
    rw [← List.foldl_map, ← members_documented, ← blank_documented g, ← addImplied_documented]
    rfl
  rw [hbuild, hbuild]
  refine congrArg (s.addImplied (s.patternId c) c) ?_
  exact List.foldl_rel (r := fun b b' : PatternBuild => b.unread = b'.unread) rfl fun m _ _ _ hb =>
    addMember_documented h (s.patternId c) sharedId? hb m

theorem buildEnds_documented (sharedId? : MemberKey → Option String) (c : Component) :
    (s.documented g).buildEnds sharedId? (c.documented g) = (s.documented g').buildEnds sharedId? (c.documented g') := by
  have hids (g : Documentation) : (s.documented g).ids = s.ids := rfl
  have hkey (g : Documentation) : (c.documented g).shape.key = c.shape.key := rfl
  have hexport (g : Documentation) : (c.documented g).exportName = c.exportName := rfl
  simp only [buildEnds, contextId_documented, hids, hkey, hexport, members_documented, List.all_map]
  exact congrArg (List.all _) (funext fun m => partEnds_documented h _ sharedId? m)

end Examples

end Setting

/-! ## Registries -/

namespace Registry

section Alike

variable {β : Type} {view : Registration → β}

/-- Registries that are alike to a view which shows the declarations have the same ones. -/
theorem any_key_alike {rs rs' : Registry} (hrs : rs.map view = rs'.map view) (keyOf : β → DeclarationKey)
    (hkey : ∀ g, keyOf (view g) = g.key) (key : DeclarationKey) : rs.any (·.key == key) = rs'.any (·.key == key) := by
  have hany (rs : Registry) : rs.any (·.key == key) = (rs.map view).any (keyOf · == key) := by
    simp only [List.any_map, Function.comp_def, hkey]
  rw [hany, hrs, ← hany]

/-- Steps that keep registries alike keep them alike in a run, and one run ends where the other does. -/
theorem foldlM_alike {α : Type} {step step' : Registry → α → Option Registry}
    (hstep : ∀ a rs rs', rs.map view = rs'.map view → (step rs a).map (List.map view) = (step' rs' a).map (List.map view))
    {rs rs' : Registry} (hrs : rs.map view = rs'.map view) (as : List α) :
    (as.foldlM step rs).map (List.map view) = (as.foldlM step' rs').map (List.map view) := by
  induction as generalizing rs rs' with
  | nil => exact congrArg some hrs
  | cons a as ih =>
    have ha := hstep a rs rs' hrs
    rw [List.foldlM_cons, List.foldlM_cons]
    cases hnext : step rs a with
    | none =>
      rw [hnext] at ha
      rw [Option.map_eq_none_iff.mp ha.symm]
      rfl
    | some next =>
      rw [hnext] at ha
      obtain ⟨next', hnext', hnexts⟩ := Option.map_eq_some_iff.mp ha.symm
      rw [hnext']
      exact ih hnexts.symm

end Alike

open Setting (documented SameButExamples)

variable {s : Setting} {g g' : Documentation} (h : s.SameButExamples g g') {rs rs' : Registry}
  (hrs : rs.map Registration.unread = rs'.map Registration.unread)

include hrs

theorem propertyId?_eq_of_unread : rs.propertyId? = rs'.propertyId? := by
  rw [← propertyId?_unread, hrs, propertyId?_unread]

include h

theorem add_documented (candidate : Candidate) (c : Component) :
    (add (s.documented g) candidate rs (c.documented g)).map Registration.unread =
      (add (s.documented g') candidate rs' (c.documented g')).map Registration.unread := by
  have hbuild := Setting.build_documented h rs'.propertyId? c
  have hkey : (c.documented g).shape.key = (c.documented g').shape.key := rfl
  have hignored : (c.documented g).ignored = (c.documented g').ignored := rfl
  unfold add
  rw [hignored, any_key_alike hrs Registration.key fun _ => rfl, propertyId?_eq_of_unread hrs, hkey]
  split
  · exact hrs
  · rw [List.map_append, List.map_append, hrs, List.map_singleton, List.map_singleton, Registration.unread, hbuild]
    rfl

theorem add?_documented (candidate : Candidate) (c : Component) :
    (add? (s.documented g) candidate rs (c.documented g)).map (List.map Registration.unread) =
      (add? (s.documented g') candidate rs' (c.documented g')).map (List.map Registration.unread) := by
  have hadd := add_documented h hrs candidate c
  have hkey : (c.documented g).shape.key = (c.documented g').shape.key := rfl
  have hignored : (c.documented g).ignored = (c.documented g').ignored := rfl
  unfold add?
  rw [hignored, any_key_alike hrs Registration.key fun _ => rfl, propertyId?_eq_of_unread hrs, hkey,
    Setting.buildEnds_documented h]
  split
  · exact congrArg some hadd
  · rfl

theorem addFile_documented (file : Candidate × Nat) :
    (addFile (s.documented g) rs file).map Registration.unread = (addFile (s.documented g') rs' file).map Registration.unread := by
  have hexported (g : Documentation) : Component.exported (s.documented g).library (s.documented g).options file.2 =
      (Component.exported s.library s.options file.2).map (Component.documented g) :=
    Component.exported_labeled g.labeling s.options file.2
  rw [addFile, addFile, hexported, hexported, List.foldl_map, List.foldl_map]
  exact List.foldl_rel (r := fun (rs rs' : Registry) => rs.map Registration.unread = rs'.map Registration.unread) hrs
    fun c _ rs rs' hrs => add_documented h hrs file.1 c

theorem addFile?_documented (file : Candidate × Nat) :
    (addFile? (s.documented g) rs file).map (List.map Registration.unread) =
      (addFile? (s.documented g') rs' file).map (List.map Registration.unread) := by
  have hexported (g : Documentation) : Component.exported (s.documented g).library (s.documented g).options file.2 =
      (Component.exported s.library s.options file.2).map (Component.documented g) :=
    Component.exported_labeled g.labeling s.options file.2
  have hexports (g : Documentation) : (s.documented g).library.localExports file.2 = s.library.localExports file.2 :=
    Library.localExports_labeled g.labeling s.library file.2
  have hdecided (g : Documentation) (key : DeclarationKey) :
      Component.isDecided (s.documented g).library (s.documented g).options key = Component.isDecided s.library s.options key :=
    Component.isDecided_labeled g.labeling s.options key
  unfold addFile?
  simp only [hexported, hexports, hdecided, List.foldlM_map]
  split
  · exact foldlM_alike (fun c rs rs' hrs => add?_documented h hrs file.1 c) hrs _
  · rfl

omit hrs in
/-- The registries of the two documentations differ in what is kept for the content of slots only. -/
theorem ofSetting_documented :
    (ofSetting (s.documented g)).map Registration.unread = (ofSetting (s.documented g')).map Registration.unread := by
  have hcandidates (g : Documentation) : (s.documented g).candidates = s.candidates := rfl
  rw [ofSetting, ofSetting, hcandidates, hcandidates]
  exact List.foldl_rel (r := fun (rs rs' : Registry) => rs.map Registration.unread = rs'.map Registration.unread) rfl
    fun file _ rs rs' hrs => addFile_documented h hrs file

omit hrs in
theorem ofSetting?_documented :
    (ofSetting? (s.documented g)).map (List.map Registration.unread) =
      (ofSetting? (s.documented g')).map (List.map Registration.unread) := by
  have hcandidates (g : Documentation) : (s.documented g).candidates = s.candidates := rfl
  rw [ofSetting?, ofSetting?, hcandidates, hcandidates]
  exact foldlM_alike (fun file rs rs' hrs => addFile?_documented h hrs file) rfl _

end Registry

end PatternCatalog
