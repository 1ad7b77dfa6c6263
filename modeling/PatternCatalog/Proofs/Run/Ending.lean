/-
  PatternCatalog.Proofs.Run.Ending — whether a run ends does not depend on its ids.

  A strategy names what a run finds and takes no part in finding it. With another one the same
  declarations are registered, with the examples of the same slots, and the same members are
  shared (`Registration.unnamed`, `ofSetting?_withIds`). So the same classifications are made,
  and the tags of the examples ask for the same patterns (`patternEnds_withIds`):
  - `isSome_run?_withIds`: a run ends with one strategy exactly when it ends with another.
  - `reanalysis_fixpoint`: so a run with the ids of its own analysis ends when the first one does,
    and gives the analysis again, but for default content.
-/

import PatternCatalog.Proofs.Run.Examples

namespace PatternCatalog

open Identity (Previous Strategy)
open Library (MemberRef)

/-! ## Properties -/

/-- A classification asks no strategy whether to go on. -/
theorem PropertyKind.isSome_ofMember?_ids (l : Library) (ids ids' : Strategy) (propertyId propertyId' : String)
    (m : MemberRef) (doc : Doc.Comment) :
    (ofMember? l ids' propertyId' m doc).isSome = (ofMember? l ids propertyId m doc).isSome := by
  unfold ofMember? ofMemberWithin?
  cases m.member.type with
  | none => rfl
  | some type => rw [Bool.eq_iff_iff, Option.isSome_iff_exists, Option.isSome_iff_exists, exists_ofType?, exists_ofType?]

/-! ## Patterns -/

/-- What is registered apart from its names: the declaration, the sources of its slots and the
members that became properties with it. -/
def Registration.unnamed (g : Registration) : DeclarationKey × List SlotSource × List MemberKey :=
  (g.key, g.build.slotSources, g.build.newProperties.map (·.1))

namespace Setting

variable {s : Setting} {ids : Strategy} {sharedId? sharedId?' : MemberKey → Option String}

/-- The members that are shared have ids, whatever these are. -/
def SharesAlike (sharedId? sharedId?' : MemberKey → Option String) : Prop :=
  ∀ key, (sharedId? key).isSome = (sharedId?' key).isSome

theorem build_slotSources_withIds (c : Component) :
    ((s.withIds ids).build sharedId? c).slotSources = (s.build sharedId?' c).slotSources := by
  rw [build_slotSources, build_slotSources, slotsWithSources, slotsWithSources, List.map_append, List.map_append, List.map_map,
    List.map_map]
  have himplies : (s.withIds ids).impliesChildren c = s.impliesChildren c := rfl
  have hslots : (s.withIds ids).slotMembers c = s.slotMembers c := rfl
  rw [himplies, hslots]
  split <;> rfl

variable (h : SharesAlike sharedId? sharedId?')

include h

theorem build_members_withIds (c : Component) :
    ((s.withIds ids).build sharedId? c).newProperties.map (·.1) = (s.build sharedId?' c).newProperties.map (·.1) := by
  have hmembers : (s.withIds ids).propertyMembers c = s.propertyMembers c := rfl
  have hnew : (fun m : MemberRef => (sharedId? m.key).isNone) = fun m => (sharedId?' m.key).isNone :=
    funext fun m => by rw [← Option.not_isSome, h, Option.not_isSome]
  rw [build_newProperties, build_newProperties, List.map_map, List.map_map, hmembers, hnew]
  rfl

theorem buildEnds_withIds (c : Component) : (s.withIds ids).buildEnds sharedId? c = s.buildEnds sharedId?' c := by
  rw [buildEnds, buildEnds, withIds_members]
  refine congrArg (List.all _) (funext fun m => ?_)
  rw [partEnds_eq, partEnds_eq, withIds_slotQuantity?, h]
  exact congrArg _ (PropertyKind.isSome_ofMember?_ids ..)

end Setting

/-! ## Registries -/

namespace Registry

open Registration (unnamed)

variable {s : Setting} {ids : Strategy} {rs rs' : Registry} (hrs : rs.map unnamed = rs'.map unnamed)

include hrs

theorem sharesAlike_of_unnamed : Setting.SharesAlike rs.propertyId? rs'.propertyId? := by
  intro key
  have hshared (rs : Registry) : (rs.propertyId? key).isSome = true ↔ key ∈ (rs.map unnamed).flatMap (·.2.2) := by
    have hkeys : (rs.map unnamed).flatMap (·.2.2) = (rs.flatMap (·.build.newProperties)).map (·.1) := by
      rw [List.flatMap_map, List.map_flatMap]
      rfl
    rw [propertyId?, Option.isSome_map, List.lookup_isSome_iff, hkeys, List.mem_map]
    simp only [List.mem_reverse, beq_iff_eq, eq_comm (a := key)]
  rw [Bool.eq_iff_iff, hshared, hrs, ← hshared]

theorem isSome_identity?_of_unnamed (key : DeclarationKey) : (rs.identity? key).isSome = (rs'.identity? key).isSome := by
  rw [identity?, identity?, Option.isSome_map, Option.isSome_map, List.isSome_find?, List.isSome_find?,
    any_key_alike hrs Prod.fst fun _ => rfl]

theorem add?_withIds (candidate : Candidate) (c : Component) :
    (add? (s.withIds ids) candidate rs c).map (List.map unnamed) = (add? s candidate rs' c).map (List.map unnamed) := by
  have hshares := sharesAlike_of_unnamed hrs
  unfold add? add
  rw [any_key_alike hrs Prod.fst fun _ => rfl, Setting.buildEnds_withIds hshares]
  split
  · rw [Option.map_some, Option.map_some]
    split
    · rw [hrs]
    · rw [List.map_append, List.map_append, hrs, List.map_singleton, List.map_singleton, unnamed, unnamed,
        Setting.build_slotSources_withIds, Setting.build_members_withIds hshares]
  · rfl

theorem addFile?_withIds (file : Candidate × Nat) :
    (addFile? (s.withIds ids) rs file).map (List.map unnamed) = (addFile? s rs' file).map (List.map unnamed) := by
  rw [addFile?, addFile?, Setting.withIds_library, Setting.withIds_options]
  split
  · exact foldlM_alike (fun c _ _ hrs => add?_withIds hrs file.1 c) hrs _
  · rfl

omit hrs in
/-- With another strategy the same is registered, by other names. -/
theorem ofSetting?_withIds (s : Setting) (ids : Strategy) :
    (ofSetting? (s.withIds ids)).map (List.map unnamed) = (ofSetting? s).map (List.map unnamed) :=
  foldlM_alike (fun file _ _ hrs => addFile?_withIds hrs file) rfl _

/-! ## Patterns on demand -/

theorem isSome_pattern?_withIds (key : DeclarationKey) :
    (pattern? (s.withIds ids) rs key).isSome = (pattern? s rs' key).isSome := by
  rw [pattern?, pattern?, Setting.withIds_library, Setting.withIds_options, Option.orElse_eq_orElse, Option.orElse_eq_or,
    Option.orElse_eq_or, Option.isSome_or, Option.isSome_or, isSome_identity?_of_unnamed hrs]
  refine congrArg _ ?_
  cases Component.ofDeclaration? s.library s.options (s.library.exportName key) key with
  | none => rfl
  | some c => cases hignored : c.ignored <;> simp [hignored]

theorem patternEnds_withIds : patternEnds (s.withIds ids) rs = patternEnds s rs' := by
  funext key
  have hends : (s.withIds ids).buildEnds (fun _ => none) = s.buildEnds fun _ => none :=
    funext (Setting.buildEnds_withIds fun _ => rfl)
  rw [patternEnds, patternEnds, isSome_identity?_of_unnamed hrs, Setting.withIds_library, Setting.withIds_options, hends]

end Registry

/-! ## Examples -/

/-- A tag asks whether there is a pattern, whatever its names are. -/
theorem ContentSetting.scan?_of_isSome (c : ContentSetting) {pattern? : DeclarationKey → Option PatternIdentity}
    (h : ∀ key, (pattern? key).isSome = (c.pattern? key).isSome) (ends : DeclarationKey → Bool) (tags : List (List String)) :
    scan? { c with pattern? } ends tags = c.scan? ends tags := by
  have hnone (key : DeclarationKey) : (pattern? key).isNone = (c.pattern? key).isNone := by
    rw [← Option.not_isSome, h, Option.not_isSome]
  induction tags with
  | nil => rfl
  | cons tag tags ih => simp only [scan?, hnone, ih]

theorem Slot.contentEnds_of_isSome {pattern? pattern?' : DeclarationKey → Option PatternIdentity}
    (h : ∀ key, (pattern? key).isSome = (pattern?' key).isSome) (digest : Digest) (l : Library) (ends : DeclarationKey → Bool)
    (libraryId : String) (maxDepth : Nat) :
    contentEnds digest l pattern? ends libraryId maxDepth = contentEnds digest l pattern?' ends libraryId maxDepth := by
  funext source
  unfold contentEnds
  refine congrArg (Option.all · _) (funext fun block => congrArg (Option.all · _) (funext fun m => ?_))
  simp only [ContentSetting.shows?_eq]
  exact congrArg Option.isSome
    (ContentSetting.scan?_of_isSome ⟨digest, ⟨l, source.file, m.imports⟩, pattern?', libraryId⟩ h ends _)

/-! ## Runs -/

namespace Run

variable (r : Run) (ids : Strategy) (root : Path)

theorem ends_withIds (libraryId : String) (s : Setting) :
    (r.withIds ids).ends libraryId (s.withIds ids) = r.ends libraryId s := by
  have hsources (rs : Registry) (test : SlotSource → Bool) :
      rs.all (fun e => e.build.slotSources.all test) = (rs.map Registration.unnamed).all fun e => e.2.1.all test := by
    rw [List.all_map]
    rfl
  have halike := Registry.ofSetting?_withIds s ids
  unfold ends
  cases hrs' : Registry.ofSetting? s with
  | none =>
    rw [hrs', Option.map_none, Option.map_eq_none_iff] at halike
    rw [halike, Option.any_none, Option.any_none]
  | some rs' =>
    rw [hrs', Option.map_some, Option.map_eq_some_iff] at halike
    obtain ⟨rs, hrs, hunnamed⟩ := halike
    rw [hrs, Option.any_some, Option.any_some, hsources, hsources, hunnamed, Registry.patternEnds_withIds hunnamed,
      Slot.contentEnds_of_isSome (Registry.isSome_pattern?_withIds hunnamed)]
    rfl

/-- Discovery asks no strategy. -/
theorem discovered_withIds :
    (r.withIds ids).discovered root = (r.discovered root).map fun found => (found.1, found.2.withIds ids) := by
  have hpackage : (r.withIds ids).readPackage root = r.readPackage root := rfl
  have hentry : (r.withIds ids).typingsEntry root = r.typingsEntry root := rfl
  have hfiles : (r.withIds ids).discover = r.discover := rfl
  simp only [discovered, hpackage, hentry, hfiles, bind, Except.bind]
  cases r.readPackage root with
  | error e => rfl
  | ok package =>
    dsimp only
    cases r.typingsEntry root package with
    | error e => rfl
    | ok entry =>
      dsimp only
      cases r.discover entry with
      | error e => rfl
      | ok files => rfl

theorem isSome_outcome? (package : Json) (s : Setting) :
    (r.outcome? root package s).isSome = r.ends (r.libraryId (packageTitle root package)) s := by
  unfold outcome?
  split
  · next hends => rw [hends, Option.isSome_some]
  · next hends => rw [Bool.eq_false_iff.mpr hends, Option.isSome_none]

/-- Whether a run ends does not depend on its ids. -/
theorem isSome_run?_withIds : ((r.withIds ids).run? root).isSome = (r.run? root).isSome := by
  have hlibraryId : (r.withIds ids).libraryId = r.libraryId := rfl
  rw [run?, run?, discovered_withIds]
  cases r.discovered root.normalize with
  | error e => rfl
  | ok found =>
    dsimp only [Except.map]
    rw [isSome_outcome?, isSome_outcome?, hlibraryId, ends_withIds]

/-- The outcome of a run that ends is its analysis. -/
theorem run?_of_isSome {r : Run} {root : Path} (h : (r.run? root).isSome) : r.run? root = some (r.analyze root) := by
  unfold run? analyze at *
  dsimp only at *
  cases hfound : r.discovered root.normalize with
  | error e => rfl
  | ok found =>
    rw [hfound] at h
    dsimp only [outcome?] at h ⊢
    split at h
    · rw [if_pos ‹_›]
      rfl
    · cases h

/-! ## The second run -/

/-- Analyzing a library again with the ids of its analysis gives the analysis, but for default content,
and the second run ends when the first one does. -/
theorem reanalysis_fixpoint {r : Run} {root : Path} {a : Analysis} (h : r.analyze root = .ok a)
    (hpatterns : (a.patterns.map (·.pattern.id)).Nodup) (hproperties : (a.properties.map (·.id)).Nodup) :
    ∃ b, (r.withIds ((Previous.ofAnalysis a).strategy r.digest)).analyze root = .ok b ∧
      b.withoutContent = a.withoutContent ∧
      ((r.run? root).isSome → (r.withIds ((Previous.ofAnalysis a).strategy r.digest)).run? root = some (.ok b)) := by
  obtain ⟨s, hs⟩ := analyze_ok h
  obtain ⟨b, hb, hsame⟩ := analyze_withIds h hs (hs.ofSetting_tables hpatterns hproperties)
  refine ⟨b, hb, hsame, fun hends => ?_⟩
  rw [← isSome_run?_withIds] at hends
  rw [run?_of_isSome hends, hb]

set_option maxRecDepth 100000 in
theorem sharing_ends : (sharing.run? ⟨"/lib"⟩).isSome := by
  rw [sharing, FileSystem.memory_eq sharing_store]
  decide +kernel

/-- Two components with one props type, analyzed again with the ids that they got. -/
theorem sharing_reanalyzed : ∃ a b, sharing.analyze ⟨"/lib"⟩ = .ok a ∧ Previous.ofAnalysis a = sharingIds ∧
    (sharing.run? ⟨"/lib"⟩).isSome ∧ b.withoutContent = a.withoutContent ∧
    (sharing.withIds (sharingIds.strategy .sha256)).run? ⟨"/lib"⟩ = some (.ok b) := by
  obtain ⟨a, ha, hids, hproperties, -⟩ := sharing_analysis
  have hpatterns : a.patterns.map (·.pattern.id) = [buttonId, badgeId] := by
    have hrows := congrArg (fun p => p.patterns.map (·.2)) hids
    simpa [Previous.ofAnalysis, sharingIds, Function.comp_def] using hrows
  obtain ⟨b, -, hsame, hb⟩ := reanalysis_fixpoint ha (by rw [hpatterns]; decide) (by rw [hproperties]; decide)
  rw [hids] at hb
  exact ⟨a, b, ha, hids, sharing_ends, hsame, hb sharing_ends⟩

end Run

end PatternCatalog
