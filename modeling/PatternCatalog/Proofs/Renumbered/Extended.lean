/-
  PatternCatalog.Proofs.Renumbered.Extended — only the offsets at which members start matter.

  A renumbering may take two offsets to one, as long as no member starts at one of them. It
  renumbers a library as another one does that agrees with it where members start
  (`renumbered_congr`), and there is one that keeps all offsets of a file apart
  (`extended_apart`): it takes every other offset beyond the ones that are taken.
-/

import PatternCatalog.Proofs.Renumbered.Patterns
import PatternCatalog.Proofs.Registry

namespace PatternCatalog

open Library (MemberRef)

/-! ## Labels that agree -/

namespace TypeExpr

variable {f g : Member → Label}

/-- Labels agree on all members inside types. -/
def LabelsAgree (f g : Member → Label) (ts : List TypeExpr) : Prop := ∀ t ∈ ts, ∀ m ∈ t.members, f m = g m

theorem LabelsAgree.left {ts us : List TypeExpr} (h : LabelsAgree f g (ts ++ us)) : LabelsAgree f g ts :=
  fun t ht => h t (List.mem_append_left _ ht)

theorem LabelsAgree.right {ts us : List TypeExpr} (h : LabelsAgree f g (ts ++ us)) : LabelsAgree f g us :=
  fun t ht => h t (List.mem_append_right _ ht)

theorem LabelsAgree.tail {t : TypeExpr} {ts : List TypeExpr} (h : LabelsAgree f g (t :: ts)) : LabelsAgree f g ts :=
  fun u hu => h u (List.mem_cons_of_mem _ hu)

mutual

theorem relabeled_congr : (t : TypeExpr) → LabelsAgree f g t.subterms → t.relabeled f = t.relabeled g
  | .reference _ _ args, h => by rw [relabeled, relabeled, relabeledAll_congr args h.tail]
  | .union parts, h => by rw [relabeled, relabeled, relabeledAll_congr parts h.tail]
  | .intersection parts, h => by rw [relabeled, relabeled, relabeledAll_congr parts h.tail]
  | .array item, h => by rw [relabeled, relabeled, relabeled_congr item h.tail]
  | .function params returns, h => by
    rw [relabeled, relabeled, relabeledParams_congr params h.tail.left, relabeled_congr returns h.tail.right]
  | .object members, h => by
    rw [relabeled, relabeled, relabeledMembers_congr members (h _ List.mem_cons_self) h.tail]
  | .keyword _, _ | .literal _, _ | .other, _ => rfl

theorem relabeledAll_congr : (ts : List TypeExpr) → LabelsAgree f g (subtermsOf ts) → relabeledAll f ts = relabeledAll g ts
  | [], _ => rfl
  | t :: ts, h => by rw [relabeledAll, relabeledAll, relabeled_congr t h.left, relabeledAll_congr ts h.right]

theorem relabeledParams_congr :
    (ps : List (ParamOf TypeExpr)) → LabelsAgree f g (subtermsOfParams ps) → relabeledParams f ps = relabeledParams g ps
  | [], _ => rfl
  | ⟨_, some t, _⟩ :: ps, h => by
    rw [relabeledParams, relabeledParams, relabeled_congr t h.left, relabeledParams_congr ps h.right]
  | ⟨_, none, _⟩ :: ps, h => by rw [relabeledParams, relabeledParams, relabeledParams_congr ps h]

theorem relabeledMembers_congr :
    (ms : List (MemberOf TypeExpr)) → (∀ m ∈ ms, f m = g m) → LabelsAgree f g (subtermsOfMembers ms) →
      relabeledMembers f ms = relabeledMembers g ms
  | [], _, _ => rfl
  | ⟨_, _, some t, _, _, _⟩ :: ms, hms, h => by
    rw [relabeledMembers, relabeledMembers, relabeled_congr t h.left, hms _ List.mem_cons_self,
      relabeledMembers_congr ms (fun m hm => hms m (List.mem_cons_of_mem _ hm)) h.right]
  | ⟨_, _, none, _, _, _⟩ :: ms, hms, h => by
    rw [relabeledMembers, relabeledMembers, hms _ List.mem_cons_self,
      relabeledMembers_congr ms (fun m hm => hms m (List.mem_cons_of_mem _ hm)) h]

end

end TypeExpr

theorem DeclarationKind.relabeled_congr {f g : Member → Label} {k : DeclarationKind}
    (htypes : ∀ t ∈ k.types, t.relabeled f = t.relabeled g) (hmembers : ∀ m ∈ k.members, f m = g m) :
    k.relabeled f = k.relabeled g := by
  have hoption : ∀ t : Option TypeExpr, (∀ u, t = some u → u ∈ k.types) →
      t.map (TypeExpr.relabeled f) = t.map (TypeExpr.relabeled g) := fun t ht =>
    Option.map_congr fun u hu => htypes u (ht u hu)
  cases k with
  | interface parents ms =>
    have hparents : parents.map (TypeExpr.relabeled f) = parents.map (TypeExpr.relabeled g) :=
      List.map_congr_left fun t ht => htypes t (List.mem_append_left _ ht)
    have hms : ms.map (Member.relabeled f) = ms.map (Member.relabeled g) := List.map_congr_left fun n hn => by
      have htype := hoption n.type fun u hu => List.mem_append_right _ (List.mem_filterMap.mpr ⟨n, hn, hu⟩)
      rw [Member.relabeled, Member.relabeled, hmembers n hn, htype]
    rw [relabeled, hparents, hms, relabeled]
  | «alias» type => exact congrArg DeclarationKind.alias (htypes type List.mem_cons_self)
  | enum ms => rfl
  | «class» parent => exact congrArg DeclarationKind.class (hoption parent fun u hu => Option.mem_toList.mpr hu)
  | function params returns =>
    have hparams : params.map (Param.relabeled f) = params.map (Param.relabeled g) := List.map_congr_left fun p hp => by
      have htype := hoption p.type fun u hu => List.mem_append_left _ (List.mem_filterMap.mpr ⟨p, hp, hu⟩)
      rw [Param.relabeled, Param.relabeled, htype]
    rw [relabeled, hparams, relabeled, hoption returns fun u hu => List.mem_append_right _ (Option.mem_toList.mpr hu)]
  | «variable» type => exact congrArg DeclarationKind.variable (hoption type fun u hu => Option.mem_toList.mpr hu)

theorem Module.labeled_congr {g g' : Labeling} {file : Nat} {m : Module}
    (hmembers : ∀ n ∈ m.members, g.member file n = g'.member file n) (hdeclarations : g.declaration = g'.declaration) :
    m.labeled g file = m.labeled g' file := by
  have htype : ∀ t ∈ m.types, t.relabeled (g.member file) = t.relabeled (g'.member file) := fun t ht =>
    t.relabeled_congr fun u hu n hn =>
      hmembers n (List.mem_append_right _ (List.mem_flatMap.mpr ⟨u, mem_types_of_subterm ht hu, hn⟩))
  have hdeclaration : ∀ d ∈ m.declarations, d.labeled g file = d.labeled g' file := fun d hd => by
    have hkind : d.kind.relabeled (g.member file) = d.kind.relabeled (g'.member file) :=
      DeclarationKind.relabeled_congr (fun t ht => htype t (mem_types_of_declaration hd ht))
        fun n hn => hmembers n (mem_members_of_declaration hd hn)
    rw [Declaration.labeled, hkind, hdeclarations, Declaration.labeled]
  rw [labeled, List.map_congr_left hdeclaration, labeled]

namespace Library

theorem labeled_congr {g g' : Labeling} {l : Library}
    (hmembers : ∀ file, ∀ m ∈ (l.moduleAt file).members, g.member file m = g'.member file m)
    (hdeclarations : g.declaration = g'.declaration) : l.labeled g = l.labeled g' := by
  have hfiles : (l.files.mapIdx fun i f => { f with module := f.module.labeled g i }) =
      l.files.mapIdx fun i f => { f with module := f.module.labeled g' i } := by
    refine List.ext_getElem? fun i => ?_
    rw [List.getElem?_mapIdx, List.getElem?_mapIdx]
    cases hf : l.files[i]? with
    | none => rfl
    | some f =>
      have hmodule : l.moduleAt i = f.module := by rw [moduleAt, hf]
      have hcongr := Module.labeled_congr (hmodule ▸ hmembers i) hdeclarations
      simp only [Option.map_some, hcongr]
  rw [labeled, hfiles, labeled]

end Library

/-! ## Renumberings that keep members apart -/

namespace Renumbering

variable (f : Renumbering) (l : Library)

/-- Members of a file of the library that start at different offsets do so afterwards. -/
def ApartIn : Prop :=
  ∀ file, ∀ m ∈ (l.moduleAt file).members, ∀ n ∈ (l.moduleAt file).members,
    f.memberStart file m.start = f.memberStart file n.start → m.start = n.start

/-- The offsets at which the members of a file start. -/
def starts (file : Nat) : List Nat := (l.moduleAt file).members.map (·.start)

/-- The renumbering where members start; all other offsets are taken beyond. -/
def extended : Renumbering where
  memberStart file n :=
    if n ∈ starts l file then f.memberStart file n else total ((starts l file).map (f.memberStart file)) + n + 1
  declarationStart := f.declarationStart

variable {f l}

theorem le_total {n : Nat} {ns : List Nat} (h : n ∈ ns) : n ≤ total ns := by
  induction ns with
  | nil => cases h
  | cons k ns ih =>
    rw [total_cons]
    rcases List.mem_cons.mp h with rfl | h
    · exact Nat.le_add_right _ _
    · exact Nat.le_trans (ih h) (Nat.le_add_left _ _)

theorem extended_apart (h : f.ApartIn l) : (f.extended l).Apart := by
  intro file n k hnk
  have htaken : ∀ i ∈ starts l file, f.memberStart file i ≤ total ((starts l file).map (f.memberStart file)) :=
    fun i hi => le_total (List.mem_map_of_mem hi)
  dsimp only [extended] at hnk
  by_cases hn : n ∈ starts l file
  · by_cases hk : k ∈ starts l file
    · rw [if_pos hn, if_pos hk] at hnk
      obtain ⟨m, hm, rfl⟩ := List.mem_map.mp hn
      obtain ⟨m', hm', rfl⟩ := List.mem_map.mp hk
      exact h file m hm m' hm' hnk
    · rw [if_pos hn, if_neg hk] at hnk
      have := htaken n hn
      omega
  · by_cases hk : k ∈ starts l file
    · rw [if_neg hn, if_pos hk] at hnk
      have := htaken k hk
      omega
    · rw [if_neg hn, if_neg hk] at hnk
      omega

theorem memberStart_extended {file : Nat} {m : Member} (hm : m ∈ (l.moduleAt file).members) :
    (f.extended l).memberStart file m.start = f.memberStart file m.start := if_pos (List.mem_map_of_mem hm)

theorem key_extended {m : MemberRef} (hm : l.Declares m) : (f.extended l).key m.key = f.key m.key :=
  congrArg (MemberKey.mk m.file) (memberStart_extended hm)

end Renumbering

variable {f : Renumbering}

theorem Library.renumbered_extended (l : Library) : l.renumbered (f.extended l) = l.renumbered f :=
  labeled_congr (fun _ m hm => congrArg (Label.mk · m.doc) (Renumbering.memberStart_extended hm)) rfl

theorem Setting.renumbered_extended (s : Setting) : s.renumbered (f.extended s.library) = s.renumbered f := by
  rw [renumbered, Library.renumbered_extended, renumbered]

/-- The new properties of a registered pattern come from members of the library. -/
theorem Registry.declared_of_minted {s : Setting} {e : Registration} (he : e ∈ ofSetting s) {key : MemberKey}
    (hkey : key ∈ e.build.minted) : ∃ m, s.library.Declares m ∧ key = m.key := by
  rw [ofSetting_eq] at he
  obtain ⟨before, x, after, hxs, rfl⟩ := s.mem_registrations.mp he
  have hx : x ∈ s.registered := hxs ▸ List.mem_append_right _ List.mem_cons_self
  rw [Setting.registration, Setting.build_minted] at hkey
  obtain ⟨m, hm, rfl⟩ := List.mem_map.mp hkey
  exact ⟨m, Setting.members_declared hx m (List.mem_filter.mp (List.mem_filter.mp hm).1).1, rfl⟩

theorem Registry.map_registration_extended (s : Setting) :
    (ofSetting s).map (f.extended s.library).registration = (ofSetting s).map f.registration := by
  refine List.map_congr_left fun e he => ?_
  have hminted : e.build.minted.map (f.extended s.library).key = e.build.minted.map f.key :=
    List.map_congr_left fun key hkey => by
      obtain ⟨m, hm, rfl⟩ := declared_of_minted he hkey
      exact Renumbering.key_extended hm
  simp only [Renumbering.registration, Renumbering.build, hminted]

end PatternCatalog
