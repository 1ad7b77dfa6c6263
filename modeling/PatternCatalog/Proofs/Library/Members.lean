/-
  PatternCatalog.Proofs.Library.Members — the apparent members of a type.

  Every step of the collection keeps the names of the gathered members pairwise different
  (`addMember_nodup`, `collectMembers_nodup`), so a type has at most one member of a name
  (`apparentMembers_nodup`). Each comes from a member that the file it is said to be in
  declares (`apparentMembers_declared`).
-/

import PatternCatalog.Library.Members
import PatternCatalog.Proofs.Library.Mentions

namespace PatternCatalog.Library

/-- Whether no two of some members have the same name. -/
def NamesDiffer (ms : List MemberRef) : Prop := (ms.map (·.name)).Nodup

theorem addMember_nodup {out : List MemberRef} (h : NamesDiffer out) (m : MemberRef) : NamesDiffer (addMember out m) := by
  unfold addMember
  split
  · exact h
  · next hnew =>
    unfold NamesDiffer
    rw [List.map_append, List.nodup_append]
    refine ⟨h, List.pairwise_singleton _ _, fun a ha b hb => ?_⟩
    obtain ⟨k, hk, rfl⟩ := List.mem_map.mp ha
    obtain rfl : b = m.name := by simpa using hb
    exact fun e => hnew (List.any_eq_true.mpr ⟨k, hk, by simpa using e⟩)

theorem addMembers_nodup {out : List MemberRef} (h : NamesDiffer out) (ms : List MemberRef) :
    NamesDiffer (addMembers out ms) :=
  List.foldlRecOn ms addMember h fun _ h m _ => addMember_nodup h m

theorem collectMembers_nodup (l : Library) (depth : Nat) (p : Place) {out : List MemberRef} (h : NamesDiffer out) :
    NamesDiffer (l.collectMembers depth p out) := by
  induction depth generalizing p out with
  | zero => exact h
  | succ depth ih =>
    rw [collectMembers]
    split
    · exact addMembers_nodup h _
    · exact List.foldlRecOn _ _ h fun _ h _ _ => ih _ h
    · split
      · split
        · exact List.foldlRecOn _ _ (addMembers_nodup h _) fun _ h _ _ => ih _ h
        · exact ih _ h
        · exact h
      · split
        · exact addMembers_nodup h _
        · exact h
    · exact h

theorem apparentMembers_nodup (l : Library) (p : Place) : NamesDiffer (l.apparentMembers p) :=
  l.collectMembers_nodup _ p List.nodup_nil

/-! ## Members exchanged for others -/

/-- Members become others of the same names, whatever wrappers have made of them. -/
structure KeepsNames (f : MemberRef → MemberRef) : Prop where
  name : ∀ m, (f m).name = m.name
  optional : ∀ m optional, f { m with optional } = { f m with optional }

section

variable {f : MemberRef → MemberRef} (hf : KeepsNames f)

include hf

theorem addMembers_map (out ms : List MemberRef) : addMembers (out.map f) (ms.map f) = (addMembers out ms).map f := by
  induction ms generalizing out with
  | nil => rfl
  | cons m ms ih =>
    have hany : (out.map f).any (·.name == (f m).name) = out.any (·.name == m.name) := by
      simp only [List.any_map, Function.comp_def, hf.name]
    have hm : addMember (out.map f) (f m) = (addMember out m).map f := by
      unfold addMember
      rw [hany]
      split
      · rfl
      · rw [List.map_append, List.map_singleton]
    rw [List.map_cons, addMembers, List.foldl_cons, hm]
    exact ih (addMember out m)

theorem apply_map (w : Wrapper) (names : List String) (ms : List MemberRef) :
    w.apply names (ms.map f) = (w.apply names ms).map f := by
  unfold Wrapper.apply
  split
  · rfl
  · rw [List.map_map, List.map_map]
    exact List.map_congr_left fun m _ => (hf.optional m true).symm
  · rw [List.map_map, List.map_map]
    exact List.map_congr_left fun m _ => (hf.optional m false).symm
  · simp only [List.filter_map, Function.comp_def, hf.name]
  · simp only [List.filter_map, Function.comp_def, hf.name]

end

/-! ## Where members are declared -/

variable {l : Library}

/-- Whether a member is one that its file declares. -/
def Declares (l : Library) (m : MemberRef) : Prop := m.member ∈ (l.moduleAt m.file).members

theorem Declares.mentions {m : MemberRef} (h : l.Declares m) {t : TypeExpr} (ht : m.member.type = some t) :
    l.Mentions ⟨m.file, t⟩ := Module.mem_types_of_member h ht

theorem addMembers_declared {out ms : List MemberRef} (h : ∀ m ∈ out, l.Declares m) (hms : ∀ m ∈ ms, l.Declares m) :
    ∀ m ∈ addMembers out ms, l.Declares m := by
  induction ms generalizing out with
  | nil => exact h
  | cons n ms ih =>
    refine ih ?_ fun m hm => hms m (List.mem_cons_of_mem _ hm)
    unfold addMember
    split
    · exact h
    · intro m hm
      rcases List.mem_append.mp hm with hm | hm
      · exact h m hm
      · rw [List.mem_singleton.mp hm]
        exact hms n List.mem_cons_self

theorem ownMembers_declared {file : Nat} {ms : List Member} (h : ∀ n ∈ ms, n ∈ (l.moduleAt file).members) :
    ∀ m ∈ ownMembers file ms, l.Declares m := by
  intro m hm
  obtain ⟨n, hn, rfl⟩ := List.mem_map.mp hm
  exact h n hn

theorem apply_declared (w : Wrapper) (names : List String) {ms : List MemberRef} (h : ∀ m ∈ ms, l.Declares m) :
    ∀ m ∈ w.apply names ms, l.Declares m := by
  unfold Wrapper.apply
  split
  · exact h
  · intro m hm
    obtain ⟨n, hn, rfl⟩ := List.mem_map.mp hm
    exact h n hn
  · intro m hm
    obtain ⟨n, hn, rfl⟩ := List.mem_map.mp hm
    exact h n hn
  · exact fun m hm => h m (List.mem_filter.mp hm).1
  · exact fun m hm => h m (List.mem_filter.mp hm).1

theorem mem_of_wrapped? {name : List String} {args : List TypeExpr} {w : Wrapper} {inner : TypeExpr}
    {names : List String} (h : wrapped? name args = some (w, inner, names)) : inner ∈ args := by
  cases args with
  | nil => cases h
  | cons first rest =>
    obtain ⟨w', -, h⟩ := Option.bind_eq_some_iff.mp h
    cases h
    exact List.mem_cons_self

/-- A name that is no declaration has the members of what stands in a wrapper of that name. -/
theorem collectMembers_wrapped {file : Nat} {module : Option String} {name : List String} {args : List TypeExpr}
    (h : ∀ key, l.reference? file (.reference module name args) ≠ some (.declaration key)) (depth : Nat)
    (out : List MemberRef) :
    l.collectMembers (depth + 1) ⟨file, .reference module name args⟩ out =
      (wrapped? name args).elim out fun found =>
        addMembers out (found.1.apply found.2.2 (l.collectMembers depth ⟨file, found.2.1⟩ [])) := by
  rw [collectMembers]
  dsimp only
  split
  · next key hkey => exact absurd hkey (h key)
  · cases wrapped? name args <;> rfl

theorem collectMembers_declared (depth : Nat) {p : Place} (hp : l.Mentions p) {out : List MemberRef}
    (h : ∀ m ∈ out, l.Declares m) : ∀ m ∈ l.collectMembers depth p out, l.Declares m := by
  induction depth generalizing p out with
  | zero => exact h
  | succ depth ih =>
    obtain ⟨file, type⟩ := p
    cases type with
    | object members =>
      exact addMembers_declared h (ownMembers_declared fun n hn => Module.mem_members_of_object hp hn)
    | intersection parts =>
      refine List.foldlRecOn (motive := fun out => ∀ m ∈ out, l.Declares m) parts _ h
        fun out hout t ht => ih (hp.subterm ?_) hout
      exact List.mem_cons_of_mem _ (TypeExpr.mem_subtermsOf ht)
    | reference module name args =>
      rw [collectMembers]
      dsimp only
      split
      · next key _ =>
        split
        · next parents members hk =>
          have hparents : ∀ t ∈ parents, l.Mentions ⟨key.file, t⟩ :=
            fun t ht => mentions_of_kind hk (List.mem_append_left _ ht)
          refine List.foldlRecOn (motive := fun out => ∀ m ∈ out, l.Declares m) parents _ ?_
            fun out hout t ht => ih (hparents t ht) hout
          refine addMembers_declared h (ownMembers_declared fun n hn => ?_)
          obtain ⟨d, hd, hdk⟩ := Option.map_eq_some_iff.mp hk
          exact Module.mem_members_of_declaration (List.mem_of_getElem? hd) (by rw [hdk]; exact hn)
        · next type hk => exact ih (mentions_of_kind hk List.mem_cons_self) h
        · exact h
      · split
        · next w inner names hw =>
          have hinner : l.Mentions ⟨file, inner⟩ :=
            hp.subterm (List.mem_cons_of_mem _ (TypeExpr.mem_subtermsOf (mem_of_wrapped? hw)))
          exact addMembers_declared h (apply_declared w names (ih hinner fun m hm => nomatch hm))
        · exact h
    | _ => exact h

theorem apparentMembers_declared {p : Place} (hp : l.Mentions p) : ∀ m ∈ l.apparentMembers p, l.Declares m :=
  collectMembers_declared (typeDepth + 1) hp fun _ hm => nomatch hm

end PatternCatalog.Library
