/-
  PatternCatalog.Proofs.Property.EnumOption — the options of an enum, one for each member.

  An enum has an option for each member, in the same order (`valuesFrom_length`, `exists_option`),
  and depends on a strategy only by the ids that it gives to them (`ofMembers_congr`).
-/

import PatternCatalog.Property.EnumOption

namespace PatternCatalog.EnumOption

theorem id_of_mem {ids : Identity.Strategy} {propertyId : String} {members : List EnumMember} {o : EnumOption}
    (h : o ∈ ofMembers ids propertyId members) : o.id = ids.enumOption propertyId o.contextId := by
  obtain ⟨i, hi⟩ := List.mem_iff_getElem?.mp h
  obtain ⟨m, v, -, -, rfl⟩ := List.getElem?_zipWith_eq_some.mp hi
  rfl

theorem valuesFrom_length (index : Nat) (next : Option Binary64) (inits : List EnumInit) :
    (valuesFrom index next inits).length = inits.length := by
  induction inits generalizing index next with
  | nil => rfl
  | cons init inits ih => rw [valuesFrom, List.length_cons, List.length_cons, ih]

/-- An enum has an option for each member. -/
theorem exists_option {ids : Identity.Strategy} {propertyId : String} {members : List EnumMember} {m : EnumMember}
    (h : m ∈ members) : ∃ o ∈ ofMembers ids propertyId members, o.contextId = m.name := by
  obtain ⟨i, hi, rfl⟩ := List.mem_iff_getElem.mp h
  have hv : i < (values (members.map (·.init))).length := by
    rw [values, valuesFrom_length, List.length_map]
    exact hi
  refine ⟨ofMember ids propertyId members[i] (values (members.map (·.init)))[i], List.mem_iff_getElem?.mpr ⟨i, ?_⟩, rfl⟩
  exact List.getElem?_zipWith_eq_some.mpr ⟨_, _, List.getElem?_eq_getElem hi, List.getElem?_eq_getElem hv, rfl⟩

/-- The options of an enum depend on a strategy by the ids it gives to them. -/
theorem ofMembers_congr {ids ids' : Identity.Strategy} {propertyId : String} {members : List EnumMember}
    (h : ∀ o ∈ ofMembers ids propertyId members, ids'.enumOption propertyId o.contextId = o.id) :
    ofMembers ids' propertyId members = ofMembers ids propertyId members := by
  have hmember : ∀ m ∈ members, ofMember ids' propertyId m = ofMember ids propertyId m := by
    intro m hm
    obtain ⟨o, ho, hname⟩ : ∃ o ∈ ofMembers ids propertyId members, o.contextId = m.name := exists_option hm
    have hid := (h o ho).trans (id_of_mem ho)
    rw [hname] at hid
    funext v
    rw [ofMember, ofMember, hid]
  unfold ofMembers
  generalize values (members.map (·.init)) = vs
  clear h
  induction members generalizing vs with
  | nil => rfl
  | cons m members ih =>
    cases vs with
    | nil => rfl
    | cons v vs =>
      rw [List.zipWith_cons_cons, List.zipWith_cons_cons, hmember m List.mem_cons_self,
        ih (fun n hn => hmember n (List.mem_cons_of_mem _ hn)) vs]

end PatternCatalog.EnumOption
