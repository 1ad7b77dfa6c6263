/-
  PatternCatalog.Proofs.Script.Types — members of types start at different places.

  One lemma for each rule of the grammar of types that answers with types: its members are
  spread over what it reads, when those of the goals it leads to are (`Rules.Spread`). A member
  starts where it is read, and its key takes a token (`propertyKey_takes`), so what its type
  holds starts further on (`namedMember_spread`).
-/

import PatternCatalog.Proofs.Script.Spread

namespace PatternCatalog.Script

open Parse

instance : HoldsMembers ParamPart where
  held
    | .param _ type _ => held type
    | _ => []

/-- Whether the members in the types that some goals answer with are spread over what is read for
them. -/
structure Rules.Spread (g : Rules) : Prop where
  type : ∀ conditional seen, Spreads seen (g (.type conditional) : Parse TypeExpr)
  operatorType : ∀ conditional seen, Spreads seen (g (.operatorType conditional) : Parse TypeExpr)

variable {g : Rules} (hg : g.Spread) (seen : List Member)

include hg

/-! ## Shared pieces -/

theorem annotation?_spread : Spreads seen (annotation? g) := by
  refine .step fun _ => .step fun _ => ?_
  split
  · exact .step fun _ => .bind (hg.type true seen) fun t => .pure (by simp)
  · exact .pure (by simp)

theorem typeArguments_spread : Spreads seen (typeArguments g) :=
  .step fun _ => .maybe (.step fun _ => .commaList (hg.type true) _)

theorem typeArgumentsHere_spread : Spreads seen (typeArgumentsHere g) := by
  refine .step fun _ => .step fun _ => .step fun _ => ?_
  split
  · exact typeArguments_spread hg seen
  · exact .pure (by simp)

/-! ## Parameters and results -/

omit hg in
theorem held_namedParams (parts : List ParamPart) (index : Nat) : held (namedParams index parts) ⊆ held parts := by
  induction parts generalizing index with
  | nil => exact List.Subset.refl _
  | cons part parts ih =>
    cases part with
    | param name type optional =>
      refine List.append_subset.mpr ⟨List.subset_append_left _ _, ?_⟩
      exact fun m hm => List.mem_append_right _ (ih _ hm)
    | _ => exact ih index

theorem paramPart_spread : Spreads seen (paramPart g) := by
  refine .step fun _ => .step fun _ => .step fun _ => ?_
  split
  · exact .step fun _ => .step fun _ => .pure (List.nil_subset _)
  · refine .step fun _ => .step fun _ => ?_
    split
    · exact .step fun _ => .step fun _ => .pure (List.nil_subset _)
    · refine .step fun _ => .step fun _ => .step fun typed => ?_
      split
      · refine .step fun _ => .bind (annotation?_spread hg seen) fun type => .step fun _ => ?_
        exact .maybe (.pure (List.subset_append_right _ _))
      · refine .step fun _ => .bind (annotation?_spread hg seen) fun type => .step fun _ => ?_
        exact .maybe (.pure (List.subset_append_right _ _))

theorem parameters_spread : Spreads seen (parameters g) := by
  refine .step fun _ => .bind (.commaList (paramPart_spread hg) _) fun parts => .pure ?_
  rw [held_pair, held_bool, List.append_nil]
  exact fun m hm => List.mem_append_right _ (held_namedParams parts 0 hm)

omit hg in
theorem predicate?_spread : Spreads seen (predicate? g) := by
  refine .step fun _ => .step fun _ => ?_
  split
  · refine .step fun _ => .step fun _ => .step fun _ => ?_
    exact .maybe (.pure (by simp))
  · refine .step fun _ => ?_
    split
    · exact .step fun _ => .step fun _ => .step fun _ => .pure (by simp)
    · exact .pure (by simp)

theorem resultType_spread (conditional : Bool) : Spreads seen (resultType g conditional) := by
  refine .bind (predicate?_spread seen) fun predicate => ?_
  split
  · exact .pure (by simp)
  · exact hg.type conditional _

theorem resultAnnotation?_spread : Spreads seen (resultAnnotation? g) := by
  refine .step fun _ => .step fun _ => ?_
  split
  · exact .step fun _ => .bind (resultType_spread hg seen true) fun t => .pure (by simp)
  · exact .pure (by simp)

/-! ## Keys -/

section Keys

omit hg

/-- Whether a parser takes at least one token whenever it has an answer. -/
def Takes {α : Type} (p : Parse α) : Prop := ∀ ⦃r r' : Reader⦄ ⦃a : α⦄, p.Gives r a r' → r.start < r'.start

theorem Takes.first {α β : Type} {p : Parse α} {q : α → Parse β} (h : Takes p) : Takes (p >>= q) := by
  intro r r'' b hb
  obtain ⟨a, r', ha, hb⟩ := gives_bind hb
  exact Nat.lt_of_lt_of_le (h ha) hb.onward.start_le

/-- Taking a token that is there. -/
theorem start_lt_of_advance {α : Type} {q : Unit → Parse α} {r r' : Reader} {a : α} (h : (advance >>= q).Gives r a r')
    (htoken : r.token ≠ .eof) : r.start < r'.start := by
  obtain ⟨_, r₁, hr, h⟩ := gives_bind h
  obtain rfl := gives_advance hr
  exact Nat.lt_of_lt_of_le (Reader.start_lt_next htoken) h.onward.start_le

theorem gives_mention {name : String} {r r' : Reader} (h : (mention name).Gives r () r') :
    r'.token = r.token ∧ r'.start = r.start := by
  obtain ⟨_, h⟩ := h
  obtain rfl := Subtype.mk.inj (Prod.mk.inj (Option.some.inj h)).2
  exact ⟨rfl, rfl⟩

theorem anyName_takes : Takes anyName := by
  intro r r' name h
  obtain ⟨t, r₁, ht, h⟩ := gives_bind h
  obtain ⟨rfl, rfl⟩ := gives_ask ht
  split at h
  · next w hw =>
    obtain ⟨_, r₂, hmention, h⟩ := gives_bind h
    obtain ⟨htoken, hstart⟩ := gives_mention hmention
    rw [← hstart]
    refine start_lt_of_advance h fun heof => ?_
    rw [htoken] at heof
    rw [heof] at hw
    cases hw
  · obtain ⟨_, h⟩ := h
    cases h

theorem expectMark_takes (m : String) : Takes (expectMark m) := by
  intro r r' _ h
  obtain ⟨eaten, r₁, heaten, hrequire⟩ := gives_bind h
  obtain ⟨found, r₂, hfound, htaken⟩ := gives_bind heaten
  obtain ⟨rfl, rfl⟩ := gives_ask hfound
  split at htaken
  · next hmark =>
    refine Nat.lt_of_lt_of_le (start_lt_of_advance htaken fun heof => ?_) hrequire.onward.start_le
    rw [heof] at hmark
    cases hmark
  · obtain ⟨rfl, -⟩ := gives_pure htaken
    obtain ⟨_, hnone⟩ := hrequire
    cases hnone

theorem propertyKey_takes : Takes (propertyKey g) := by
  intro r r' name h
  obtain ⟨t, r₁, ht, h⟩ := gives_bind h
  obtain ⟨rfl, rfl⟩ := gives_ask ht
  split at h
  · exact anyName_takes.first h
  · exact anyName_takes.first h
  · next htoken => exact start_lt_of_advance h (by rw [htoken]; exact nofun)
  · next htoken => exact start_lt_of_advance h (by rw [htoken]; exact nofun)
  · next htoken => exact start_lt_of_advance h (by rw [htoken]; exact nofun)
  · next htoken => exact start_lt_of_advance h (by rw [htoken]; exact nofun)
  · exact (expectMark_takes "[").first h
  · obtain ⟨_, h⟩ := h
    cases h

end Keys

/-! ## Members -/

section NamedMembers

omit hg

/-- What the type of a member holds. -/
def heldByType (m : Option Member) : List Member := m.toList.flatMap fun m => held m.type

/-- Whether a parser, from a place on, reads the rest of a member that starts at `start`. -/
def ReadsMember (start place : Nat) (p : Parse (Option Member)) : Prop :=
  ∀ ⦃r r' : Reader⦄ ⦃m : Option Member⦄, place ≤ r.start → p.Gives r m r' → Spread start r'.start (held m)

variable {start place : Nat} {α : Type} {p : Parse α} {q : α → Parse (Option Member)}

theorem ReadsMember.step (hq : ∀ a, ReadsMember start place (q a)) : ReadsMember start place (p >>= q) := by
  intro r r'' m hplace hm
  obtain ⟨a, r', ha, hm⟩ := gives_bind hm
  exact hq a (Nat.le_trans hplace ha.onward.start_le) hm

/-- The key of a member stands where the member starts, or after its modifiers. -/
theorem ReadsMember.key (hp : Takes p) (hq : ∀ a, ReadsMember start (start + 1) (q a)) :
    ReadsMember start start (p >>= q) := by
  intro r r'' m hplace hm
  obtain ⟨a, r', ha, hm⟩ := gives_bind hm
  exact hq a (Nat.lt_of_le_of_lt hplace (hp ha)) hm

/-- What the type of a member holds starts after the key. -/
theorem ReadsMember.rest {p : Parse (Option Member)} (hp : SpreadsBy heldByType [] p)
    (hstart : ∀ ⦃r r' : Reader⦄ ⦃m : Member⦄, p.Gives r (some m) r' → m.start = start) :
    ReadsMember start (start + 1) p := by
  intro r r' m hplace hm
  cases m with
  | none => exact Spread.nil
  | some m =>
    have hinner := hp.self hm
    have hm' := hstart hm
    rw [held_some, held_member]
    rw [heldByType, Option.toList_some, List.flatMap_singleton] at hinner
    exact hinner.cons (by omega) (by omega) hm.onward.start_le

end NamedMembers

theorem methodSignature_spread (name : Option String) (optional : Bool) (start : Nat) :
    SpreadsBy heldByType seen (methodSignature g name optional start) := by
  refine .step fun _ => .step fun _ => .bind (parameters_spread hg seen) fun params => ?_
  refine .bind (resultAnnotation?_spread hg _) fun returns => .step fun _ => .step fun _ => .step fun _ => .pure ?_
  obtain ⟨params, rest⟩ := params
  cases name with
  | none => exact List.nil_subset _
  | some name => cases returns <;> simp [heldByType]

omit hg in
theorem methodSignature_start {name : Option String} {optional : Bool} {start : Nat} {r r' : Reader} {m : Member}
    (h : (methodSignature g name optional start).Gives r (some m) r') : m.start = start := by
  obtain ⟨_, _, -, h⟩ := gives_bind h
  obtain ⟨_, _, -, h⟩ := gives_bind h
  obtain ⟨_, _, -, h⟩ := gives_bind h
  obtain ⟨_, _, -, h⟩ := gives_bind h
  obtain ⟨_, _, -, h⟩ := gives_bind h
  obtain ⟨_, _, -, h⟩ := gives_bind h
  obtain ⟨_, _, -, h⟩ := gives_bind h
  obtain ⟨_, -, hm⟩ := Option.map_eq_some_iff.mp (gives_pure h).1.symm
  rw [← hm]

theorem annotationWithText_spread : Spreads seen (annotationWithText g) := by
  refine .step fun _ => ?_
  split
  · exact .step fun _ => .bind (hg.type true seen) fun t => .step fun _ => .pure (by simp)
  · exact .pure (by simp)

theorem keyedMember_reads (start : Nat) : ReadsMember start start (keyedMember g start) := by
  refine .key propertyKey_takes fun name => .step fun optional => .step fun isMethod => ?_
  split
  · exact .rest (methodSignature_spread hg [] name optional start) fun _ _ _ h => methodSignature_start h
  · refine .rest ?_ fun _ _ _ h => ?_
    · refine .bind (annotationWithText_spread hg []) fun (type, typeText) => .step fun _ => .step fun doc => .pure ?_
      cases name <;> simp [heldByType]
    · obtain ⟨_, _, -, h⟩ := gives_bind h
      obtain ⟨_, _, -, h⟩ := gives_bind h
      obtain ⟨_, _, -, h⟩ := gives_bind h
      obtain ⟨_, -, hm⟩ := Option.map_eq_some_iff.mp (gives_pure h).1.symm
      rw [← hm]

theorem namedMember_reads (start : Nat) : ReadsMember start start (namedMember g start) := by
  refine .step fun _ => .step fun _ => ?_
  split
  · exact .step fun _ => keyedMember_reads hg start
  · exact keyedMember_reads hg start

omit hg in
/-- A member starts at the token where it is read. -/
theorem ReadsMember.here {q : Nat → Parse (Option Member)} (hq : ∀ start, ReadsMember start start (q start)) :
    Spreads seen (position >>= q) := by
  refine .of_self fun {r r' m} hm => ?_
  obtain ⟨start, r₁, hstart, hm⟩ := gives_bind hm
  obtain ⟨rfl, rfl⟩ := gives_ask hstart
  exact hq _ (Nat.le_refl _) hm

theorem typeMember_spread : Spreads seen (typeMember g) := by
  refine ReadsMember.here seen fun start => ?_
  refine .step fun _ => .step fun _ => .step fun _ => ?_
  have hnone : ∀ {p : Parse Unit}, ReadsMember start start do p; return none := by
    intro p
    refine .step fun _ => ?_
    rintro r r' m - hm
    obtain ⟨rfl, -⟩ := gives_pure hm
    exact Spread.nil
  split
  · exact .step fun _ => .step fun _ => hnone
  · refine .step fun _ => .step fun _ => ?_
    split
    · exact hnone
    · exact namedMember_reads hg start

theorem typeMembers_spread : Spreads seen (typeMembers g) := by
  refine .step fun _ => .bind (.many (fun seen => .step fun _ => ?_) _) fun members => .pure ?_
  · split
    · exact .pure (List.nil_subset _)
    · exact .bind (typeMember_spread hg seen) fun m => .pure (by simp)
  · rw [held_filterMap_id]
    exact List.subset_append_right _ _

/-! ## Compound types -/

theorem functionType_spread (conditional : Bool) : Spreads seen (functionType g conditional) := by
  refine .step fun _ => .bind (parameters_spread hg seen) fun (params, rest) => .step fun _ => ?_
  exact .bind (resultType_spread hg _ conditional) fun returns => .pure (by simp)

omit hg in
theorem constructorType_spread (conditional : Bool) : Spreads seen (constructorType g conditional) :=
  .step fun _ => .step fun _ => .step fun _ => .pure (List.nil_subset _)

omit hg in
theorem mappedType_spread : Spreads seen (mappedType g) := by
  refine .step fun _ => .step fun _ => .step fun _ => .step fun _ => .step fun _ => .step fun _ => ?_
  exact .maybe (.step fun _ => .pure (List.nil_subset _))

theorem importType_spread : Spreads seen (importType g) := by
  refine .step fun _ => .step fun _ => .step fun source => .step fun _ => .step fun _ => .step fun names => ?_
  refine .bind (typeArgumentsHere_spread hg seen) fun args => .pure ?_
  split
  · exact List.nil_subset _
  · rw [held_reference]
    exact List.subset_append_right _ _

omit hg in
theorem typeQuery_spread : Spreads seen (typeQuery g) := by
  refine .step fun _ => .step fun _ => ?_
  split
  · exact .step fun _ => .pure (List.nil_subset _)
  · refine .step fun _ => ?_
    split
    · exact .step fun _ => .step fun _ => .step fun _ => .pure (List.nil_subset _)
    · exact .step fun _ => .step fun _ => .step fun _ => .pure (List.nil_subset _)

theorem referenceType_spread : Spreads seen (referenceType g) := by
  refine .step fun _ => ?_
  split
  · exact .step fun _ => .step fun names => .bind (typeArgumentsHere_spread hg seen) fun args => .pure (by simp)
  · exact .step fun _ => .step fun names => .bind (typeArgumentsHere_spread hg seen) fun args => .pure (by simp)

theorem wordType_spread (w : String) : Spreads seen (wordType g w) := by
  have hlone : ∀ t : TypeExpr, held t = [] → Spreads seen do advance; return t :=
    fun t ht => .step fun _ => .pure (ht ▸ List.nil_subset _)
  refine .step fun next => ?_
  dsimp only
  split
  · exact hlone _ rfl
  · refine .ite (hlone _ rfl) <| .ite (hlone _ rfl) <| .ite (hlone _ rfl) <| .ite (hlone _ rfl) <| .ite (hlone _ rfl) ?_
    exact .ite (typeQuery_spread seen) <| .ite (importType_spread hg seen) (referenceType_spread hg seen)

omit hg in
theorem negativeNumber_spread : Spreads seen negativeNumber := by
  refine .step fun _ => .step fun _ => ?_
  split
  · exact .step fun _ => .pure (List.nil_subset _)
  · exact .step fun _ => .pure (List.nil_subset _)
  · exact .fail

theorem primaryType_spread : Spreads seen (primaryType g) := by
  refine .step fun _ => ?_
  split
  · exact wordType_spread hg seen _
  · exact referenceType_spread hg seen
  · exact .step fun _ => .pure (List.nil_subset _)
  · exact .step fun _ => .pure (List.nil_subset _)
  · exact .step fun _ => .pure (List.nil_subset _)
  · exact .step fun _ => .pure (List.nil_subset _)
  · exact negativeNumber_spread seen
  · refine .orElse (mappedType_spread seen) (.step fun _ => .bind (typeMembers_spread hg seen) fun members => .pure ?_)
    exact fun m hm => List.mem_append_right _ (mem_held_object.mp hm)
  · exact .step fun _ => .step fun _ => .pure (List.nil_subset _)
  · exact .step fun _ => .bind (hg.type true seen) fun t => .step fun _ => .pure (List.subset_append_right _ _)
  · exact .fail

omit hg in
theorem typeBrackets_spread (fuel : Nat) (t : TypeExpr) (ht : held t ⊆ seen) : Spreads seen (typeBrackets g fuel t) := by
  induction fuel generalizing t with
  | zero => exact .pure ht
  | succ fuel ih =>
    refine .step fun _ => .step fun _ => ?_
    split
    · refine .step fun _ => .step fun _ => ?_
      split
      · exact ih (.array t) ht
      · exact .step fun _ => .step fun _ => ih .other (List.nil_subset _)
    · exact .pure ht

theorem operatorTypeRule_spread (conditional : Bool) : Spreads seen (operatorTypeRule g conditional) := by
  refine .step fun _ => ?_
  split
  · exact .step fun _ => .step fun _ => .pure (List.nil_subset _)
  · refine .step fun _ => ?_
    split
    · exact hg.operatorType conditional seen
    · refine .step fun _ => ?_
      split
      · exact .step fun _ => .step fun _ => .pure (List.nil_subset _)
      · refine .bind (primaryType_spread hg seen) fun t => .step fun _ => ?_
        exact typeBrackets_spread _ _ t (List.subset_append_right _ _)

omit hg in
theorem typeSeries_spread {mark : String} {build : List TypeExpr → TypeExpr} {part : Parse TypeExpr}
    (hbuild : ∀ ts, held (build ts) = held ts) (hpart : ∀ seen, Spreads seen part) :
    Spreads seen (typeSeries mark build part) := by
  refine .step fun leading => .bind (hpart seen) fun first => ?_
  refine .step fun _ => .bind (.many (fun seen => .step fun _ => ?_) _) fun others => .pure ?_
  · split
    · exact .bind (hpart seen) fun t => .pure (by simp)
    · exact .pure (List.nil_subset _)
  · split
    · simp
    · rw [hbuild, held_cons, List.append_assoc]
      exact List.subset_append_right _ _

theorem unionType_spread (conditional : Bool) : Spreads seen (unionType g conditional) :=
  typeSeries_spread seen held_union fun seen =>
    typeSeries_spread seen held_intersection (hg.operatorType conditional)

theorem plainType_spread (conditional : Bool) : Spreads seen (plainType g conditional) := by
  refine .step fun _ => .step fun _ => ?_
  split
  · exact functionType_spread hg seen conditional
  · refine .step fun _ => .step fun _ => ?_
    split
    · exact constructorType_spread seen conditional
    · refine .step fun _ => ?_
      split
      · exact .orElse (functionType_spread hg seen conditional) (unionType_spread hg seen conditional)
      · exact unionType_spread hg seen conditional

theorem typeRule_spread (conditional : Bool) : Spreads seen (typeRule g conditional) := by
  refine .bind (plainType_spread hg seen conditional) fun t => .step fun _ => .step fun _ => ?_
  split
  · exact .step fun _ => .step fun _ => .step fun _ => .step fun _ => .step fun _ => .step fun _ => .pure (List.nil_subset _)
  · exact .pure (List.subset_append_right _ _)

end PatternCatalog.Script
