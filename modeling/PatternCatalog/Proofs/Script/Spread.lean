/-
  PatternCatalog.Proofs.Script.Spread — members start at different places.

  Every part of the grammar reads a stretch of the text, and the members of its answer start
  within that stretch, no two at one place (`Spread`). Stretches that follow each other put
  together are such a stretch again (`Spread.append`), so a parser has the property when its
  steps have it (`SpreadsBy.bind`, `SpreadsBy.many`, `SpreadsBy.commaList`); a step whose answer
  has no members only moves the reader on (`SpreadsBy.step`).
-/

import PatternCatalog.Proofs.Subterms
import PatternCatalog.Script.Grammar

namespace PatternCatalog.Script

/-! ## Members in an answer -/

/-- Types whose values hold members of interfaces and object types, at any depth. -/
class HoldsMembers (α : Type) where
  held : α → List Member

export HoldsMembers (held)

instance : HoldsMembers TypeExpr := ⟨fun t => t.subterms.flatMap TypeExpr.members⟩

instance {α : Type} [HoldsMembers α] : HoldsMembers (List α) := ⟨fun as => as.flatMap held⟩

instance {α : Type} [HoldsMembers α] : HoldsMembers (Option α) := ⟨fun a => a.toList.flatMap held⟩

instance {α β : Type} [HoldsMembers α] [HoldsMembers β] : HoldsMembers (α × β) := ⟨fun p => held p.1 ++ held p.2⟩

instance : HoldsMembers Unit := ⟨fun _ => []⟩

instance : HoldsMembers Bool := ⟨fun _ => []⟩

instance : HoldsMembers String := ⟨fun _ => []⟩

instance : HoldsMembers Param := ⟨fun p => held p.type⟩

instance : HoldsMembers Member := ⟨fun m => m :: held m.type⟩

section Held

variable {α β : Type} [HoldsMembers α] [HoldsMembers β]

@[simp] theorem held_none : held (none : Option α) = [] := rfl

@[simp] theorem held_some (a : α) : held (some a) = held a := List.append_nil _

@[simp] theorem held_nil : held ([] : List α) = [] := rfl

@[simp] theorem held_cons (a : α) (as : List α) : held (a :: as) = held a ++ held as := rfl

@[simp] theorem held_append (as bs : List α) : held (as ++ bs) = held as ++ held bs := List.flatMap_append

@[simp] theorem held_pair (a : α) (b : β) : held (a, b) = held a ++ held b := rfl

@[simp] theorem held_unit (a : Unit) : held a = [] := rfl

@[simp] theorem held_bool (a : Bool) : held a = [] := rfl

@[simp] theorem held_string (a : String) : held a = [] := rfl

@[simp] theorem held_param (p : Param) : held p = held p.type := rfl

@[simp] theorem held_member (m : Member) : held m = m :: held m.type := rfl

theorem mem_held {as : List α} {m : Member} : m ∈ held as ↔ ∃ a ∈ as, m ∈ held a := List.mem_flatMap

theorem held_filterMap_id (as : List (Option α)) : held (as.filterMap id) = held as := by
  induction as with
  | nil => rfl
  | cons a as ih =>
    cases a with
    | none => exact ih
    | some a =>
      have hsome : held ((some a :: as).filterMap id) = held a ++ held (as.filterMap id) := rfl
      rw [hsome, ih, held_cons, held_some]

end Held

section Types

theorem subtermsOf_held (ts : List TypeExpr) : (TypeExpr.subtermsOf ts).flatMap TypeExpr.members = held ts := by
  induction ts with
  | nil => rfl
  | cons t ts ih => rw [TypeExpr.subtermsOf, List.flatMap_append, ih, held_cons]; rfl

theorem subtermsOfParams_held (ps : List Param) : (TypeExpr.subtermsOfParams ps).flatMap TypeExpr.members = held ps := by
  induction ps with
  | nil => rfl
  | cons p ps ih =>
    obtain ⟨name, _ | t, optional⟩ := p
    · simp [TypeExpr.subtermsOfParams, ih]
    · rw [TypeExpr.subtermsOfParams, List.flatMap_append, ih, held_cons, held_param, held_some]; rfl

@[simp] theorem held_keyword (k : Keyword) : held (TypeExpr.keyword k) = [] := rfl

@[simp] theorem held_literal (l : LiteralType) : held (TypeExpr.literal l) = [] := rfl

@[simp] theorem held_other : held TypeExpr.other = [] := rfl

@[simp] theorem held_reference (module : Option String) (name : List String) (args : List TypeExpr) :
    held (TypeExpr.reference module name args) = held args := subtermsOf_held args

@[simp] theorem held_union (parts : List TypeExpr) : held (TypeExpr.union parts) = held parts := subtermsOf_held parts

@[simp] theorem held_intersection (parts : List TypeExpr) : held (TypeExpr.intersection parts) = held parts :=
  subtermsOf_held parts

@[simp] theorem held_array (item : TypeExpr) : held (TypeExpr.array item) = held item := rfl

@[simp] theorem held_function (params : List Param) (returns : TypeExpr) :
    held (TypeExpr.function params returns) = held params ++ held returns := by
  have h : held (TypeExpr.function params returns) =
      (TypeExpr.subtermsOfParams params ++ returns.subterms).flatMap TypeExpr.members := rfl
  rw [h, List.flatMap_append, subtermsOfParams_held]
  rfl

/-- An object type holds its members, and what their types hold. -/
theorem mem_held_object {members : List Member} {m : Member} :
    m ∈ held (TypeExpr.object members) ↔ m ∈ held members := by
  have hinner : (TypeExpr.subtermsOfMembers members).flatMap TypeExpr.members = members.flatMap fun n => held n.type := by
    induction members with
    | nil => rfl
    | cons n ns ih =>
      obtain ⟨name, optional, _ | t, typeText, doc, start⟩ := n
      · simp [TypeExpr.subtermsOfMembers, ih]
      · rw [TypeExpr.subtermsOfMembers, List.flatMap_append, ih, List.flatMap_cons, held_some]; rfl
  have h : held (TypeExpr.object members) =
      members ++ (TypeExpr.subtermsOfMembers members).flatMap TypeExpr.members := rfl
  rw [h, hinner, List.mem_append, List.mem_flatMap, mem_held]
  simp only [held_member, List.mem_cons]
  constructor
  · rintro (hm | ⟨n, hn, hm⟩)
    · exact ⟨m, hm, .inl rfl⟩
    · exact ⟨n, hn, .inr hm⟩
  · rintro ⟨n, hn, rfl | hm⟩
    · exact .inl hn
    · exact .inr ⟨n, hn, hm⟩

end Types

/-! ## Spread over a stretch -/

/-- Whether members start within a stretch, no two of them at one place. -/
structure Spread (lo hi : Nat) (ms : List Member) : Prop where
  within : ∀ m ∈ ms, lo ≤ m.start ∧ m.start < hi
  apart : ∀ m ∈ ms, ∀ n ∈ ms, m.start = n.start → m = n

namespace Spread

variable {lo mid hi : Nat} {ms ns : List Member}

theorem nil : Spread lo hi [] := ⟨nofun, nofun⟩

theorem subset (h : Spread lo hi ms) (hsub : ns ⊆ ms) : Spread lo hi ns :=
  ⟨fun m hm => h.within m (hsub hm), fun m hm n hn => h.apart m (hsub hm) n (hsub hn)⟩

theorem widen {lo' hi' : Nat} (h : Spread lo hi ms) (hlo : lo' ≤ lo) (hhi : hi ≤ hi') : Spread lo' hi' ms :=
  ⟨fun m hm => ⟨Nat.le_trans hlo (h.within m hm).1, Nat.lt_of_lt_of_le (h.within m hm).2 hhi⟩, h.apart⟩

/-- Two stretches that follow each other. -/
theorem append (h : Spread lo mid ms) (h' : Spread mid hi ns) (hlo : lo ≤ mid) (hhi : mid ≤ hi) : Spread lo hi (ms ++ ns) := by
  have hleft := h.widen (Nat.le_refl lo) hhi
  have hright := h'.widen hlo (Nat.le_refl hi)
  have hdisjoint : ∀ m ∈ ms, ∀ n ∈ ns, m.start ≠ n.start := fun m hm n hn he => by
    have hm := (h.within m hm).2
    have hn := (h'.within n hn).1
    omega
  constructor
  · intro m hm
    rcases List.mem_append.mp hm with hm | hm
    · exact hleft.within m hm
    · exact hright.within m hm
  · intro m hm n hn he
    rcases List.mem_append.mp hm with hm | hm <;> rcases List.mem_append.mp hn with hn | hn
    · exact h.apart m hm n hn he
    · exact absurd he (hdisjoint m hm n hn)
    · exact absurd he.symm (hdisjoint n hn m hm)
    · exact h'.apart m hm n hn he

/-- A member in front of what its type holds. -/
theorem cons {m : Member} (h : Spread mid hi ms) (hlo : lo ≤ m.start) (hmid : m.start < mid) (hhi : mid ≤ hi) :
    Spread lo hi (m :: ms) :=
  have hone : Spread lo mid [m] := by
    refine ⟨fun n hn => ?_, fun n hn k hk _ => ?_⟩
    · rw [List.mem_singleton.mp hn]
      exact ⟨hlo, hmid⟩
    · rw [List.mem_singleton.mp hn, List.mem_singleton.mp hk]
  hone.append h (Nat.le_trans hlo (Nat.le_of_lt hmid)) hhi

end Spread

/-! ## Steps of a parser -/

theorem Reader.Onward.start_le {r r' : Reader} (h : r.Onward r') : r.start ≤ r'.start := by
  have hoctets := Text.octets_le_of_suffix h.here
  unfold Reader.start
  rw [h.size]
  omega

/-- A token that is there is behind the reader once it is taken. -/
theorem Reader.start_lt_next {r : Reader} (h : r.token ≠ .eof) : r.start < r.next.start := by
  have hsome : r.here ≠ [] := fun hnone => h (r.ended hnone)
  have htail := Text.octets_tail_lt hsome
  have hrest := Text.octets_le_of_suffix ((Gap.after_suffix r.rest).trans r.taken)
  have hwithin := r.within
  have hnext : r.next.start = r.size - Text.octets (Gap.after r.rest).2 := rfl
  rw [hnext, Reader.start]
  omega

namespace Parse

variable {α β : Type}

/-- From a reader a parser gives an answer and leaves another reader. -/
def Gives (p : Parse α) (r : Reader) (a : α) (r' : Reader) : Prop := ∃ h, p r = some (a, ⟨r', h⟩)

theorem Gives.onward {p : Parse α} {r r' : Reader} {a : α} (h : p.Gives r a r') : r.Onward r' := h.1

theorem gives_pure {r r' : Reader} {a b : α} (h : (pure a : Parse α).Gives r b r') : b = a ∧ r' = r := by
  obtain ⟨_, h⟩ := h
  obtain ⟨rfl, hr⟩ := Prod.mk.inj (Option.some.inj h)
  exact ⟨rfl, (Subtype.mk.inj hr).symm⟩

theorem gives_bind {p : Parse α} {q : α → Parse β} {r r'' : Reader} {b : β} (h : (p >>= q).Gives r b r'') :
    ∃ a r', p.Gives r a r' ∧ (q a).Gives r' b r'' := by
  obtain ⟨_, h⟩ := h
  dsimp only [bind] at h
  split at h
  · next a r' honward hp =>
    split at h
    · next b' r'' honward' hq =>
      obtain ⟨rfl, hr⟩ := Prod.mk.inj (Option.some.inj h)
      obtain rfl := Subtype.mk.inj hr
      exact ⟨a, r', ⟨honward, hp⟩, ⟨honward', hq⟩⟩
    · cases h
  · cases h

theorem gives_ask {f : Reader → α} {r r' : Reader} {a : α} (h : (ask f).Gives r a r') : a = f r ∧ r' = r := by
  obtain ⟨_, h⟩ := h
  obtain ⟨rfl, hr⟩ := Prod.mk.inj (Option.some.inj h)
  exact ⟨rfl, (Subtype.mk.inj hr).symm⟩

theorem gives_advance {r r' : Reader} (h : advance.Gives r () r') : r' = r.next := by
  obtain ⟨_, h⟩ := h
  exact (Subtype.mk.inj (Prod.mk.inj (Option.some.inj h)).2).symm

/-- Whether a parser that goes on after members that are spread over what it has left behind
gives an answer whose members, together with them, are spread over what it then has. -/
def SpreadsBy (f : α → List Member) (seen : List Member) (p : Parse α) : Prop :=
  ∀ ⦃lo : Nat⦄ ⦃r r' : Reader⦄ ⦃a : α⦄, lo ≤ r.start → Spread lo r.start seen → p.Gives r a r' →
    Spread lo r'.start (seen ++ f a)

abbrev Spreads [HoldsMembers α] (seen : List Member) (p : Parse α) : Prop := SpreadsBy held seen p

namespace SpreadsBy

variable {f : α → List Member} {h : β → List Member} {seen : List Member} {p : Parse α} {q : α → Parse β}

theorem pure {a : α} (ha : f a ⊆ seen) : SpreadsBy f seen (Pure.pure a) := by
  intro lo r r' b _ hseen hb
  obtain ⟨rfl, rfl⟩ := gives_pure hb
  exact hseen.subset (List.append_subset.mpr ⟨List.Subset.refl _, ha⟩)

theorem fail : SpreadsBy f seen Parse.fail := by
  rintro lo r r' a - - ⟨_, ha⟩
  cases ha

/-- A step whose answer is of no account. -/
theorem step (hq : ∀ a, SpreadsBy h seen (q a)) : SpreadsBy h seen (p >>= q) := by
  intro lo r r'' b hlo hseen hb
  obtain ⟨a, r', ha, hb⟩ := gives_bind hb
  have hle := ha.onward.start_le
  exact hq a (Nat.le_trans hlo hle) (hseen.widen (Nat.le_refl lo) hle) hb

theorem ite {c : Prop} [Decidable c] {p q : Parse α} (hp : SpreadsBy f seen p) (hq : SpreadsBy f seen q) :
    SpreadsBy f seen (if c then p else q) := by
  split
  · exact hp
  · exact hq

/-- A step that is taken or not. -/
theorem maybe {c : Prop} [Decidable c] {q : Parse β} (hq : SpreadsBy h seen q) :
    SpreadsBy h seen (if c then (do let _ ← p; q) else q) := ite (step fun _ => hq) hq

theorem bind (hp : SpreadsBy f seen p) (hq : ∀ a, SpreadsBy h (seen ++ f a) (q a)) : SpreadsBy h seen (p >>= q) := by
  intro lo r r'' b hlo hseen hb
  obtain ⟨a, r', ha, hb⟩ := gives_bind hb
  have hall := hq a (Nat.le_trans hlo ha.onward.start_le) (hp hlo hseen ha) hb
  refine hall.subset (List.append_subset.mpr ⟨?_, List.subset_append_right _ _⟩)
  exact fun m hm => List.mem_append_left _ (List.mem_append_left _ hm)

/-- It is enough to look at what a parser reads itself. -/
theorem of_self (hself : ∀ {r r' a}, p.Gives r a r' → Spread r.start r'.start (f a)) : SpreadsBy f seen p := by
  intro lo r r' a hlo hseen ha
  exact hseen.append (hself ha) hlo ha.onward.start_le

theorem self (hp : SpreadsBy f [] p) {r r' : Reader} {a : α} (ha : p.Gives r a r') : Spread r.start r'.start (f a) :=
  hp (Nat.le_refl _) Spread.nil ha

/-- Other ways to list the members of an answer. -/
theorem subset {f' : α → List Member} (hp : SpreadsBy f seen p) (hsub : ∀ a, f' a ⊆ f a) : SpreadsBy f' seen p := by
  intro lo r r' a hlo hseen ha
  refine (hp hlo hseen ha).subset (List.append_subset.mpr ⟨List.subset_append_left _ _, ?_⟩)
  exact fun m hm => List.mem_append_right _ (hsub a hm)

theorem orElse {q : Parse α} (hp : SpreadsBy f seen p) (hq : SpreadsBy f seen q) : SpreadsBy f seen (Parse.orElse p q) := by
  rintro lo r r' a hlo hseen ⟨honward, ha⟩
  unfold Parse.orElse at ha
  split at ha
  · next hpa => exact hp hlo hseen ⟨honward, hpa.trans ha⟩
  · exact hq hlo hseen ⟨honward, ha⟩

end SpreadsBy

section Repeated

variable [HoldsMembers α] {seen : List Member}

theorem SpreadsBy.attempt {p : Parse α} (hp : ∀ seen, Spreads seen p) : Spreads seen (attempt p) := by
  rintro lo r r' a hlo hseen ⟨honward, ha⟩
  unfold Parse.attempt at ha
  split at ha
  · next b r'' hb =>
    obtain ⟨rfl, rfl⟩ := Prod.mk.inj (Option.some.inj ha)
    rw [held_some]
    exact hp seen hlo hseen ⟨honward, hb⟩
  · obtain ⟨rfl, hr⟩ := Prod.mk.inj (Option.some.inj ha)
    obtain rfl := Subtype.mk.inj hr
    rw [held_none, List.append_nil]
    exact hseen

/-- Answers one after another lie in stretches one after another. -/
theorem SpreadsBy.many {p : Parse (Option α)} (hp : ∀ seen, Spreads seen p) (fuel : Nat) : Spreads seen (many fuel p) := by
  induction fuel generalizing seen with
  | zero => exact SpreadsBy.pure (List.nil_subset _)
  | succ fuel ih =>
    refine SpreadsBy.bind (hp seen) fun a => ?_
    split
    · refine SpreadsBy.bind ih fun as => SpreadsBy.pure ?_
      rw [held_cons, held_some, List.append_assoc]
      exact List.subset_append_right _ _
    · exact SpreadsBy.pure (List.nil_subset _)

theorem SpreadsBy.commaList {item : Parse α} (hitem : ∀ seen, Spreads seen item) (close : String) :
    Spreads seen (commaList close item) := by
  refine SpreadsBy.step fun _ => SpreadsBy.many (fun seen => ?_) _
  refine SpreadsBy.step fun closed => ?_
  split
  · exact SpreadsBy.pure (List.nil_subset _)
  · refine SpreadsBy.bind (hitem seen) fun a => SpreadsBy.step fun comma => ?_
    split
    · exact SpreadsBy.pure (by simp)
    · exact SpreadsBy.step fun _ => SpreadsBy.step fun _ => SpreadsBy.pure (by simp)

end Repeated

end Parse

end PatternCatalog.Script
