/-
  PatternCatalog.Proofs.Property.Scalar — what it means that a type is boolean, a string or a number.

  A type is opened by following an alias to what it stands for and a union to its parts; the
  types at which this ends are its leaves. A test of a type asks all leaves that are entered
  without going through a part of a union that is written as `null` or `undefined` (`KeptLeaf`,
  `normal_keptLeaf`, `consistsOf?_keptLeaf`). That is the same as to ask for a leaf that is not
  nullish, and for all of these to satisfy the test, unless nothing is kept or a nullish leaf is
  (`scalar_iff_keptLeaves`). Of a union of nullish parts every test holds, and a part that
  stands for `null` is tested like any other (`nullish_leaves_are_misread`).
-/

import PatternCatalog.Proofs.Property.Classification

namespace PatternCatalog

open Library (Place)

/-- What a type can consist of, as the classification of a property asks for it. -/
inductive Scalar where
  | boolean
  | string
  | number
  deriving DecidableEq

namespace Scalar

def test : Scalar → TypeExpr → Bool
  | boolean => TypeExpr.isBoolean
  | string => TypeExpr.isString
  | number => TypeExpr.isNumber

variable {s s' : Scalar} {t : TypeExpr}

theorem test_eq_false (h : t.isNullish = true) : s.test t = false := by
  unfold TypeExpr.isNullish at h
  split at h
  · cases s <;> rfl
  · cases s <;> rfl
  · cases h

theorem eq_of_test (h : s.test t = true) (h' : s'.test t = true) : s = s' := by
  cases s <;> cases s' <;> first | rfl | (simp only [test, TypeExpr.isBoolean, TypeExpr.isString, TypeExpr.isNumber] at h h'; grind)

end Scalar

namespace Library

open Relation (ReflTransGen TransGen)

/-! ## Leaves -/

/-- A type that is opened gives what an alias stands for, or the parts of a union. -/
inductive Opens (l : Library) : Place → Place → Prop
  | target {p q} (htarget : l.aliasTarget? p = some q) : Opens l p q
  | part {p parts part} (hunion : p.type = .union parts) (hpart : part ∈ parts) : Opens l p ⟨p.file, part⟩

/-- What is opened is entered, unless it is written as `null` or `undefined` among the parts of a union. -/
inductive Enters (l : Library) : Place → Place → Prop
  | target {p q} (htarget : l.aliasTarget? p = some q) : Enters l p q
  | part {p parts part} (hunion : p.type = .union parts) (hpart : part ∈ properParts parts) : Enters l p ⟨p.file, part⟩

/-- A type that is neither an alias nor a union. -/
def IsLeaf (l : Library) (p : Place) : Prop := l.aliasTarget? p = none ∧ ∀ parts, p.type ≠ .union parts

/-- A leaf of a type, through aliases and unions of every depth. -/
def Leaf (l : Library) (p r : Place) : Prop := ReflTransGen l.Opens p r ∧ l.IsLeaf r

/-- A leaf on the way to which no part of a union is written as `null` or `undefined`. -/
def KeptLeaf (l : Library) (p r : Place) : Prop := ReflTransGen l.Enters p r ∧ l.IsLeaf r

/-- Whether the leaves of a type that are not nullish are some, all of a kind. -/
def HasOnly (l : Library) (s : Scalar) (p : Place) : Prop :=
  (∃ r, l.Leaf p r ∧ r.type.isNullish = false) ∧ ∀ r, l.Leaf p r → r.type.isNullish = false → s.test r.type = true

/-- A type that does not lead back to itself, with chains of aliases that are followed to their end. -/
structure Straight (l : Library) (p : Place) : Prop where
  acyclic : ∀ q, ReflTransGen l.Opens p q → ¬ TransGen l.Opens q q
  followed : ∀ q, ReflTransGen l.Opens p q → l.aliasTarget? (l.resolveAlias q) = none

variable {l : Library} {p q r : Place} {parts : List TypeExpr}

theorem isLeaf_of_isNullish (h : p.type.isNullish = true) : l.IsLeaf p := by
  unfold TypeExpr.isNullish at h
  split at h
  · next htype => exact ⟨by simp [aliasTarget?, aliasKey?, reference?, htype], by simp [htype]⟩
  · next htype => exact ⟨by simp [aliasTarget?, aliasKey?, reference?, htype], by simp [htype]⟩
  · cases h

theorem Enters.opens (h : l.Enters p q) : l.Opens p q := by
  cases h with
  | target htarget => exact .target htarget
  | part hunion hpart => exact .part hunion (List.mem_filter.mp hpart).1

theorem IsLeaf.not_opens (h : l.IsLeaf p) : ¬ l.Opens p q := by
  intro hopens
  cases hopens with
  | target htarget =>
    rw [h.1] at htarget
    cases htarget
  | part hunion hpart => exact h.2 _ hunion

theorem IsLeaf.eq_of_opens (h : l.IsLeaf p) (hopens : ReflTransGen l.Opens p r) : r = p := by
  rcases hopens.cases_head with rfl | ⟨q, hq, -⟩
  · rfl
  · exact absurd hq h.not_opens

theorem KeptLeaf.leaf (h : l.KeptLeaf p r) : l.Leaf p r := ⟨h.1.lift id fun _ _ => Enters.opens, h.2⟩

/-- Leaves that are not nullish are kept, since a nullish type is opened no further. -/
theorem Leaf.kept (h : l.Leaf p r) (hproper : r.type.isNullish = false) : l.KeptLeaf p r := by
  obtain ⟨hopens, hleaf⟩ := h
  refine ⟨?_, hleaf⟩
  induction hopens using ReflTransGen.head_induction_on with
  | refl => exact .refl
  | head hopens hrest ih =>
    refine .head ?_ ih
    cases hopens with
    | target htarget => exact .target htarget
    | @part parts part hunion hpart =>
      refine .part hunion (List.mem_filter.mpr ⟨hpart, ?_⟩)
      rw [Bool.not_eq_true', Bool.eq_false_iff]
      intro hnullish
      obtain rfl := (isLeaf_of_isNullish hnullish).eq_of_opens hrest
      exact absurd hnullish (Bool.eq_false_iff.mp hproper)

/-! ## Kept leaves -/

theorem keptLeaf_of_isLeaf (h : l.IsLeaf p) : l.KeptLeaf p r ↔ r = p := by
  refine ⟨fun hr => h.eq_of_opens hr.leaf.1, ?_⟩
  rintro rfl
  exact ⟨.refl, h⟩

theorem keptLeaf_alias (htarget : l.aliasTarget? p = some q) : l.KeptLeaf p r ↔ l.KeptLeaf q r := by
  refine ⟨fun ⟨henters, hleaf⟩ => ⟨?_, hleaf⟩, fun ⟨henters, hleaf⟩ => ⟨.head (.target htarget) henters, hleaf⟩⟩
  rcases henters.cases_head with rfl | ⟨q', hq', hrest⟩
  · rw [hleaf.1] at htarget
    cases htarget
  · cases hq' with
    | target htarget' =>
      obtain rfl := Option.some.inj (htarget.symm.trans htarget')
      exact hrest
    | part hunion hpart =>
      rw [aliasTarget?_union hunion] at htarget
      cases htarget

theorem keptLeaf_union (hunion : p.type = .union parts) :
    l.KeptLeaf p r ↔ ∃ part ∈ properParts parts, l.KeptLeaf ⟨p.file, part⟩ r := by
  constructor
  · rintro ⟨henters, hleaf⟩
    rcases henters.cases_head with rfl | ⟨q, hq, hrest⟩
    · exact absurd hunion (hleaf.2 parts)
    · cases hq with
      | target htarget =>
        rw [aliasTarget?_union hunion] at htarget
        cases htarget
      | part hunion' hpart =>
        obtain rfl := TypeExpr.union.inj (hunion.symm.trans hunion')
        exact ⟨_, hpart, hrest, hleaf⟩
  · rintro ⟨part, hpart, henters, hleaf⟩
    exact ⟨.head (.part hunion hpart) henters, hleaf⟩

theorem keptLeaf_followAliases (n : Nat) : l.KeptLeaf (l.followAliases n p) r ↔ l.KeptLeaf p r := by
  induction n generalizing p with
  | zero => rfl
  | succ n ih =>
    cases htarget : l.aliasTarget? p with
    | none => rw [followAliases, htarget]
    | some q =>
      rw [followAliases, htarget]
      exact ih.trans (keptLeaf_alias htarget).symm

theorem opens_followAliases (n : Nat) : ReflTransGen l.Opens p (l.followAliases n p) := by
  induction n generalizing p with
  | zero => exact .refl
  | succ n ih =>
    cases htarget : l.aliasTarget? p with
    | none =>
      rw [followAliases, htarget]
    | some q =>
      rw [followAliases, htarget]
      exact .head (.target htarget) ih

theorem Straight.of_opens (h : l.Straight p) (hopens : ReflTransGen l.Opens p q) : l.Straight q where
  acyclic r hr := h.acyclic r (hopens.trans hr)
  followed r hr := h.followed r (hopens.trans hr)

theorem opens_only (hunion : (l.resolveAlias p).type = .union parts) {only : TypeExpr} (honly : only ∈ properParts parts) :
    TransGen l.Opens p ⟨(l.resolveAlias p).file, only⟩ :=
  .tail' (opens_followAliases typeDepth) (.part hunion (List.mem_filter.mp honly).1)

/-- A type is opened on the way to its normal form, and the leaves of both that are kept are the same. -/
theorem normal_keptLeaf (h : l.Normal p q) : ReflTransGen l.Opens p q ∧ ∀ r, l.KeptLeaf q r ↔ l.KeptLeaf p r := by
  obtain ⟨n, hn⟩ := h
  induction n generalizing p with
  | zero => cases hn
  | succ n ih =>
    rcases l.normalize?_cases p with ⟨parts, only, hunion, honly, hstep⟩ | ⟨hend, -⟩
    · rw [hstep] at hn
      obtain ⟨hopens, hkept⟩ := ih hn
      refine ⟨(opens_only hunion (honly ▸ List.mem_singleton_self only)).to_reflTransGen.trans hopens, fun r => ?_⟩
      have hpart : l.KeptLeaf (l.resolveAlias p) r ↔ l.KeptLeaf ⟨(l.resolveAlias p).file, only⟩ r := by
        rw [keptLeaf_union hunion, honly]
        simp
      exact (hkept r).trans (hpart.symm.trans (keptLeaf_followAliases typeDepth))
    · obtain rfl := Option.some.inj ((hend n).symm.trans hn)
      exact ⟨opens_followAliases typeDepth, fun r => keptLeaf_followAliases typeDepth⟩

/-- A normal form is no alias. -/
theorem Straight.aliasTarget?_normal (h : l.Straight p) (hq : l.Normal p q) : l.aliasTarget? q = none := by
  obtain ⟨n, hn⟩ := hq
  induction n generalizing p with
  | zero => cases hn
  | succ n ih =>
    rcases l.normalize?_cases p with ⟨parts, only, hunion, honly, hstep⟩ | ⟨hend, -⟩
    · have hopens := opens_only hunion (honly ▸ List.mem_singleton_self only)
      exact ih (h.of_opens hopens.to_reflTransGen) (hstep n ▸ hn)
    · obtain rfl := Option.some.inj ((hend n).symm.trans hn)
      exact h.followed p .refl

/-! ## Tests of leaves -/

/-- Checks that are made until one fails all hold exactly when what they check does. -/
theorem allM_iff_of_forall₂ {α β : Type} {R : α → β → Prop} {check : β → Option Bool} {P : α → Prop} {as : List α}
    {bs : List β} (hbs : List.Forall₂ R as bs) (hcheck : ∀ a b, R a b → ∀ c, check b = some c → (c = true ↔ P a)) {c : Bool}
    (h : bs.allM check = some c) : c = true ↔ ∀ a ∈ as, P a := by
  induction hbs with
  | nil =>
    obtain rfl := Option.some.inj h
    simp
  | @cons a b as bs hab _ ih =>
    rw [List.allM] at h
    obtain ⟨d, hd, h⟩ := Option.bind_eq_some_iff.mp h
    rw [List.forall_mem_cons, ← hcheck a b hab d hd]
    cases d with
    | false =>
      obtain rfl := Option.some.inj h
      simp
    | true => simpa using ih h

/-- A test of a normal form asks each leaf that is kept. -/
theorem consistsOf?_keptLeaf {test : TypeExpr → Bool} {n : Nat} {b : Bool} (h : l.Straight p) (hend : l.aliasTarget? p = none)
    (hn : l.consistsOf? test n p = some b) : b = true ↔ ∀ r, l.KeptLeaf p r → test r.type = true := by
  induction n generalizing p b with
  | zero => cases hn
  | succ n ih =>
    rcases l.consistsOf?_cases test p with ⟨parts, hunion, hstep⟩ | ⟨hlast, hleaf⟩
    · rw [hstep] at hn
      obtain ⟨places, hplaces, hall⟩ := Option.bind_eq_some_iff.mp hn
      have hnormal := (List.forall₂_and_left (p := (· ∈ properParts parts)) _ _).mpr
        ⟨fun _ hpart => hpart, mapM_eq_some_iff.mp hplaces⟩
      have hparts := allM_iff_of_forall₂ (P := fun part => ∀ r, l.KeptLeaf ⟨p.file, part⟩ r → test r.type = true) hnormal ?_ hall
      · rw [hparts]
        simp only [keptLeaf_union hunion]
        grind
      · rintro part q ⟨hpart, hq⟩ c hc
        have hstraight : l.Straight ⟨p.file, part⟩ := h.of_opens (.single (.part hunion (List.mem_filter.mp hpart).1))
        obtain ⟨hopens, hkept⟩ := normal_keptLeaf ⟨n, hq⟩
        rw [ih (hstraight.of_opens hopens) (hstraight.aliasTarget?_normal ⟨n, hq⟩) hc]
        simp only [hkept]
    · obtain rfl := Option.some.inj ((hlast n).symm.trans hn)
      simp [keptLeaf_of_isLeaf ⟨hend, hleaf⟩]

/-! ## Answers -/

/-- The type that a query is about. -/
def Query.place : Query → Place
  | .normalize p | .consists _ p => p

/-- A query awaits others about types that its own is opened to. -/
theorem Awaits.opens {s t : Query} (h : l.Awaits s t) : TransGen l.Opens s.place t.place := by
  cases h with
  | only hunion honly => exact opens_only hunion (honly ▸ List.mem_singleton_self _)
  | part hunion hpart => exact .single (.part hunion (List.mem_filter.mp hpart).1)
  | @next test p parts before part after q hunion hparts _ hnormal =>
    have hpart : part ∈ properParts parts := hparts ▸ List.mem_append_right _ List.mem_cons_self
    exact .head' (.part hunion (List.mem_filter.mp hpart).1) (normal_keptLeaf hnormal).1

theorem Straight.grounded {s : Query} (h : l.Straight s.place) : s.Grounded l := by
  intro t ht hcycle
  have hopens := ht.lift' Query.place fun _ _ hnext => hnext.opens.to_reflTransGen
  exact h.acyclic t.place hopens (hcycle.lift' Query.place fun _ _ hnext => hnext.opens)

theorem Straight.exists_normal (h : l.Straight p) : ∃ q, l.Normal p q := by
  have hmem : Query.normalize p ∈ l.walkQueries TypeExpr.isBoolean p := normalize_mem_walkQueries.mpr self_mem_walkPlaces
  obtain ⟨n, a, ha⟩ := (l.answer?_awaiting.answered_iff (l.walkQueries_closed _ p) hmem).mpr (Straight.grounded h)
  obtain ⟨q, hq⟩ := exists_answer_normalize.mp ⟨a, ha⟩
  exact ⟨q, n, hq⟩

theorem Straight.exists_consists (h : l.Straight p) (test : TypeExpr → Bool) : ∃ b, l.Consists test p b := by
  have hmem : Query.consists test p ∈ l.walkQueries test p := consists_mem_walkQueries.mpr self_mem_walkPlaces
  obtain ⟨n, a, ha⟩ := (l.answer?_awaiting.answered_iff (l.walkQueries_closed _ p) hmem).mpr (Straight.grounded h)
  obtain ⟨b, hb⟩ := exists_answer_consists.mp ⟨a, ha⟩
  exact ⟨b, n, hb⟩

/-- A test that all kept leaves satisfy is the one that the classification means, unless nothing is kept or nullish leaves are. -/
theorem hasOnly_iff_of_kept {s : Scalar} {b : Bool} (hb : b = true ↔ ∀ r, l.KeptLeaf p r → s.test r.type = true) :
    (b = true ↔ l.HasOnly s p) ↔
      (∃ r, l.KeptLeaf p r) ∧ (l.HasOnly s p → ∀ r, l.KeptLeaf p r → r.type.isNullish = false) := by
  rw [hb]
  constructor
  · intro hiff
    have hkept : ∃ r, l.KeptLeaf p r := by
      by_contra hnone
      obtain ⟨⟨r, hr, hproper⟩, -⟩ := hiff.mp fun r hr => absurd ⟨r, hr⟩ hnone
      exact hnone ⟨r, hr.kept hproper⟩
    refine ⟨hkept, fun hasOnly r hr => ?_⟩
    rw [Bool.eq_false_iff]
    intro hnullish
    have htest := hiff.mpr hasOnly r hr
    rw [Scalar.test_eq_false hnullish] at htest
    cases htest
  · rintro ⟨⟨r, hr⟩, hproper⟩
    refine ⟨fun hall => ?_, fun hasOnly r hr => hasOnly.2 r hr.leaf (hproper hasOnly r hr)⟩
    refine ⟨⟨r, hr.leaf, ?_⟩, fun r' hr' hproper' => hall r' (hr'.kept hproper')⟩
    rw [Bool.eq_false_iff]
    intro hnullish
    have htest := hall r hr
    rw [Scalar.test_eq_false hnullish] at htest
    cases htest

theorem hasOnly_iff {s : Scalar} : l.HasOnly s p ↔
    (∃ r, l.KeptLeaf p r ∧ r.type.isNullish = false) ∧
      ∀ r, l.KeptLeaf p r → r.type.isNullish = false → s.test r.type = true := by
  have hiff : ∀ r, l.Leaf p r ∧ r.type.isNullish = false ↔ l.KeptLeaf p r ∧ r.type.isNullish = false := fun r =>
    ⟨fun h => ⟨h.1.kept h.2, h.2⟩, fun h => ⟨h.1.leaf, h.2⟩⟩
  simp only [HasOnly, ← and_imp, hiff]

/-! ## Types that end -/

theorem Straight.of_next (hfollowed : l.aliasTarget? (l.resolveAlias p) = none) (hnext : ∀ q, l.Opens p q → l.Straight q) :
    l.Straight p where
  acyclic q hq hcycle := by
    rcases hq.cases_head with rfl | ⟨r, hr, hrest⟩
    · obtain ⟨r, hr, hback⟩ := TransGen.head'_iff.mp hcycle
      exact (hnext r hr).acyclic p hback hcycle
    · exact (hnext r hr).acyclic q hrest hcycle
  followed q hq := by
    rcases hq.cases_head with rfl | ⟨r, hr, hrest⟩
    · exact hfollowed
    · exact (hnext r hr).followed q hrest

theorem IsLeaf.straight (h : l.IsLeaf p) : l.Straight p :=
  .of_next ((resolveAlias_of_no_target h.1).symm ▸ h.1) fun _ hopens => absurd hopens h.not_opens

theorem straight_union (hunion : p.type = .union parts) (hparts : ∀ part ∈ parts, l.Straight ⟨p.file, part⟩) :
    l.Straight p := by
  have hnone := aliasTarget?_union (l := l) hunion
  refine .of_next ((resolveAlias_of_no_target hnone).symm ▸ hnone) fun q hopens => ?_
  cases hopens with
  | target htarget =>
    rw [hnone] at htarget
    cases htarget
  | part hunion' hpart =>
    obtain rfl := TypeExpr.union.inj (hunion.symm.trans hunion')
    exact hparts _ hpart

theorem straight_alias (htarget : l.aliasTarget? p = some q) (hfollowed : l.aliasTarget? (l.resolveAlias p) = none)
    (hq : l.Straight q) : l.Straight p := by
  refine .of_next hfollowed fun r hopens => ?_
  cases hopens with
  | target htarget' =>
    obtain rfl := Option.some.inj (htarget.symm.trans htarget')
    exact hq
  | part hunion hpart =>
    rw [aliasTarget?_union hunion] at htarget
    cases htarget

/-! ## Nullish types with a name -/

theorem keyword_isLeaf (file : Nat) (k : Keyword) : l.IsLeaf ⟨file, .keyword k⟩ :=
  ⟨by simp [aliasTarget?, aliasKey?, reference?], by simp⟩

/-- `type Nothing = null`. -/
def nothingLibrary : Library :=
  .ofFiles ⟨"/lib"⟩ none [".d.ts"]
    [⟨⟨"/lib/index.d.ts"⟩, { declarations := [⟨"Nothing", 5, none, .alias (.keyword .null)⟩] }⟩]

def nothing : TypeExpr := .reference none ["Nothing"] []

theorem nothing_target : nothingLibrary.aliasTarget? ⟨0, nothing⟩ = some ⟨0, .keyword .null⟩ := by rfl

theorem nothing_straight : nothingLibrary.Straight ⟨0, nothing⟩ :=
  straight_alias nothing_target (by rfl) (keyword_isLeaf 0 .null).straight

/-- `Nothing | string`. -/
def nothingOrString : Place := ⟨0, .union [nothing, .keyword .string]⟩

theorem nothingOrString_straight : nothingLibrary.Straight nothingOrString := by
  refine straight_union rfl fun part hpart => ?_
  obtain rfl | rfl : part = nothing ∨ part = .keyword .string := by simpa using hpart
  · exact nothing_straight
  · exact (keyword_isLeaf 0 .string).straight

theorem nothingOrString_keptLeaf {r : Place} :
    nothingLibrary.KeptLeaf nothingOrString r ↔ r = ⟨0, .keyword .null⟩ ∨ r = ⟨0, .keyword .string⟩ := by
  have hparts : properParts [nothing, .keyword .string] = [nothing, .keyword .string] := rfl
  rw [keptLeaf_union rfl, hparts]
  simp [nothingOrString, keptLeaf_alias nothing_target, keptLeaf_of_isLeaf (keyword_isLeaf _ _)]

/-! ## Scalars -/

/-- A type that leads nowhere without end is normalized and tested. A test holds when all leaves
that are kept satisfy it. It holds just of the types whose proper leaves are some, all of the
kind, exactly when a leaf is kept and, where they are, no kept leaf is nullish; and no two tests
hold exactly when a leaf is kept. -/
theorem scalar_iff_keptLeaves (h : l.Straight p) :
    ∃ q, l.Normal p q ∧
      (∀ s : Scalar, ∃ b, l.Consists s.test q b ∧ (b = true ↔ ∀ r, l.KeptLeaf p r → s.test r.type = true) ∧
        ((b = true ↔ l.HasOnly s p) ↔
          (∃ r, l.KeptLeaf p r) ∧ (l.HasOnly s p → ∀ r, l.KeptLeaf p r → r.type.isNullish = false))) ∧
      ((∀ s s', l.Consists (Scalar.test s) q true → l.Consists (Scalar.test s') q true → s = s') ↔ ∃ r, l.KeptLeaf p r) := by
  obtain ⟨q, hq⟩ := h.exists_normal
  obtain ⟨hopens, hkept⟩ := normal_keptLeaf hq
  have htest : ∀ s : Scalar, ∃ b, l.Consists s.test q b ∧ (b = true ↔ ∀ r, l.KeptLeaf p r → s.test r.type = true) := by
    intro s
    obtain ⟨b, hb⟩ := (h.of_opens hopens).exists_consists s.test
    obtain ⟨n, hn⟩ := hb
    have hiff := consistsOf?_keptLeaf (h.of_opens hopens) (h.aliasTarget?_normal hq) hn
    simp only [hkept] at hiff
    exact ⟨b, ⟨n, hn⟩, hiff⟩
  have htrue : ∀ s : Scalar, l.Consists s.test q true ↔ ∀ r, l.KeptLeaf p r → s.test r.type = true := by
    intro s
    obtain ⟨b, hb, hiff⟩ := htest s
    rw [← hiff]
    refine ⟨fun htrue => hb.unique htrue, ?_⟩
    rintro rfl
    exact hb
  refine ⟨q, hq, fun s => ?_, ?_⟩
  · obtain ⟨b, hb, hiff⟩ := htest s
    exact ⟨b, hb, hiff, hasOnly_iff_of_kept hiff⟩
  · simp only [htrue]
    constructor
    · intro hone
      by_contra hnone
      cases hone .boolean .string (fun r hr => absurd ⟨r, hr⟩ hnone) fun r hr => absurd ⟨r, hr⟩ hnone
    · rintro ⟨r, hr⟩ s s' hs hs'
      exact Scalar.eq_of_test (hs r hr) (hs' r hr)

theorem nothingOrString_is_number_iff : ∃ q, nothingLibrary.Normal nothingOrString q ∧ ∃ b,
    nothingLibrary.Consists (Scalar.test .number) q b ∧ (b = true ↔ nothingLibrary.HasOnly .number nothingOrString) := by
  obtain ⟨q, hq, htest, -⟩ := scalar_iff_keptLeaves nothingOrString_straight
  obtain ⟨b, hb, -, hiff⟩ := htest .number
  refine ⟨q, hq, b, hb, hiff.mpr ⟨⟨_, nothingOrString_keptLeaf.mpr (.inl rfl)⟩, fun hasOnly => ?_⟩⟩
  cases (hasOnly_iff.mp hasOnly).2 _ (nothingOrString_keptLeaf.mpr (.inr rfl)) rfl

/-- `null | undefined`. -/
def nullOrUndefined : Place := ⟨0, .union [.keyword .null, .keyword .undefined]⟩

theorem nullOrUndefined_straight : nothingLibrary.Straight nullOrUndefined := by
  refine straight_union rfl fun part hpart => ?_
  obtain rfl | rfl : part = .keyword .null ∨ part = .keyword .undefined := by simpa using hpart
  · exact (keyword_isLeaf 0 .null).straight
  · exact (keyword_isLeaf 0 .undefined).straight

theorem nullOrUndefined_keptLeaf {r : Place} : ¬ nothingLibrary.KeptLeaf nullOrUndefined r := by
  have hparts : properParts [.keyword .null, .keyword .undefined] = [] := rfl
  simp [keptLeaf_union (p := nullOrUndefined) rfl, hparts]

/-- Every test holds of `null | undefined`, and none of `Nothing | string`, which is a string or nothing. -/
theorem nullish_leaves_are_misread :
    (nothingLibrary.Straight nullOrUndefined ∧ nothingLibrary.Normal nullOrUndefined nullOrUndefined ∧
      ∀ s : Scalar, nothingLibrary.Consists s.test nullOrUndefined true ∧ ¬ nothingLibrary.HasOnly s nullOrUndefined) ∧
    (nothingLibrary.Straight nothingOrString ∧ nothingLibrary.Normal nothingOrString nothingOrString ∧
      nothingLibrary.Consists (Scalar.test .string) nothingOrString false ∧ nothingLibrary.HasOnly .string nothingOrString) := by
  refine ⟨⟨nullOrUndefined_straight, ⟨1, by rfl⟩, fun s => ⟨⟨1, by rfl⟩, fun hasOnly => ?_⟩⟩,
    nothingOrString_straight, ⟨1, by rfl⟩, ⟨2, by rfl⟩, hasOnly_iff.mpr ⟨⟨_, nothingOrString_keptLeaf.mpr (.inr rfl), rfl⟩, ?_⟩⟩
  · obtain ⟨⟨r, hr, -⟩, -⟩ := hasOnly_iff.mp hasOnly
    exact nullOrUndefined_keptLeaf hr
  · intro r hr hproper
    rcases nothingOrString_keptLeaf.mp hr with rfl | rfl
    · cases hproper
    · rfl

end Library

end PatternCatalog
