/-
  PatternCatalog.Proofs.Property.Classification — when the classification of a property ends.

  A classification asks queries of types: what a type normalizes to, and whether it consists of
  types that satisfy a test. A query awaits the answers of others (`Library.Awaits`). Aliases are
  followed no further than `typeDepth`, but nothing bounds the way from there into the parts of
  a union, so an alias that leads back to itself through a union may make a query await itself.
  The classification of a member ends exactly when none of its queries comes to do that
  (`PropertyKind.classification_ends_iff`), and then the bound of `PropertyKind.ofMember?` is
  enough. A type that is itself or a string is never classified
  (`PropertyKind.a_union_with_itself_has_no_kind`).
-/

import Mathlib.Data.List.Forall2
import PatternCatalog.Proofs.Component
import PatternCatalog.Property.Classification

namespace PatternCatalog

/-! ## Checks one after another -/

section Checks

variable {α β : Type} {f : α → Option β} {R : α → β → Prop} {check check' : β → Option Bool}

theorem mapM_eq_some_iff {as : List α} {bs : List β} : as.mapM f = some bs ↔ List.Forall₂ (fun a b => f a = some b) as bs := by
  induction as generalizing bs with
  | nil =>
    rw [List.mapM_nil, List.forall₂_nil_left_iff]
    exact ⟨fun h => (Option.some.inj h).symm, fun h => congrArg some h.symm⟩
  | cons a as ih =>
    simp only [List.mapM_cons, Option.bind_eq_bind, Option.bind_eq_some_iff, ih, List.forall₂_cons_left_iff, Option.pure_def,
      Option.some.injEq]
    constructor
    · rintro ⟨b, hb, rest, hrest, rfl⟩
      exact ⟨b, rest, hb, hrest, rfl⟩
    · rintro ⟨b, rest, hb, hrest, rfl⟩
      exact ⟨b, hb, rest, hrest, rfl⟩

theorem exists_of_mem_mapM {as : List α} {bs : List β} (h : as.mapM f = some bs) {a : α} (ha : a ∈ as) : ∃ b, f a = some b := by
  induction mapM_eq_some_iff.mp h with
  | nil => cases ha
  | cons hb hrest ih =>
    rcases List.mem_cons.mp ha with rfl | ha
    · exact ⟨_, hb⟩
    · exact ih (mapM_eq_some_iff.mpr hrest) ha

/-- Checks that are made until one fails agree when those do that come after checks that hold. -/
theorem allM_of_checks {as : List α} {bs : List β} (hbs : List.Forall₂ R as bs)
    (hcheck : ∀ before a after, as = before ++ a :: after → (∀ x ∈ before, ∃ y, R x y ∧ check y = some true) →
      ∀ b, R a b → ∀ c, check b = some c → check' b = some c)
    {c : Bool} (h : bs.allM check = some c) : bs.allM check' = some c := by
  induction hbs with
  | nil => exact h
  | @cons a b as bs hab hrest ih =>
    rw [List.allM] at h ⊢
    obtain ⟨d, hd, h⟩ := Option.bind_eq_some_iff.mp h
    rw [hcheck [] a as rfl (fun _ hx => nomatch hx) b hab d hd]
    cases d with
    | false => exact h
    | true =>
      refine ih (fun before x after has hbefore => ?_) h
      exact hcheck (a :: before) x after (congrArg (a :: ·) has) (List.forall_mem_cons.mpr ⟨⟨b, hab, hd⟩, hbefore⟩)

/-- A check is made when those before it hold. -/
theorem check_of_allM {before after : List α} {a : α} {bs : List β} (hbs : List.Forall₂ R (before ++ a :: after) bs)
    (hbefore : ∀ x ∈ before, ∀ y, R x y → ∀ c, check y = some c → c = true) {c : Bool} (h : bs.allM check = some c) :
    ∃ b, R a b ∧ ∃ d, check b = some d := by
  induction before generalizing bs with
  | nil =>
    obtain ⟨b, rest, hab, -, rfl⟩ := List.forall₂_cons_left_iff.mp hbs
    obtain ⟨d, hd, -⟩ := Option.bind_eq_some_iff.mp h
    exact ⟨b, hab, d, hd⟩
  | cons x before ih =>
    obtain ⟨y, rest, hxy, hrest, rfl⟩ := List.forall₂_cons_left_iff.mp hbs
    obtain ⟨d, hd, h⟩ := Option.bind_eq_some_iff.mp h
    obtain rfl := hbefore x List.mem_cons_self y hxy d hd
    exact ih hrest (fun z hz => hbefore z (List.mem_cons_of_mem _ hz)) h

end Checks

namespace Library

/-! ## Queries -/

/-- What a classification asks of a type. -/
inductive Query where
  | normalize (p : Place)
  | consists (test : TypeExpr → Bool) (p : Place)

inductive Answer where
  | place (p : Place)
  | truth (b : Bool)

/-- The answer to a query; none when the way to it is longer than the given depth. -/
def answer? (l : Library) (depth : Nat) : Query → Option Answer
  | .normalize p => (l.normalize? depth p).map .place
  | .consists test p => (l.consistsOf? test depth p).map .truth

/-- A type normalizes to another. -/
def Normal (l : Library) (p q : Place) : Prop := ∃ depth, l.normalize? depth p = some q

/-- It turns out whether a normalized type satisfies a test or is a union of such types. -/
def Consists (l : Library) (test : TypeExpr → Bool) (p : Place) (b : Bool) : Prop :=
  ∃ depth, l.consistsOf? test depth p = some b

/-- A query cannot be answered before another is. -/
inductive Awaits (l : Library) : Query → Query → Prop
  | only {p parts only} (hunion : (l.resolveAlias p).type = .union parts) (honly : properParts parts = [only]) :
      Awaits l (.normalize p) (.normalize ⟨(l.resolveAlias p).file, only⟩)
  | part {test p parts part} (hunion : p.type = .union parts) (hpart : part ∈ properParts parts) :
      Awaits l (.consists test p) (.normalize ⟨p.file, part⟩)
  /-- The parts are tested in order, until one fails. -/
  | next {test p parts before part after q} (hunion : p.type = .union parts)
      (hparts : properParts parts = before ++ part :: after)
      (hbefore : ∀ t ∈ before, ∃ r, l.Normal ⟨p.file, t⟩ r ∧ l.Consists test r true)
      (hnormal : l.Normal ⟨p.file, part⟩ q) : Awaits l (.consists test p) (.consists test q)

/-- No query that a query comes to await comes to await itself. -/
def Query.Grounded (l : Library) (q : Query) : Prop :=
  ∀ t, Relation.ReflTransGen l.Awaits q t → ¬ Relation.TransGen l.Awaits t t

variable {l : Library} {test : TypeExpr → Bool} {p q : Place}

theorem answer?_normalize {n : Nat} : l.answer? n (.normalize p) = some (.place q) ↔ l.normalize? n p = some q := by
  simp [answer?]

theorem answer?_consists {n : Nat} {b : Bool} :
    l.answer? n (.consists test p) = some (.truth b) ↔ l.consistsOf? test n p = some b := by
  simp [answer?]

theorem exists_answer_normalize {n : Nat} :
    (∃ a, l.answer? n (.normalize p) = some a) ↔ ∃ q, l.normalize? n p = some q := by
  simp only [← Option.isSome_iff_exists, answer?, Option.isSome_map]

theorem exists_answer_consists {n : Nat} :
    (∃ a, l.answer? n (.consists test p) = some a) ↔ ∃ b, l.consistsOf? test n p = some b := by
  simp only [← Option.isSome_iff_exists, answer?, Option.isSome_map]

theorem aliasTarget?_union {parts : List TypeExpr} (hunion : p.type = .union parts) : l.aliasTarget? p = none := by
  simp [aliasTarget?, aliasKey?, reference?, hunion]

theorem resolveAlias_of_no_target (h : l.aliasTarget? p = none) : l.resolveAlias p = p := by
  simp [resolveAlias, typeDepth, followAliases, h]

/-- Normalizing goes on with the only part of a union that is not nullish, or else ends. -/
theorem normalize?_cases (l : Library) (p : Place) :
    (∃ parts only, (l.resolveAlias p).type = .union parts ∧ properParts parts = [only] ∧
      ∀ n, l.normalize? (n + 1) p = l.normalize? n ⟨(l.resolveAlias p).file, only⟩) ∨
    (∀ n, l.normalize? (n + 1) p = some (l.resolveAlias p)) ∧ ∀ q, ¬ l.Awaits (.normalize p) q := by
  by_cases h : ∃ parts only, (l.resolveAlias p).type = .union parts ∧ properParts parts = [only]
  · obtain ⟨parts, only, hunion, honly⟩ := h
    exact .inl ⟨parts, only, hunion, honly, fun n => by simp only [normalize?, hunion, honly]⟩
  · refine .inr ⟨fun n => ?_, fun q hq => ?_⟩
    · rw [normalize?]
      split
      · next parts hunion =>
        split
        · next only honly => exact absurd ⟨parts, only, hunion, honly⟩ h
        · rfl
      · rfl
    · cases hq with
      | only hunion honly => exact h ⟨_, _, hunion, honly⟩

/-- A test goes on with the normalized parts of a union, or else ends. -/
theorem consistsOf?_cases (l : Library) (test : TypeExpr → Bool) (p : Place) :
    (∃ parts, p.type = .union parts ∧ ∀ n, l.consistsOf? test (n + 1) p =
      ((properParts parts).mapM fun part => l.normalize? n ⟨p.file, part⟩).bind fun places =>
        places.allM (l.consistsOf? test n)) ∨
    (∀ n, l.consistsOf? test (n + 1) p = some (test p.type)) ∧ ∀ parts, p.type ≠ .union parts := by
  by_cases h : ∃ parts, p.type = .union parts
  · obtain ⟨parts, hunion⟩ := h
    exact .inl ⟨parts, hunion, fun n => by simp only [consistsOf?, hunion]; rfl⟩
  · refine .inr ⟨fun n => ?_, not_exists.mp h⟩
    rw [consistsOf?]
    split
    · next parts hunion => exact absurd ⟨parts, hunion⟩ h
    · rfl

theorem answer?_fueled (l : Library) : Fueled l.answer? l.Awaits where
  zero := by rintro (p | ⟨test, p⟩) <;> rfl
  step := by
    rintro n m (p | ⟨test, p⟩) (q | b) ha hnext
    · rw [answer?_normalize] at ha ⊢
      rcases l.normalize?_cases p with ⟨parts, only, hunion, honly, hstep⟩ | ⟨hend, -⟩
      · rw [hstep] at ha ⊢
        exact answer?_normalize.mp (hnext _ (.only hunion honly) _ (answer?_normalize.mpr ha))
      · rw [hend] at ha ⊢
        exact ha
    · simp [answer?] at ha
    · simp [answer?] at ha
    · rw [answer?_consists] at ha ⊢
      rcases l.consistsOf?_cases test p with ⟨parts, hunion, hstep⟩ | ⟨hend, -⟩
      · rw [hstep] at ha ⊢
        obtain ⟨places, hplaces, hall⟩ := Option.bind_eq_some_iff.mp ha
        rw [mapM_eq_some_iff] at hplaces
        refine Option.bind_eq_some_iff.mpr ⟨places, mapM_eq_some_iff.mpr ?_, ?_⟩
        · refine ((List.forall₂_and_left (p := (· ∈ properParts parts)) _ _).mpr ⟨fun _ h => h, hplaces⟩).imp ?_
          rintro part q ⟨hpart, hq⟩
          exact answer?_normalize.mp (hnext _ (.part hunion hpart) _ (answer?_normalize.mpr hq))
        · refine allM_of_checks hplaces (fun before part after hparts hbefore q hq c hc => ?_) hall
          have hbefore' : ∀ t ∈ before, ∃ r, l.Normal ⟨p.file, t⟩ r ∧ l.Consists test r true := fun t ht =>
            let ⟨r, hr, htrue⟩ := hbefore t ht
            ⟨r, ⟨n, hr⟩, ⟨n, htrue⟩⟩
          exact answer?_consists.mp (hnext _ (.next hunion hparts hbefore' ⟨n, hq⟩) _ (answer?_consists.mpr hc))
      · rw [hend] at ha ⊢
        exact ha

theorem normalize?_mono {n m : Nat} (hle : n ≤ m) (h : l.normalize? n p = some q) : l.normalize? m p = some q :=
  answer?_normalize.mp (l.answer?_fueled.mono hle (answer?_normalize.mpr h))

theorem consistsOf?_mono {n m : Nat} (hle : n ≤ m) {b : Bool} (h : l.consistsOf? test n p = some b) :
    l.consistsOf? test m p = some b :=
  answer?_consists.mp (l.answer?_fueled.mono hle (answer?_consists.mpr h))

theorem Normal.unique {r : Place} (hq : l.Normal p q) (hr : l.Normal p r) : q = r := by
  obtain ⟨n, hn⟩ := hq
  obtain ⟨m, hm⟩ := hr
  exact Answer.place.inj (l.answer?_fueled.unique (answer?_normalize.mpr hn) (answer?_normalize.mpr hm))

theorem Consists.unique {b c : Bool} (hb : l.Consists test p b) (hc : l.Consists test p c) : b = c := by
  obtain ⟨n, hn⟩ := hb
  obtain ⟨m, hm⟩ := hc
  exact Answer.truth.inj (l.answer?_fueled.unique (answer?_consists.mpr hn) (answer?_consists.mpr hm))

theorem mapM_normalize?_mono {n m : Nat} (hle : n ≤ m) {file : Nat} {ts : List TypeExpr} {qs : List Place}
    (h : (ts.mapM fun t => l.normalize? n ⟨file, t⟩) = some qs) : (ts.mapM fun t => l.normalize? m ⟨file, t⟩) = some qs :=
  mapM_eq_some_iff.mpr ((mapM_eq_some_iff.mp h).imp fun _ _ hq => normalize?_mono hle hq)

/-- Types that are each normalized at some depth are all normalized at one. -/
theorem exists_mapM_normalize? {file : Nat} {ts : List TypeExpr} (h : ∀ t ∈ ts, ∃ q, l.Normal ⟨file, t⟩ q) :
    ∃ n qs, (ts.mapM fun t => l.normalize? n ⟨file, t⟩) = some qs := by
  induction ts with
  | nil => exact ⟨0, [], rfl⟩
  | cons t ts ih =>
    obtain ⟨q, n, hq⟩ := h t List.mem_cons_self
    obtain ⟨m, qs, hqs⟩ := ih fun u hu => h u (List.mem_cons_of_mem _ hu)
    refine ⟨max n m, q :: qs, mapM_eq_some_iff.mpr (.cons (normalize?_mono (Nat.le_max_left n m) hq) ?_)⟩
    exact mapM_eq_some_iff.mp (mapM_normalize?_mono (Nat.le_max_right n m) hqs)

theorem allM_consistsOf?_mono {n m : Nat} (hle : n ≤ m) {qs : List Place} {b : Bool}
    (h : qs.allM (l.consistsOf? test n) = some b) : qs.allM (l.consistsOf? test m) = some b :=
  allM_of_checks (List.forall₂_eq_eq_eq ▸ (rfl : qs = qs)) (fun _ _ _ _ _ _ _ _ hc => consistsOf?_mono hle hc) h

/-- Tests of places that each end when they are made end together. -/
theorem exists_allM_consistsOf? {file : Nat} {ts : List TypeExpr} {qs : List Place}
    (hqs : List.Forall₂ (fun t q => l.Normal ⟨file, t⟩ q) ts qs)
    (htest : ∀ before t after, ts = before ++ t :: after →
      (∀ u ∈ before, ∃ r, l.Normal ⟨file, u⟩ r ∧ l.Consists test r true) →
      ∀ q, l.Normal ⟨file, t⟩ q → ∃ b, l.Consists test q b) :
    ∃ n b, qs.allM (l.consistsOf? test n) = some b := by
  induction hqs with
  | nil => exact ⟨0, true, rfl⟩
  | @cons t q ts qs hq hrest ih =>
    obtain ⟨b, n, hb⟩ := htest [] t ts rfl (fun _ hu => nomatch hu) q hq
    cases b with
    | false =>
      refine ⟨n, false, ?_⟩
      rw [List.allM, hb]
      rfl
    | true =>
      obtain ⟨m, b, hall⟩ := ih fun before u after hts hbefore =>
        htest (t :: before) u after (congrArg (t :: ·) hts) (List.forall_mem_cons.mpr ⟨⟨q, hq, n, hb⟩, hbefore⟩)
      refine ⟨max n m, b, ?_⟩
      rw [List.allM, consistsOf?_mono (Nat.le_max_left n m) hb]
      exact allM_consistsOf?_mono (Nat.le_max_right n m) hall

theorem answer?_awaiting (l : Library) : Awaiting l.answer? l.Awaits where
  toFueled := l.answer?_fueled
  awaits := by
    rintro n s a ha t hawaits
    cases hawaits with
    | @only p parts only hunion honly =>
      obtain ⟨q, hq⟩ := exists_answer_normalize.mp ⟨a, ha⟩
      simp only [normalize?, hunion, honly] at hq
      exact exists_answer_normalize.mpr ⟨q, hq⟩
    | @part test p parts part hunion hpart =>
      obtain ⟨b, hb⟩ := exists_answer_consists.mp ⟨a, ha⟩
      simp only [consistsOf?, hunion] at hb
      obtain ⟨places, hplaces, -⟩ := Option.bind_eq_some_iff.mp hb
      exact exists_answer_normalize.mpr (exists_of_mem_mapM hplaces hpart)
    | @next test p parts before part after q hunion hparts hbefore hnormal =>
      obtain ⟨b, hb⟩ := exists_answer_consists.mp ⟨a, ha⟩
      simp only [consistsOf?, hunion] at hb
      obtain ⟨places, hplaces, hall⟩ := Option.bind_eq_some_iff.mp hb
      rw [mapM_eq_some_iff, hparts] at hplaces
      have htrue : ∀ t ∈ before, ∀ u, l.normalize? n ⟨p.file, t⟩ = some u →
          ∀ c, l.consistsOf? test n u = some c → c = true := by
        intro t ht u hu c hc
        obtain ⟨r, hr, htrue⟩ := hbefore t ht
        obtain rfl := hr.unique ⟨n, hu⟩
        exact Consists.unique ⟨n, hc⟩ htrue
      obtain ⟨r, hr, c, hc⟩ := check_of_allM hplaces htrue hall
      obtain rfl := hnormal.unique ⟨n, hr⟩
      exact exists_answer_consists.mpr ⟨c, hc⟩
  answers := by
    rintro (p | ⟨test, p⟩) hanswered
    · rcases l.normalize?_cases p with ⟨parts, only, hunion, honly, hstep⟩ | ⟨hend, -⟩
      · obtain ⟨n, hn⟩ := hanswered _ (.only hunion honly)
        rw [exists_answer_normalize] at hn
        exact ⟨n + 1, exists_answer_normalize.mpr (hstep n ▸ hn)⟩
      · exact ⟨1, exists_answer_normalize.mpr ⟨_, hend 0⟩⟩
    · rcases l.consistsOf?_cases test p with ⟨parts, hunion, hstep⟩ | ⟨hend, -⟩
      · have hparts : ∀ part ∈ properParts parts, ∃ q, l.Normal ⟨p.file, part⟩ q := by
          intro part hpart
          obtain ⟨n, hn⟩ := hanswered _ (.part hunion hpart)
          obtain ⟨q, hq⟩ := exists_answer_normalize.mp hn
          exact ⟨q, n, hq⟩
        obtain ⟨n, places, hplaces⟩ := exists_mapM_normalize? hparts
        have hnormal : List.Forall₂ (fun t q => l.Normal ⟨p.file, t⟩ q) (properParts parts) places :=
          (mapM_eq_some_iff.mp hplaces).imp fun _ _ hq => ⟨n, hq⟩
        obtain ⟨m, b, hall⟩ := exists_allM_consistsOf? hnormal fun before part after hsplit hbefore q hq => by
          obtain ⟨m, hm⟩ := hanswered _ (.next hunion hsplit hbefore hq)
          obtain ⟨b, hb⟩ := exists_answer_consists.mp hm
          exact ⟨b, m, hb⟩
        refine ⟨max n m + 1, exists_answer_consists.mpr ⟨b, ?_⟩⟩
        rw [hstep, mapM_normalize?_mono (Nat.le_max_left n m) hplaces]
        exact allM_consistsOf?_mono (Nat.le_max_right n m) hall
      · exact ⟨1, exists_answer_consists.mpr ⟨_, hend 0⟩⟩

/-! ## The places of a walk -/

/-- The places that a walk from a type comes to. -/
def walkPlaces (l : Library) (p : Place) : List Place := (Component.walkStates l p).map (·.2)

theorem self_mem_walkPlaces : p ∈ l.walkPlaces p :=
  List.mem_map.mpr ⟨(none, p), List.mem_append_left _ List.mem_cons_self, rfl⟩

theorem resolveAlias_mem_walkPlaces {r : Place} (hr : r ∈ l.walkPlaces p) : l.resolveAlias r ∈ l.walkPlaces p := by
  cases hlast : l.lastAlias? r with
  | none => rwa [resolveAlias, Component.followAliases_of_no_alias hlast]
  | some key =>
    obtain ⟨type, hk, hfollow⟩ := Component.followAliases_of_lastAlias hlast
    rw [resolveAlias, hfollow]
    refine List.mem_map.mpr ⟨(some key, ⟨key.file, type⟩), List.mem_append_right _ ?_, rfl⟩
    exact Component.typeStates_subset hk List.mem_cons_self

theorem part_mem_walkPlaces {r : Place} (hr : r ∈ l.walkPlaces p) {parts : List TypeExpr} (hunion : r.type = .union parts)
    {part : TypeExpr} (hpart : part ∈ properParts parts) : ⟨r.file, part⟩ ∈ l.walkPlaces p := by
  obtain ⟨s, hs, rfl⟩ := List.mem_map.mp hr
  refine List.mem_map.mpr ⟨(none, ⟨s.2.file, part⟩), Component.walkStates_closed p s hs _ ?_, rfl⟩
  rw [Component.nextStates, hunion]
  exact List.mem_map_of_mem (List.mem_filter.mp hpart).1

theorem normal_mem_walkPlaces {r : Place} (hr : r ∈ l.walkPlaces p) (hq : l.Normal r q) : q ∈ l.walkPlaces p := by
  obtain ⟨n, hn⟩ := hq
  have hresolved := resolveAlias_mem_walkPlaces hr
  induction n generalizing r with
  | zero => cases hn
  | succ n ih =>
    rcases l.normalize?_cases r with ⟨parts, only, hunion, honly, hstep⟩ | ⟨hend, -⟩
    · have hpart := part_mem_walkPlaces hresolved hunion (honly ▸ List.mem_singleton_self only)
      exact ih hpart (hstep n ▸ hn) (resolveAlias_mem_walkPlaces hpart)
    · rw [hend] at hn
      exact Option.some.inj hn ▸ hresolved

/-- The queries of the walk from a type, with one test. -/
def walkQueries (l : Library) (test : TypeExpr → Bool) (p : Place) : List Query :=
  (l.walkPlaces p).map .normalize ++ (l.walkPlaces p).map (.consists test)

theorem normalize_mem_walkQueries {r : Place} : .normalize r ∈ l.walkQueries test p ↔ r ∈ l.walkPlaces p := by
  simp [walkQueries]

theorem consists_mem_walkQueries {r : Place} : .consists test r ∈ l.walkQueries test p ↔ r ∈ l.walkPlaces p := by
  simp [walkQueries]

theorem length_walkQueries (l : Library) (test : TypeExpr → Bool) (p : Place) :
    (l.walkQueries test p).length ≤ PropertyKind.walkDepth l p.type := by
  have hlength := Component.length_walkStates l p
  rw [walkQueries, List.length_append, List.length_map, List.length_map, walkPlaces, List.length_map, PropertyKind.walkDepth]
  omega

theorem walkQueries_closed (l : Library) (test : TypeExpr → Bool) (p : Place) :
    ∀ q ∈ l.walkQueries test p, ∀ t, l.Awaits q t → t ∈ l.walkQueries test p := by
  intro q hq t hawaits
  cases hawaits with
  | only hunion honly =>
    rw [normalize_mem_walkQueries] at hq ⊢
    exact part_mem_walkPlaces (resolveAlias_mem_walkPlaces hq) hunion (honly ▸ List.mem_singleton_self _)
  | @part test' r parts part hunion hpart =>
    obtain ⟨r', hr', hsame⟩ | ⟨r', hr', hsame⟩ := (List.mem_append.mp hq).imp List.mem_map.mp List.mem_map.mp
    · cases hsame
    · cases hsame
      exact normalize_mem_walkQueries.mpr (part_mem_walkPlaces hr' hunion hpart)
  | @next test' r parts before part after q hunion hparts hbefore hnormal =>
    obtain ⟨r', hr', hsame⟩ | ⟨r', hr', hsame⟩ := (List.mem_append.mp hq).imp List.mem_map.mp List.mem_map.mp
    · cases hsame
    · cases hsame
      have hpart : part ∈ properParts parts := hparts ▸ List.mem_append_right _ List.mem_cons_self
      exact consists_mem_walkQueries.mpr (normal_mem_walkPlaces (part_mem_walkPlaces hr' hunion hpart) hnormal)

/-- A query of the walk from a type that has an answer has it within the bound. -/
theorem answer?_walkDepth {q : Query} (hq : q ∈ l.walkQueries test p) {n : Nat} {a : Answer} (ha : l.answer? n q = some a) :
    l.answer? (PropertyKind.walkDepth l p.type) q = some a :=
  l.answer?_fueled.mono (l.length_walkQueries test p) (l.answer?_fueled.enough_fuel (l.walkQueries_closed test p) hq ha)

end Library

namespace PropertyKind

open Library (MemberRef Place Query)

variable {l : Library} {ids : Identity.Strategy} {propertyId : String} {control : Option PropertyKind}
  {typeText : String} {raw : Place}

/-! ## The queries of a classification -/

/-- What the classification of a type asks, by the answers so far. -/
inductive Asks (l : Library) (control : Option PropertyKind) (raw : Place) : Query → Prop
  | type : Asks l control raw (.normalize raw)
  | boolean {p} (hnormal : l.Normal raw p) : Asks l control raw (.consists TypeExpr.isBoolean p)
  | string {p} (hnormal : l.Normal raw p) (hboolean : l.Consists TypeExpr.isBoolean p false)
      (hmembers : EnumOption.members? l p = none) (hevent : (EventKind.ofType? l raw <|> EventKind.ofType? l p) = none) :
      Asks l control raw (.consists TypeExpr.isString p)
  | number {p isString} (hnormal : l.Normal raw p) (hboolean : l.Consists TypeExpr.isBoolean p false)
      (hmembers : EnumOption.members? l p = none) (hevent : (EventKind.ofType? l raw <|> EventKind.ofType? l p) = none)
      (hstring : l.Consists TypeExpr.isString p isString) (hcontrol : (isString && control.isNone) = false) :
      Asks l control raw (.consists TypeExpr.isNumber p)

theorem Asks.mem_walkQueries {q : Query} (h : Asks l control raw q) : ∃ test, q ∈ l.walkQueries test raw := by
  cases h with
  | type => exact ⟨TypeExpr.isBoolean, Library.normalize_mem_walkQueries.mpr Library.self_mem_walkPlaces⟩
  | boolean hnormal | string hnormal | number hnormal =>
    exact ⟨_, Library.consists_mem_walkQueries.mpr (Library.normal_mem_walkPlaces Library.self_mem_walkPlaces hnormal)⟩

/-- A classification has an answer when it has one to each query that it makes on the way. -/
theorem exists_ofType? (l : Library) (n : Nat) : (∃ kind, ofType? l ids propertyId control typeText n raw = some kind) ↔
    ∃ p b, l.normalize? n raw = some p ∧ l.consistsOf? TypeExpr.isBoolean n p = some b ∧
      (b = false → EnumOption.members? l p = none → (EventKind.ofType? l raw <|> EventKind.ofType? l p) = none →
        ∃ s, l.consistsOf? TypeExpr.isString n p = some s ∧
          ((s && control.isNone) = false → ∃ k, l.consistsOf? TypeExpr.isNumber n p = some k)) := by
  unfold ofType?
  simp only [Option.bind_eq_bind, Option.bind_eq_some_iff]
  constructor
  · rintro ⟨kind, p, hnormal, b, hboolean, h⟩
    refine ⟨p, b, hnormal, hboolean, ?_⟩
    rintro rfl hmembers hevent
    simp only [Bool.false_eq_true, if_false, hmembers, hevent, Option.bind_eq_some_iff] at h
    obtain ⟨s, hstring, h⟩ := h
    refine ⟨s, hstring, fun hcontrol => ?_⟩
    simp only [hcontrol, Bool.false_eq_true, if_false, Option.bind_eq_some_iff] at h
    obtain ⟨k, hnumber, -⟩ := h
    exact ⟨k, hnumber⟩
  · rintro ⟨p, b, hnormal, hboolean, hrest⟩
    rw [exists_comm]
    refine ⟨p, exists_and_left.mpr ⟨hnormal, ?_⟩⟩
    rw [exists_comm]
    refine ⟨b, exists_and_left.mpr ⟨hboolean, ?_⟩⟩
    cases b with
    | true => exact ⟨_, rfl⟩
    | false =>
      cases hmembers : EnumOption.members? l p with
      | some members => exact ⟨_, rfl⟩
      | none =>
        cases hevent : (EventKind.ofType? l raw <|> EventKind.ofType? l p) with
        | some event => exact ⟨_, rfl⟩
        | none =>
          obtain ⟨s, hstring, hnumber⟩ := hrest rfl hmembers hevent
          simp only [Bool.false_eq_true, if_false, hstring, Option.bind_some]
          cases hcontrol : (s && control.isNone) with
          | true => exact ⟨_, rfl⟩
          | false =>
            obtain ⟨k, hk⟩ := hnumber hcontrol
            simp only [Bool.false_eq_true, if_false, hk, Option.bind_some]
            cases k with
            | true => exact ⟨_, rfl⟩
            | false =>
              cases s with
              | true => exact ⟨_, rfl⟩
              | false => exact ⟨_, rfl⟩

/-- A classification ends within a depth exactly when all that it asks is answered within that. -/
theorem exists_ofType?_iff (l : Library) (ids : Identity.Strategy) (propertyId typeText : String) (n : Nat) :
    (∃ kind, ofType? l ids propertyId control typeText n raw = some kind) ↔
      ∀ q, Asks l control raw q → ∃ a, l.answer? n q = some a := by
  rw [exists_ofType?]
  constructor
  · rintro ⟨p, b, hnormal, hboolean, hrest⟩ q hq
    have hunique : ∀ {r}, l.Normal raw r → r = p := fun hr => hr.unique ⟨n, hnormal⟩
    have hfalse : l.Consists TypeExpr.isBoolean p false → b = false := fun hb => Library.Consists.unique ⟨n, hboolean⟩ hb
    cases hq with
    | type => exact Library.exists_answer_normalize.mpr ⟨p, hnormal⟩
    | boolean hr =>
      obtain rfl := hunique hr
      exact Library.exists_answer_consists.mpr ⟨b, hboolean⟩
    | string hr hb hmembers hevent =>
      obtain rfl := hunique hr
      obtain ⟨s, hs, -⟩ := hrest (hfalse hb) hmembers hevent
      exact Library.exists_answer_consists.mpr ⟨s, hs⟩
    | number hr hb hmembers hevent hstring hcontrol =>
      obtain rfl := hunique hr
      obtain ⟨s, hs, hnumber⟩ := hrest (hfalse hb) hmembers hevent
      obtain rfl := hstring.unique ⟨n, hs⟩
      exact Library.exists_answer_consists.mpr (hnumber hcontrol)
  · intro hasks
    obtain ⟨p, hnormal⟩ := Library.exists_answer_normalize.mp (hasks _ .type)
    obtain ⟨b, hboolean⟩ := Library.exists_answer_consists.mp (hasks _ (.boolean ⟨n, hnormal⟩))
    refine ⟨p, b, hnormal, hboolean, ?_⟩
    rintro rfl hmembers hevent
    obtain ⟨s, hstring⟩ := Library.exists_answer_consists.mp
      (hasks _ (.string ⟨n, hnormal⟩ ⟨n, hboolean⟩ hmembers hevent))
    refine ⟨s, hstring, fun hcontrol => Library.exists_answer_consists.mp ?_⟩
    exact hasks _ (.number ⟨n, hnormal⟩ ⟨n, hboolean⟩ hmembers hevent ⟨n, hstring⟩ hcontrol)

theorem ofType?_mono {n m : Nat} (hle : n ≤ m) {kind : PropertyKind}
    (h : ofType? l ids propertyId control typeText n raw = some kind) :
    ofType? l ids propertyId control typeText m raw = some kind := by
  unfold ofType? at h ⊢
  simp only [Option.bind_eq_bind, Option.bind_eq_some_iff] at h ⊢
  obtain ⟨p, hnormal, b, hboolean, h⟩ := h
  refine ⟨p, Library.normalize?_mono hle hnormal, b, Library.consistsOf?_mono hle hboolean, ?_⟩
  cases b with
  | true => exact h
  | false =>
    simp only [Bool.false_eq_true, if_false] at h ⊢
    cases hmembers : EnumOption.members? l p with
    | some members => rwa [hmembers] at h
    | none =>
      cases hevent : (EventKind.ofType? l raw <|> EventKind.ofType? l p) with
      | some event => rwa [hmembers, hevent] at h
      | none =>
        simp only [hmembers, hevent, Option.bind_eq_some_iff] at h ⊢
        obtain ⟨s, hstring, h⟩ := h
        refine ⟨s, Library.consistsOf?_mono hle hstring, ?_⟩
        split at h
        · exact (if_pos ‹_›).trans h
        · obtain ⟨k, hnumber, h⟩ := Option.bind_eq_some_iff.mp h
          refine (if_neg ‹_›).trans (Option.bind_eq_some_iff.mpr ⟨k, ?_, h⟩)
          exact Library.consistsOf?_mono hle hnumber

/-! ## Classifications that end -/

variable {m : MemberRef} {doc : Doc.Comment}

/-- A classification that ends at all ends within the bound. -/
theorem exists_ofType?_walkDepth {n : Nat} {kind : PropertyKind}
    (h : ofType? l ids propertyId control typeText n raw = some kind) :
    ofType? l ids propertyId control typeText (walkDepth l raw.type) raw = some kind := by
  have hasks := (exists_ofType?_iff l ids propertyId typeText n).mp ⟨kind, h⟩
  have hbound : ∀ q, Asks l control raw q → ∃ a, l.answer? (walkDepth l raw.type) q = some a := by
    intro q hq
    obtain ⟨test, hmem⟩ := hq.mem_walkQueries
    obtain ⟨a, ha⟩ := hasks q hq
    exact ⟨a, Library.answer?_walkDepth hmem ha⟩
  obtain ⟨kind', h'⟩ := (exists_ofType?_iff l ids propertyId typeText _).mpr hbound
  have hle := Nat.le_max_left n (walkDepth l raw.type)
  have hle' := Nat.le_max_right n (walkDepth l raw.type)
  rw [h', ← ofType?_mono hle h, ofType?_mono hle' h']

/-- A type is classified exactly when no query about it comes to await itself. -/
theorem ofType?_ends_iff (l : Library) (ids : Identity.Strategy) (propertyId : String) (control : Option PropertyKind)
    (typeText : String) (raw : Place) :
    (∃ kind, ofType? l ids propertyId control typeText (walkDepth l raw.type) raw = some kind) ↔
      ∀ q, Asks l control raw q → q.Grounded l := by
  rw [exists_ofType?_iff]
  refine forall₂_congr fun q hq => ?_
  obtain ⟨test, hmem⟩ := hq.mem_walkQueries
  rw [Query.Grounded, ← l.answer?_awaiting.answered_iff (l.walkQueries_closed test raw) hmem]
  exact ⟨fun ⟨a, ha⟩ => ⟨_, a, ha⟩, fun ⟨n, a, ha⟩ => ⟨a, Library.answer?_walkDepth hmem ha⟩⟩

/-- A member is classified when its classification ends at some depth. -/
theorem ofMember?_isSome_iff (l : Library) (ids : Identity.Strategy) (propertyId : String) (m : MemberRef) (doc : Doc.Comment) :
    (ofMember? l ids propertyId m doc).isSome ↔ ∃ depth, (ofMemberWithin? l ids propertyId m doc depth).isSome := by
  unfold ofMember? ofMemberWithin?
  cases m.member.type with
  | none => simp
  | some type =>
    refine ⟨fun h => ⟨_, h⟩, fun ⟨depth, h⟩ => ?_⟩
    obtain ⟨kind, hkind⟩ := Option.isSome_iff_exists.mp h
    exact Option.isSome_iff_exists.mpr ⟨kind, exists_ofType?_walkDepth hkind⟩

/-- The kind of a member is what its classification ends with at whatever depth, and there is one
exactly when none of the queries about the type of the member comes to await itself. -/
theorem classification_ends_iff (l : Library) (ids : Identity.Strategy) (propertyId : String) (m : MemberRef)
    (doc : Doc.Comment) :
    (∀ kind, ofMember? l ids propertyId m doc = some kind ↔
      ∃ depth, ofMemberWithin? l ids propertyId m doc depth = some kind) ∧
    ((∃ kind, ofMember? l ids propertyId m doc = some kind) ↔
      ∀ type, m.member.type = some type → ∀ q, Asks l (ofControl? doc) ⟨m.file, type⟩ q → q.Grounded l) := by
  unfold ofMember? ofMemberWithin?
  cases htype : m.member.type with
  | none => simp
  | some type =>
    simp only [Option.map_some, Option.getD_some, Option.some.injEq, forall_eq']
    refine ⟨fun kind => ⟨fun h => ⟨_, h⟩, fun ⟨depth, h⟩ => exists_ofType?_walkDepth h⟩, ?_⟩
    exact ofType?_ends_iff l ids propertyId (ofControl? doc) m.member.typeText ⟨m.file, type⟩

/-! ## A union with itself -/

/-- `A | string`, for an alias `A` of just that. -/
def selfUnion : TypeExpr := .union [.reference none ["A"] [], .keyword .string]

/-- `a: A` -/
def selfUnionMember : Member := ⟨"a", false, some (.reference none ["A"] []), "A", none, 49⟩

/-- `export type A = A | string` and `export interface P` with the one member. -/
def selfUnionLibrary : Library :=
  let declarations := [⟨"A", 7, none, .alias selfUnion⟩, ⟨"P", 35, none, .interface [] [selfUnionMember]⟩]
  .ofFiles ⟨"/lib"⟩ none [".d.ts"] [⟨⟨"/lib/index.d.ts"⟩, { declarations }⟩]

theorem selfUnion_normal : selfUnionLibrary.Normal ⟨0, .reference none ["A"] []⟩ ⟨0, selfUnion⟩ := ⟨1, by rfl⟩

/-- The first part of the union normalizes to the union. -/
theorem selfUnion_awaits : selfUnionLibrary.Awaits (.consists TypeExpr.isBoolean ⟨0, selfUnion⟩)
    (.consists TypeExpr.isBoolean ⟨0, selfUnion⟩) := by
  have hparts : Library.properParts [.reference none ["A"] [], .keyword .string] =
    [] ++ .reference none ["A"] [] :: [.keyword .string] := rfl
  exact .next rfl hparts (fun _ ht => nomatch ht) selfUnion_normal

/-- Whether the member is boolean is asked again and again, so it is not classified at any depth. -/
theorem a_union_with_itself_has_no_kind :
    ∃ m ∈ selfUnionLibrary.apparentMembers ⟨0, .reference none ["P"] []⟩,
      ∀ ids propertyId doc depth, ofMemberWithin? selfUnionLibrary ids propertyId m doc depth = none := by
  have hmembers : selfUnionLibrary.apparentMembers ⟨0, .reference none ["P"] []⟩ = [⟨0, selfUnionMember, false⟩] := by rfl
  rw [hmembers]
  refine ⟨_, List.mem_singleton_self _, fun ids propertyId doc depth => ?_⟩
  rw [Option.eq_none_iff_forall_ne_some]
  intro kind hkind
  obtain ⟨a, ha⟩ := (exists_ofType?_iff _ _ _ _ depth).mp ⟨kind, hkind⟩ _ (.boolean selfUnion_normal)
  rw [(Library.answer?_awaiting _).not_answered_of_cycle (.single selfUnion_awaits) depth] at ha
  cases ha

end PropertyKind

end PatternCatalog
