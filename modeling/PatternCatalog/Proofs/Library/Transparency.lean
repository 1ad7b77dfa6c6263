/-
  PatternCatalog.Proofs.Library.Transparency — an alias in the place of the type it stands for.

  A part of a type may be given a name of its own, and the name put where the part was
  (`TypeExpr.Context`). What becomes of the members of the whole depends on what is done with
  the part (`Context.role`): its members are gathered, or the string literals in it are read as
  names for `Omit` or `Pick`, or it is not looked at.
  - `fill_readsAs`: two types can stand for each other when they have the same members where
    members are gathered, and the same string literals where names are read.
  - `readsAs_of_alias`: an alias has the members of the type it stands for, one step deeper.

  Names are read off the type as it is written, and an alias is not followed there, so named
  keys count as no keys.
  - `alias_stands_for_body_iff`: the members of the whole stay what they were exactly when the
    part is not read for names, or its names make no difference; for a wrapper by itself that is
    when none of them names a member of the wrapped type.
  - `named_keys_are_not_read`: `Omit<Props, Keys>` leaves out nothing.
-/

import Mathlib.Data.List.Forall2
import PatternCatalog.Proofs.Library.Flattened
import PatternCatalog.Proofs.Library.Symbol

namespace PatternCatalog

/-! ## Contexts -/

namespace TypeExpr

/-- A type with a hole in it, where a type may stand. -/
inductive Context where
  | hole
  | argument (module : Option String) (name : List String) (before : List TypeExpr) (inner : Context) (after : List TypeExpr)
  | unionPart (before : List TypeExpr) (inner : Context) (after : List TypeExpr)
  | intersectionPart (before : List TypeExpr) (inner : Context) (after : List TypeExpr)
  | item (inner : Context)
  | param (before : List Param) (name : String) (optional : Bool) (inner : Context) (after : List Param) (returns : TypeExpr)
  | result (params : List Param) (inner : Context)
  | member (before : List Member) (name : String) (optional : Bool) (inner : Context) (typeText : String)
      (doc : Option String) (start : Nat) (after : List Member)

namespace Context

/-- The type with another one in the hole. -/
def fill (t : TypeExpr) : Context → TypeExpr
  | hole => t
  | argument module name before inner after => .reference module name (before ++ inner.fill t :: after)
  | unionPart before inner after => .union (before ++ inner.fill t :: after)
  | intersectionPart before inner after => .intersection (before ++ inner.fill t :: after)
  | item inner => .array (inner.fill t)
  | param before name optional inner after returns =>
    .function (before ++ ⟨name, some (inner.fill t), optional⟩ :: after) returns
  | result params inner => .function params (inner.fill t)
  | member before name optional inner typeText doc start after =>
    .object (before ++ ⟨name, optional, some (inner.fill t), typeText, doc, start⟩ :: after)

/-- Whether the string literals of what stands in the hole are literals of the whole. -/
def passesLiterals : Context → Bool
  | hole => true
  | unionPart _ inner _ => inner.passesLiterals
  | _ => false

end Context

/-- A type without arguments by its name alone. -/
def byName (name : String) : TypeExpr := .reference none [name] []

end TypeExpr

namespace Library

/-- What is done with a type to find the members of one that it lies in. -/
inductive Role where
  | members
  /-- The string literals in it are read as names. -/
  | names
  | unread
  deriving DecidableEq

/-- Whether a wrapper goes by the names that it is given. -/
def Wrapper.readsNames : Wrapper → Bool
  | .omit | .pick => true
  | _ => false

/-- What is done with the hole of a type that is an argument after the given ones, perhaps of a wrapper. -/
def argumentRole (wrapper : Option Wrapper) (before : List TypeExpr) (inner : Role) (passesLiterals : Bool) : Role :=
  match wrapper, before with
  | some _, [] => inner
  | some w, [_] => if w.readsNames && passesLiterals then .names else .unread
  | _, _ => .unread

end Library

open Library (MemberRef Place Role Wrapper)

/-- What is done with a type that stands in the hole. -/
def TypeExpr.Context.role (l : Library) (file : Nat) : Context → Role
  | .hole => .members
  | .intersectionPart _ inner _ => inner.role l file
  | .argument module name before inner _ =>
    match l.reference? file (.reference module name before) with
    | some (.declaration _) => .unread
    | _ => Library.argumentRole (Wrapper.ofName? (name.getLast?.getD "")) before (inner.role l file) inner.passesLiterals
  | _ => .unread

namespace Library

open TypeExpr (Context)

/-! ## Members that are alike -/

/-- The name of a member, where it is declared and whether it is optional. -/
def MemberRef.outline (m : MemberRef) : String × Nat × Bool := (m.name, m.file, m.optional)

/-- Whether members have the same outlines in the same order. -/
def SameOutlines (ms ms' : List MemberRef) : Prop := ms.map MemberRef.outline = ms'.map MemberRef.outline

instance (ms ms' : List MemberRef) : Decidable (SameOutlines ms ms') :=
  inferInstanceAs (Decidable (ms.map MemberRef.outline = ms'.map MemberRef.outline))

namespace SameOutlines

variable {ms ms' ns ns' : List MemberRef}

theorem symm (h : SameOutlines ms ms') : SameOutlines ms' ms := Eq.symm h

theorem trans (h : SameOutlines ms ms') (h' : SameOutlines ms' ns) : SameOutlines ms ns := Eq.trans h h'

theorem length_eq (h : SameOutlines ms ms') : ms.length = ms'.length := by simpa using congrArg List.length h

theorem append (h : SameOutlines ms ms') (h' : SameOutlines ns ns') : SameOutlines (ms ++ ns) (ms' ++ ns') := by
  rw [SameOutlines, List.map_append, List.map_append, h, h']

theorem firsts (h : SameOutlines ms ms') :
    SameOutlines (firsts MemberRef.name ms) (PatternCatalog.firsts MemberRef.name ms') := by
  have houtlines : ∀ ms : List MemberRef, (PatternCatalog.firsts MemberRef.name ms).map MemberRef.outline =
      PatternCatalog.firsts Prod.fst (ms.map MemberRef.outline) := fun ms => (firsts_map Prod.fst MemberRef.outline ms).symm
  rw [SameOutlines, houtlines, houtlines, h]

/-- What a wrapper does to a member shows in its outline. -/
theorem apply (names : List String) (h : SameOutlines ms ms') :
    (w : Wrapper) → SameOutlines (w.apply names ms) (w.apply names ms')
  | .keep => h
  | .partialMembers => by
    have hmap := congrArg (List.map fun (o : String × Nat × Bool) => (o.1, o.2.1, true)) h
    rw [List.map_map, List.map_map] at hmap
    rw [SameOutlines, Wrapper.apply, Wrapper.apply, List.map_map, List.map_map]
    exact hmap
  | .requiredMembers => by
    have hmap := congrArg (List.map fun (o : String × Nat × Bool) => (o.1, o.2.1, false)) h
    rw [List.map_map, List.map_map] at hmap
    rw [SameOutlines, Wrapper.apply, Wrapper.apply, List.map_map, List.map_map]
    exact hmap
  | .omit => by
    have hfilter := congrArg (List.filter fun (o : String × Nat × Bool) => !names.contains o.1) h
    rwa [List.filter_map, List.filter_map] at hfilter
  | .pick => by
    have hfilter := congrArg (List.filter fun (o : String × Nat × Bool) => names.contains o.1) h
    rwa [List.filter_map, List.filter_map] at hfilter

end SameOutlines

/-! ## Types that read as others -/

/-- Whether a type nests no less deep than another one and has its members. -/
def ReadsAs (l : Library) (p q : Place) : Prop :=
  ∀ n, l.NestsWithin n p → l.NestsWithin n q ∧ SameOutlines (l.flattenWithin (n + 1) p) (l.flattenWithin (n + 1) q)

inductive Source.ReadsAs (l : Library) : Source → Source → Prop
  | member {m m'} (h : m.outline = m'.outline) : ReadsAs l (.member m) (.member m')
  | type {w names names' p q} (hnames : w.apply names = w.apply names') (h : l.ReadsAs p q) :
    ReadsAs l (.type w names p) (.type w names' q)

variable {l : Library} {p q : Place} {file : Nat} {name : String} {s t : TypeExpr}

theorem ReadsAs.refl (p : Place) : l.ReadsAs p p := fun _ h => ⟨h, rfl⟩

theorem Source.ReadsAs.refl : (s : Source) → s.ReadsAs l s
  | .member _ => .member rfl
  | .type _ _ p => .type rfl (.refl p)

theorem inner_readsAs {ss ss' : List Source} (h : List.Forall₂ (Source.ReadsAs l) ss ss') :
    List.Forall₂ l.ReadsAs (ss.filterMap Source.place?) (ss'.filterMap Source.place?) := by
  induction h with
  | nil => exact .nil
  | cons hs _ ih =>
    cases hs with
    | member _ => exact ih
    | type _ hread => exact .cons hread ih

theorem members_sameOutlines {ss ss' : List Source} (h : List.Forall₂ (Source.ReadsAs l) ss ss')
    {f : Place → List MemberRef} (hf : ∀ p ∈ ss.filterMap Source.place?, ∀ q, l.ReadsAs p q → SameOutlines (f p) (f q)) :
    SameOutlines (ss.flatMap (Source.members f)) (ss'.flatMap (Source.members f)) := by
  induction h with
  | nil => rfl
  | cons hs _ ih =>
    rw [List.flatMap_cons, List.flatMap_cons]
    cases hs with
    | member houtline => exact .append (congrArg (fun o => [o]) houtline) (ih hf)
    | @type w names names' p q hnames hread =>
      obtain ⟨hp, hrest⟩ := List.forall_mem_cons.mp hf
      refine .append ?_ (ih hrest)
      rw [Source.members, Source.members, ← hnames]
      exact (hp q hread).apply names w

theorem forall_of_forall₂ {α β : Type} {R : α → β → Prop} {P : α → Prop} {Q : β → Prop}
    (hPQ : ∀ a b, R a b → P a → Q b) {as : List α} {bs : List β} (h : List.Forall₂ R as bs)
    (has : ∀ a ∈ as, P a) : ∀ b ∈ bs, Q b := by
  induction h with
  | nil => exact fun _ hb => nomatch hb
  | cons hab _ ih =>
    obtain ⟨ha, hrest⟩ := List.forall_mem_cons.mp has
    exact List.forall_mem_cons.mpr ⟨hPQ _ _ hab ha, ih hrest⟩

/-- Types read alike when their sources do, one by one. -/
theorem readsAs_of_sources (h : List.Forall₂ (Source.ReadsAs l) (l.sources p) (l.sources q)) : l.ReadsAs p q := by
  have hinner : List.Forall₂ l.ReadsAs (l.inner p) (l.inner q) := inner_readsAs h
  intro n hn
  cases n with
  | zero =>
    rw [nestsWithin_zero] at hn
    rw [hn] at hinner
    refine ⟨nestsWithin_zero.mpr (List.forall₂_nil_left_iff.mp hinner), members_sameOutlines h fun r hr => ?_⟩
    rw [← inner, hn] at hr
    cases hr
  | succ n =>
    rw [nestsWithin_succ] at hn ⊢
    exact ⟨forall_of_forall₂ (fun r r' hread hr => (hread n hr).1) hinner hn,
      members_sameOutlines h fun r hr r' hread => (hread n (hn r hr)).2⟩

theorem readsAs_of_sources_eq (h : l.sources p = l.sources q) : l.ReadsAs p q := by
  refine readsAs_of_sources ?_
  rw [h]
  exact List.forall₂_same.mpr fun s _ => .refl s

/-- What reads as another type has the same apparent members. -/
theorem ReadsAs.apparentMembers (h : l.ReadsAs p q) (hnest : l.NestsWithin typeDepth p) :
    SameOutlines (l.apparentMembers p) (l.apparentMembers q) := by
  rw [apparentMembers_eq, apparentMembers_eq]
  exact (h typeDepth hnest).2.firsts

/-! ## Types in contexts -/

theorem stringLiteralsOf_eq (ts : List TypeExpr) : stringLiteralsOf ts = ts.flatMap stringLiterals := by
  induction ts with
  | nil => rfl
  | cons t ts ih => rw [stringLiteralsOf, ih, List.flatMap_cons]

theorem stringLiterals_fill (c : Context) (h : c.passesLiterals = true → stringLiterals s = stringLiterals t) :
    stringLiterals (c.fill s) = stringLiterals (c.fill t) := by
  induction c with
  | hole => exact h rfl
  | unionPart before inner after ih =>
    simp only [Context.fill, stringLiterals, stringLiteralsOf_eq, List.flatMap_append, List.flatMap_cons, ih h]
  | _ => rfl

/-- Sources that differ in one place. -/
theorem sources_around {before after : List Source} {a b : Source} (h : a.ReadsAs l b) :
    List.Forall₂ (Source.ReadsAs l) (before ++ a :: after) (before ++ b :: after) := by
  have hsame : ∀ ss : List Source, List.Forall₂ (Source.ReadsAs l) ss ss :=
    fun ss => List.forall₂_same.mpr fun s _ => .refl s
  exact List.rel_append (hsame before) (.cons h (hsame after))

/-- A wrapper that does not go by names is not told apart by them. -/
theorem apply_congr {names names' : List String} :
    {w : Wrapper} → (w.readsNames = true → names = names') → w.apply names = w.apply names'
  | .keep, _ | .partialMembers, _ | .requiredMembers, _ => rfl
  | .omit, h | .pick, h => by rw [h rfl]

theorem wrapped?_cons {name : List String} {w : Wrapper} (hw : Wrapper.ofName? (name.getLast?.getD "") = some w)
    (inner : TypeExpr) (rest : List TypeExpr) :
    wrapped? name (inner :: rest) = some (w, inner, (rest.head?.map stringLiterals).getD []) := by
  simp [wrapped?, hw]

theorem role_argument {module : Option String} {name : List String} {before after : List TypeExpr} {inner : Context}
    (h : ∀ key, l.reference? file (.reference module name before) ≠ some (.declaration key)) :
    (Context.argument module name before inner after).role l file =
      argumentRole (Wrapper.ofName? (name.getLast?.getD "")) before (inner.role l file) inner.passesLiterals := by
  rw [Context.role]
  split
  · next key hkey => exact absurd hkey (h key)
  · rfl

/-- Two types can stand for each other when they have the same members where members are gathered,
and the same string literals where names are read. -/
theorem fill_readsAs (c : Context) (hmembers : c.role l file = .members → l.ReadsAs ⟨file, s⟩ ⟨file, t⟩)
    (hnames : c.role l file = .names → stringLiterals s = stringLiterals t) :
    l.ReadsAs ⟨file, c.fill s⟩ ⟨file, c.fill t⟩ := by
  induction c with
  | hole => exact hmembers rfl
  | intersectionPart before inner after ih =>
    refine readsAs_of_sources ?_
    simp only [Context.fill, sources, List.map_append, List.map_cons]
    exact sources_around (.type rfl (ih hmembers hnames))
  | member before name optional inner typeText doc start after =>
    refine readsAs_of_sources ?_
    simp only [Context.fill, sources, ownMembers, List.map_append, List.map_cons]
    exact sources_around (.member rfl)
  | argument module name before inner after ih =>
    have hmeaning := fun u => l.reference?_arguments file module name (before ++ inner.fill u :: after) before
    by_cases hdeclared : ∃ key, l.reference? file (.reference module name before) = some (.declaration key)
    · obtain ⟨key, hkey⟩ := hdeclared
      refine readsAs_of_sources_eq ?_
      rw [Context.fill, Context.fill, sources_of_declaration ((hmeaning s).trans hkey),
        sources_of_declaration ((hmeaning t).trans hkey)]
    · have hwrapper := not_exists.mp hdeclared
      rw [role_argument hwrapper] at hmembers hnames
      refine readsAs_of_sources ?_
      rw [Context.fill, Context.fill, sources_of_wrapper fun key => hmeaning s ▸ hwrapper key,
        sources_of_wrapper fun key => hmeaning t ▸ hwrapper key]
      cases hw : Wrapper.ofName? (name.getLast?.getD "") with
      | none => cases before <;> simp [wrapped?, hw]
      | some w =>
        rw [hw] at hmembers hnames
        rcases before with _ | ⟨first, _ | ⟨second, rest⟩⟩
        · simp only [List.nil_append, wrapped?_cons hw, Option.map_some, Option.toList_some]
          exact .cons (.type rfl (ih hmembers hnames)) .nil
        · simp only [List.cons_append, List.nil_append, wrapped?_cons hw, Option.map_some, Option.toList_some, List.head?_cons,
            Option.getD_some]
          refine .cons (.type (apply_congr fun hreads => ?_) (.refl _)) .nil
          exact stringLiterals_fill inner fun hpasses => hnames (by simp [argumentRole, hreads, hpasses])
        · simp only [List.cons_append, wrapped?_cons hw, List.head?_cons, Option.map_some, Option.toList_some]
          exact List.forall₂_same.mpr fun source _ => .refl source
  | _ => exact readsAs_of_sources_eq rfl

/-! ## Aliases -/

/-- Whether what a file declares as a type of a name is an alias for the given type. -/
def Aliases (l : Library) (file : Nat) (name : String) (body : TypeExpr) : Prop :=
  ∃ key, l.declared? file name .type = some key ∧ l.kind? key = some (.alias body)

variable {body : TypeExpr}

theorem sources_of_alias (h : l.Aliases file name body) : l.sources ⟨file, .byName name⟩ = [.plain file body] := by
  obtain ⟨key, hdeclared, hkind⟩ := h
  obtain rfl : key.file = file := by
    obtain ⟨index, -, rfl⟩ := Option.map_eq_some_iff.mp hdeclared
    rfl
  have hmeaning : l.reference? key.file (.byName name) = some (.declaration key) := by
    simp [TypeExpr.byName, reference?, qualified?, local?, localSearch, hdeclared]
  rw [TypeExpr.byName, sources_of_declaration hmeaning, hkind]
  rfl

/-- An alias has the members of the type it stands for, one step deeper. -/
theorem readsAs_of_alias (h : l.Aliases file name body) : l.ReadsAs ⟨file, .byName name⟩ ⟨file, body⟩ := by
  have hsources := sources_of_alias h
  have hinner : l.inner ⟨file, .byName name⟩ = [⟨file, body⟩] := by rw [inner, hsources]; rfl
  intro n hn
  cases n with
  | zero =>
    rw [nestsWithin_zero, hinner] at hn
    cases hn
  | succ n =>
    have hbody : l.NestsWithin n ⟨file, body⟩ := nestsWithin_succ.mp hn _ (hinner ▸ List.mem_singleton_self _)
    refine ⟨hbody.succ, ?_⟩
    rw [hbody.flattenWithin_eq (by omega), flattenWithin, hsources, List.flatMap_singleton]
    rfl

/-- The members of a wrapper are what it makes of the members of the wrapped type. -/
theorem apparentMembers_of_wrapper {w : Wrapper} {names : List String} (h : l.sources p = [.type w names q]) {n : Nat}
    (hn : n < typeDepth) (hq : l.NestsWithin n q) : l.apparentMembers p = w.apply names (l.apparentMembers q) := by
  have hflat : l.flattenWithin (typeDepth + 1) q = l.flattenWithin typeDepth q := by
    rw [hq.flattenWithin_eq hn, hq.flattenWithin_eq (Nat.lt_succ_of_lt hn)]
  rw [apparentMembers_eq, apparentMembers_eq, hflat, ← firsts_apply, flattenWithin, h, List.flatMap_singleton]
  rfl

/-- Where names are read from the last of two arguments, they are all that it counts for. -/
theorem sources_of_names {module : Option String} {name : List String} {wrapped : TypeExpr} {rest : List TypeExpr}
    (hrole : (Context.argument module name [wrapped] .hole rest).role l file = .names) :
    ∃ w : Wrapper, w.readsNames = true ∧
      ∀ t, l.sources ⟨file, (Context.argument module name [wrapped] .hole rest).fill t⟩ =
        [.type w (stringLiterals t) ⟨file, wrapped⟩] := by
  have hmeaning := fun t => l.reference?_arguments file module name (wrapped :: t :: rest) [wrapped]
  have hwrapper : ∀ key, l.reference? file (.reference module name [wrapped]) ≠ some (.declaration key) := by
    intro key hkey
    simp [Context.role, hkey] at hrole
  rw [role_argument hwrapper] at hrole
  cases hw : Wrapper.ofName? (name.getLast?.getD "") with
  | none => simp [argumentRole, hw] at hrole
  | some w =>
    refine ⟨w, by simpa [argumentRole, hw, Context.passesLiterals] using hrole, fun t => ?_⟩
    simp only [Context.fill, List.cons_append, List.nil_append]
    rw [sources_of_wrapper fun key => hmeaning t ▸ hwrapper key, wrapped?_cons hw]
    rfl

/-- Without any names `Omit` leaves out nothing and `Pick` everything, which makes no difference only when
no member has one of the names. -/
theorem apply_nil_sameOutlines_iff {w : Wrapper} (hw : w.readsNames = true) (names : List String) (ms : List MemberRef) :
    SameOutlines (w.apply [] ms) (w.apply names ms) ↔ ∀ m ∈ ms, m.name ∉ names := by
  match w, hw with
  | .omit, _ =>
    have hall : Wrapper.apply .omit [] ms = ms := List.filter_eq_self.mpr fun _ _ => rfl
    rw [hall]
    constructor
    · intro h m hm hname
      have hlength := List.length_filter_eq_length_iff.mp h.length_eq.symm m hm
      simp [hname] at hlength
    · intro h
      have hkept : Wrapper.apply .omit names ms = ms := List.filter_eq_self.mpr fun m hm => by simpa using h m hm
      rw [hkept]
      rfl
  | .pick, _ =>
    have hnone : Wrapper.apply .pick [] ms = [] := List.filter_eq_nil_iff.mpr fun _ _ => by simp
    rw [hnone]
    constructor
    · intro h m hm hname
      have hlength := List.length_eq_zero_iff.mp h.length_eq.symm
      exact List.filter_eq_nil_iff.mp hlength m hm (by simpa using hname)
    · intro h
      have hkept : Wrapper.apply .pick names ms = [] := List.filter_eq_nil_iff.mpr fun m hm => by simpa using h m hm
      rw [hkept]
      rfl

/-- An alias can stand for its body wherever names are not read. Where they are, it counts as a type
without string literals, and leaves the members what they were just when the names make no difference; for
the wrapper that reads them by itself, when no member of the wrapped type has one of them. -/
theorem alias_stands_for_body_iff (halias : l.Aliases file name body) (c : Context)
    (hnest : l.NestsWithin typeDepth ⟨file, c.fill (.byName name)⟩) :
    (SameOutlines (l.apparentMembers ⟨file, c.fill (.byName name)⟩) (l.apparentMembers ⟨file, c.fill body⟩) ↔
      (c.role l file = .names →
        SameOutlines (l.apparentMembers ⟨file, c.fill (.keyword .never)⟩) (l.apparentMembers ⟨file, c.fill body⟩))) ∧
    ∀ module wrapper wrapped rest, c = .argument module wrapper [wrapped] .hole rest → c.role l file = .names →
      (SameOutlines (l.apparentMembers ⟨file, c.fill (.byName name)⟩) (l.apparentMembers ⟨file, c.fill body⟩) ↔
        ∀ m ∈ l.apparentMembers ⟨file, wrapped⟩, m.name ∉ stringLiterals body) := by
  constructor
  · by_cases hrole : c.role l file = .names
    · have hnotMembers : c.role l file ≠ .members := by rw [hrole]; decide
      have hread : l.ReadsAs ⟨file, c.fill (.byName name)⟩ ⟨file, c.fill (.keyword .never)⟩ :=
        fill_readsAs c (fun h => absurd h hnotMembers) fun _ => rfl
      have hunnamed := hread.apparentMembers hnest
      exact ⟨fun h _ => hunnamed.symm.trans h, fun h => hunnamed.trans (h hrole)⟩
    · have hread := (fill_readsAs c (fun _ => readsAs_of_alias halias) fun h => absurd h hrole).apparentMembers hnest
      exact iff_of_true hread fun h => absurd h hrole
  · rintro module wrapper wrapped rest rfl hrole
    obtain ⟨w, hw, hsources⟩ := sources_of_names hrole
    have hwrapped : l.NestsWithin 31 ⟨file, wrapped⟩ :=
      nestsWithin_succ.mp hnest _ (List.mem_filterMap.mpr ⟨_, hsources (.byName name) ▸ List.mem_singleton_self _, rfl⟩)
    have hmembers := fun t => apparentMembers_of_wrapper (hsources t) (by decide) hwrapped
    rw [hmembers, hmembers]
    exact apply_nil_sameOutlines_iff hw (stringLiterals body) _

/-! ## Keys by name -/

/-- `type Keys = "tone"` and `interface Props` with `size` and `tone`. -/
def keysLibrary : Library :=
  let declarations := [⟨"Keys", 0, none, .alias (.literal (.string "tone"))⟩,
    ⟨"Props", 20, none, .interface [] [plainMember "size" .string 38, plainMember "tone" .string 52]⟩]
  .ofFiles ⟨"/lib"⟩ none [".d.ts"] [⟨⟨"/lib/index.d.ts"⟩, { declarations }⟩]

/-- `Omit<Props, …>`. -/
def omitProps : Context := .argument none ["Omit"] [.byName "Props"] .hole []

theorem keys_alias : keysLibrary.Aliases 0 "Keys" (.literal (.string "tone")) := ⟨⟨0, 0⟩, by decide +kernel, rfl⟩

theorem omitProps_nests : keysLibrary.NestsWithin typeDepth ⟨0, omitProps.fill (.byName "Keys")⟩ := by decide +kernel

theorem keys_stand_for_body_iff :
    keysLibrary.Aliases 0 "Keys" (.literal (.string "tone")) ∧
    keysLibrary.NestsWithin typeDepth ⟨0, omitProps.fill (.byName "Keys")⟩ ∧
    (SameOutlines (keysLibrary.apparentMembers ⟨0, omitProps.fill (.byName "Keys")⟩)
        (keysLibrary.apparentMembers ⟨0, omitProps.fill (.literal (.string "tone"))⟩) ↔
      (omitProps.role keysLibrary 0 = .names →
        SameOutlines (keysLibrary.apparentMembers ⟨0, omitProps.fill (.keyword .never)⟩)
          (keysLibrary.apparentMembers ⟨0, omitProps.fill (.literal (.string "tone"))⟩))) ∧
    (SameOutlines (keysLibrary.apparentMembers ⟨0, omitProps.fill (.byName "Keys")⟩)
        (keysLibrary.apparentMembers ⟨0, omitProps.fill (.literal (.string "tone"))⟩) ↔
      ∀ m ∈ keysLibrary.apparentMembers ⟨0, .byName "Props"⟩, m.name ∉ ["tone"]) :=
  have hnames : omitProps.role keysLibrary 0 = .names := by decide +kernel
  have h := alias_stands_for_body_iff keys_alias omitProps omitProps_nests
  ⟨keys_alias, omitProps_nests, h.1, h.2 none ["Omit"] (.byName "Props") [] rfl hnames⟩

/-- `Omit<Props, "tone">` leaves out `tone`, and `Omit<Props, Keys>` does not. -/
theorem named_keys_are_not_read :
    keysLibrary.Aliases 0 "Keys" (.literal (.string "tone")) ∧
    keysLibrary.NestsWithin typeDepth ⟨0, omitProps.fill (.byName "Keys")⟩ ∧
    ¬ SameOutlines (keysLibrary.apparentMembers ⟨0, omitProps.fill (.byName "Keys")⟩)
      (keysLibrary.apparentMembers ⟨0, omitProps.fill (.literal (.string "tone"))⟩) :=
  ⟨keys_alias, omitProps_nests, by decide +kernel⟩

end Library

end PatternCatalog
