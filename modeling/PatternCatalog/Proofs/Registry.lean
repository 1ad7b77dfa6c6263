/-
  PatternCatalog.Proofs.Registry — which components a registry holds, and who lists a member.

  A registry holds the components that are not ignored, each declaration once, in the order in
  which the files export them (`Setting.registered`). The one thing that a pattern is told of
  the patterns before it is who has turned a member into a property: the first component that
  has the member as a property does (`Setting.ownerId?`). `Registered` is the invariant of the
  registration, `Registered.register` its step and `ofSetting_eq` the closed form of the whole
  registry.
-/

import PatternCatalog.Proofs.Component
import PatternCatalog.Proofs.Firsts
import PatternCatalog.Proofs.Pattern.Build
import PatternCatalog.Registry

namespace PatternCatalog

open Library (MemberRef)

/-- A component with the candidate of the file that exports it. -/
abbrev Listing := Candidate × Component

def Listing.key (x : Listing) : DeclarationKey := x.2.shape.key

theorem lookup_map_key {α β κ : Type} [BEq κ] [LawfulBEq κ] (key : α → κ) (f : α → β) (k : κ) (as : List α) :
    (as.map fun a => (key a, f a)).lookup k = (as.find? fun a => key a == k).map f := by
  induction as with
  | nil => rfl
  | cons a as ih =>
    rw [List.map_cons, List.lookup_cons, List.find?_cons, ih]
    by_cases h : key a = k
    · simp [h]
    · rw [beq_eq_false_iff_ne.mpr h, beq_eq_false_iff_ne.mpr (Ne.symm h)]

/-- A file exports a declaration of its own by an entry for the name that it stands for. -/
theorem Library.mem_localExports {l : Library} {file : Nat} {name : String} {key : DeclarationKey}
    (h : (name, key) ∈ l.localExports file) : ∃ own,
      ⟨name, .here own⟩ ∈ (l.moduleAt file).exports ∧ l.exportedDeclaration? file own = some key := by
  obtain ⟨⟨exported, target⟩, hentry, he⟩ := List.mem_filterMap.mp h
  cases target with
  | elsewhere _ _ => cases he
  | here own =>
    obtain ⟨_, hkey, he⟩ := Option.map_eq_some_iff.mp he
    cases he
    exact ⟨own, hentry, hkey⟩

namespace Component

variable {l : Library} {o : Options}

theorem key_of_ofDeclaration? {name : String} {key : DeclarationKey} {c : Component}
    (h : ofDeclaration? l o name key = some c) : c.shape.key = key ∧ c.exportName = name := by
  simp only [ofDeclaration?, shape?, bind, Option.bind_eq_some_iff, pure, Option.some.injEq] at h
  obtain ⟨shape, ⟨d, -, props, -, rfl⟩, rfl⟩ := h
  exact ⟨rfl, rfl⟩

theorem file_of_declared? {file : Nat} {name : String} {space : Space} {key : DeclarationKey}
    (h : l.declared? file name space = some key) : key.file = file := by
  obtain ⟨index, -, rfl⟩ := Option.map_eq_some_iff.mp h
  rfl

theorem file_of_exportedDeclaration? {file : Nat} {name : String} {key : DeclarationKey}
    (h : l.exportedDeclaration? file name = some key) : key.file = file := by
  rw [Library.exportedDeclaration?, Option.orElse_eq_orElse, Option.orElse_eq_or, Option.or_eq_some_iff] at h
  rcases h with h | ⟨-, h⟩
  · exact file_of_declared? h
  · exact file_of_declared? h

/-- A component is declared in the file that exports it, and goes by the name of an export. -/
theorem exported_here {file : Nat} {c : Component} (h : c ∈ exported l o file) :
    c.shape.key.file = file ∧ ∃ e ∈ (l.moduleAt file).exports, e.exported = c.exportName := by
  obtain ⟨⟨name, key⟩, hexport, hc⟩ := List.mem_filterMap.mp h
  obtain ⟨own, hentry, hkey⟩ := Library.mem_localExports hexport
  obtain ⟨hcomponent, hname⟩ := key_of_ofDeclaration? hc
  rw [hcomponent, hname]
  exact ⟨file_of_exportedDeclaration? hkey, _, hentry, rfl⟩

/-- A declaration is the same component under every name. -/
theorem ofDeclaration?_name {name : String} {key : DeclarationKey} {c : Component}
    (h : ofDeclaration? l o name key = some c) (name' : String) :
    ofDeclaration? l o name' key = some { c with exportName := name' } := by
  simp only [ofDeclaration?, bind, Option.bind_eq_some_iff, pure, Option.some.injEq] at h ⊢
  obtain ⟨shape, hshape, rfl⟩ := h
  exact ⟨shape, hshape, rfl⟩

/-- A component is exported first under the first name that its declaration is exported under. -/
theorem find?_exported {file : Nat} {name : String} {key : DeclarationKey} {c : Component}
    (hfirst : (l.localExports file).find? (·.2 == key) = some (name, key))
    (hc : ofDeclaration? l o name key = some c) (hkept : c.ignored = false) :
    (exported l o file).find? (fun c => !c.ignored && c.shape.key == key) = some c := by
  have hpred : (fun e : String × DeclarationKey => (ofDeclaration? l o e.1 e.2).any fun c => !c.ignored && c.shape.key == key) =
      fun e => e.2 == key := by
    funext ⟨name', key'⟩
    rw [Bool.eq_iff_iff, Option.any_eq_true_iff_get, beq_iff_eq]
    constructor
    · rintro ⟨hsome, hc'⟩
      have hkey := (key_of_ofDeclaration? (Option.some_get hsome).symm).1
      simp only [Bool.and_eq_true, beq_iff_eq] at hc'
      rw [← hc'.2, hkey]
    · rintro rfl
      have hc' := ofDeclaration?_name hc name'
      have hkey := (key_of_ofDeclaration? hc).1
      refine ⟨by rw [hc']; rfl, ?_⟩
      simp [hc', hkept, hkey]
  rw [exported, List.find?_filterMap, hpred, hfirst]
  exact hc

end Component

namespace Setting

variable (s : Setting)

/-! ## Components in order -/

/-- The exported components, file by file. -/
def listed : List Listing :=
  s.candidates.zipIdx.flatMap fun f => (Component.exported s.library s.options f.2).map fun c => (f.1, c)

/-- The components that get a pattern. -/
def registered : List Listing := firsts Listing.key (s.listed.filter fun x => !x.2.ignored)

theorem mem_listed {x : Listing} :
    x ∈ s.listed ↔ ∃ file, s.candidates[file]? = some x.1 ∧ x.2 ∈ Component.exported s.library s.options file := by
  simp only [listed, List.mem_flatMap, List.mem_map, Prod.exists, List.mem_zipIdx_iff_getElem?]
  constructor
  · rintro ⟨candidate, file, hfile, c, hc, rfl⟩
    exact ⟨file, hfile, hc⟩
  · rintro ⟨file, hfile, hc⟩
    exact ⟨x.1, file, hfile, x.2, hc, rfl⟩

/-- A registered component is exported by the file that declares it. -/
theorem mem_registered {x : Listing} (h : x ∈ s.registered) :
    s.candidates[x.key.file]? = some x.1 ∧ x.2 ∈ Component.exported s.library s.options x.key.file ∧
      x.2.ignored = false := by
  obtain ⟨hlisted, hkept⟩ := List.mem_filter.mp ((firsts_sublist _ _).subset h)
  obtain ⟨file, hfile, hc⟩ := s.mem_listed.mp hlisted
  obtain rfl := (Component.exported_here hc).1
  exact ⟨hfile, hc, by simpa using hkept⟩

/-- A search that can succeed in one place succeeds there or not at all. -/
theorem findSome?_zipIdx {α β : Type} {f : α × Nat → Option β} {as : List α} {n i : Nat} {a : α} (hi : as[i]? = some a)
    (hf : ∀ b j, j ≠ n + i → f (b, j) = none) : (as.zipIdx n).findSome? f = f (a, n + i) := by
  induction as generalizing n i with
  | nil => cases hi
  | cons b as ih =>
    rw [List.zipIdx_cons, List.findSome?_cons]
    cases i with
    | zero =>
      obtain rfl : b = a := Option.some.inj hi
      rw [Nat.add_zero]
      cases hb : f (b, n) with
      | some c => rfl
      | none =>
        refine List.findSome?_eq_none_iff.mpr fun x hx => hf x.1 x.2 ?_
        have hle := List.le_snd_of_mem_zipIdx hx
        omega
    | succ i =>
      rw [hf b n (by omega)]
      have hrest := ih (n := n + 1) hi fun c j hj => hf c j (by omega)
      rw [hrest, Nat.add_right_comm, Nat.add_assoc]

theorem find?_listed {key : DeclarationKey} {candidate : Candidate} (hfile : s.candidates[key.file]? = some candidate) :
    s.listed.find? (fun x => !x.2.ignored && x.key == key) =
      ((Component.exported s.library s.options key.file).find? fun c => !c.ignored && c.shape.key == key).map
        fun c => (candidate, c) := by
  rw [listed, List.find?_flatMap, findSome?_zipIdx (n := 0) hfile ?_]
  · rw [List.find?_map, Nat.zero_add]
    rfl
  · intro b j hj
    rw [List.find?_map, Option.map_eq_none_iff, List.find?_eq_none]
    intro c hc hfound
    have hhere := (Component.exported_here hc).1
    have hkey : c.shape.key = key := eq_of_beq (Bool.and_eq_true_iff.mp hfound).2
    rw [hkey] at hhere
    omega

/-- The registered components, one by one: each goes by the name of the first export of its declaration. -/
theorem mem_registered_iff {x : Listing} :
    x ∈ s.registered ↔ s.candidates[x.key.file]? = some x.1 ∧
      (s.library.localExports x.key.file).find? (·.2 == x.key) = some (x.2.exportName, x.key) ∧
      Component.ofDeclaration? s.library s.options x.2.exportName x.key = some x.2 ∧ x.2.ignored = false := by
  constructor
  · intro h
    obtain ⟨hfile, hexported, hkept⟩ := s.mem_registered h
    obtain ⟨⟨name, key⟩, hexport, hc⟩ := List.mem_filterMap.mp hexported
    obtain ⟨hkey, rfl⟩ := Component.key_of_ofDeclaration? hc
    obtain rfl : x.key = key := hkey
    refine ⟨hfile, ?_, hc, hkept⟩
    cases hfirst : (s.library.localExports x.key.file).find? (·.2 == x.key) with
    | none => exact absurd (beq_self_eq_true _) (List.find?_eq_none.mp hfirst _ hexport)
    | some e =>
      obtain ⟨first, key⟩ := e
      obtain rfl : key = x.key := by simpa using List.find?_some hfirst
      have hfound := s.find?_listed hfile
      rw [Component.find?_exported hfirst (Component.ofDeclaration?_name hc first) hkept, Option.map_some] at hfound
      have hx := find?_of_mem_firsts Listing.key h
      rw [List.find?_filter] at hx
      simp only [Bool.decide_and, Bool.decide_eq_true] at hx
      have hname := congrArg (fun y : Listing => y.2.exportName) (Option.some.inj (hfound.symm.trans hx))
      rw [← hname]
  · rintro ⟨hfile, hfirst, hc, hkept⟩
    have hexported : x.2 ∈ Component.exported s.library s.options x.key.file :=
      List.mem_filterMap.mpr ⟨_, List.mem_of_find?_eq_some hfirst, hc⟩
    have hlisted : x ∈ s.listed.filter fun x => !x.2.ignored :=
      List.mem_filter.mpr ⟨s.mem_listed.mpr ⟨_, hfile, hexported⟩, by rw [hkept]; rfl⟩
    obtain ⟨y, hy, hkey⟩ := exists_firsts Listing.key hlisted
    have hfound := s.find?_listed hfile
    rw [Component.find?_exported hfirst hc hkept, Option.map_some] at hfound
    have hx := find?_of_mem_firsts Listing.key hy
    rw [List.find?_filter] at hx
    simp only [Bool.decide_and, Bool.decide_eq_true, hkey] at hx
    rwa [← Option.some.inj (hfound.symm.trans hx)] at hy

theorem props_mentioned {s : Setting} {x : Listing} (hx : x ∈ s.registered) {p : Library.Place} (hp : x.2.shape.props = some p) :
    s.library.Mentions p :=
  Component.ofDeclaration?_mentioned (s.mem_registered_iff.mp hx).2.2.1 hp

theorem members_declared {s : Setting} {x : Listing} (hx : x ∈ s.registered) : ∀ m ∈ s.members x.2, s.library.Declares m := by
  unfold members
  cases hprops : x.2.shape.props with
  | none => exact fun m hm => nomatch hm
  | some p => exact Library.apparentMembers_declared (props_mentioned hx hprops)

/-! ## Who lists a member -/

/-- The property member of a key; the last one, should there be several. -/
def memberAt? (c : Component) (key : MemberKey) : Option MemberRef :=
  (s.propertyMembers c).reverse.find? fun m => m.key == key

/-- The id that a member gets from the first of some components that has it as a property. -/
def ownerId? (xs : List Listing) (key : MemberKey) : Option String :=
  xs.findSome? fun x => (s.memberAt? x.2 key).map (s.mintedId x.2)

theorem ownerId?_append (xs ys : List Listing) (key : MemberKey) :
    s.ownerId? (xs ++ ys) key = (s.ownerId? xs key).or (s.ownerId? ys key) := List.findSome?_append

theorem memberAt?_some {c : Component} {key : MemberKey} {m : MemberRef} (h : s.memberAt? c key = some m) :
    m ∈ s.propertyMembers c ∧ m.key = key :=
  ⟨List.mem_reverse.mp (List.mem_of_find?_eq_some h), by simpa using List.find?_some h⟩

/-- The owner of a member is the first component that has it as a property. -/
theorem ownerId?_eq_some {xs : List Listing} {key : MemberKey} {id : String} (h : s.ownerId? xs key = some id) :
    ∃ before x after m, xs = before ++ x :: after ∧ s.ownerId? before key = none ∧ s.memberAt? x.2 key = some m ∧
      s.mintedId x.2 m = id := by
  obtain ⟨before, x, after, hxs, hx, hbefore⟩ := List.findSome?_eq_some_iff.mp h
  obtain ⟨m, hm, hid⟩ := Option.map_eq_some_iff.mp hx
  exact ⟨before, x, after, m, hxs, List.findSome?_eq_none_iff.mpr hbefore, hm, hid⟩

theorem memberAt?_eq_none_iff {c : Component} {key : MemberKey} :
    s.memberAt? c key = none ↔ ∀ m ∈ s.propertyMembers c, m.key ≠ key := by
  simp [memberAt?, List.find?_eq_none]

/-- A member without an owner is a property of none of the components. -/
theorem ownerId?_eq_none_iff {xs : List Listing} {key : MemberKey} :
    s.ownerId? xs key = none ↔ ∀ x ∈ xs, ∀ m ∈ s.propertyMembers x.2, m.key ≠ key := by
  simp only [ownerId?, List.findSome?_eq_none_iff, Option.map_eq_none_iff, memberAt?_eq_none_iff]

/-! ## Registrations in closed form -/

def registration (before : List Listing) (x : Listing) : Registration :=
  ⟨x.key, x.1, s.build (s.ownerId? before) x.2⟩

/-- The registrations of some components after others. -/
def registrations : List Listing → List Listing → Registry
  | _, [] => []
  | before, x :: xs => s.registration before x :: registrations (before ++ [x]) xs

theorem registrations_append (before xs ys : List Listing) :
    s.registrations before (xs ++ ys) = s.registrations before xs ++ s.registrations (before ++ xs) ys := by
  induction xs generalizing before with
  | nil => simp [registrations]
  | cons x xs ih => simp [registrations, ih]

theorem mem_registrations {before xs : List Listing} {r : Registration} :
    r ∈ s.registrations before xs ↔ ∃ ys x zs, xs = ys ++ x :: zs ∧ r = s.registration (before ++ ys) x := by
  constructor
  · intro h
    induction xs generalizing before with
    | nil => cases h
    | cons x xs ih =>
      rcases List.mem_cons.mp h with rfl | h
      · exact ⟨[], x, xs, rfl, by rw [List.append_nil]⟩
      · obtain ⟨ys, y, zs, rfl, rfl⟩ := ih h
        exact ⟨x :: ys, y, zs, rfl, by rw [List.append_assoc]; rfl⟩
  · rintro ⟨ys, x, zs, rfl, rfl⟩
    rw [registrations_append]
    exact List.mem_append_right _ List.mem_cons_self

theorem getElem?_registrations (before xs : List Listing) (i : Nat) :
    (s.registrations before xs)[i]? = xs[i]?.map fun x => s.registration (before ++ xs.take i) x := by
  induction xs generalizing before i with
  | nil => rfl
  | cons x xs ih =>
    cases i with
    | zero => simp [registrations]
    | succ i => simp [registrations, ih]

theorem registrations_keys (before xs : List Listing) :
    (s.registrations before xs).map (·.key) = xs.map Listing.key := by
  induction xs generalizing before with
  | nil => rfl
  | cons x xs ih => rw [registrations, List.map_cons, List.map_cons, ih]; rfl

end Setting

namespace Registry

variable {s : Setting}

/-! ## The registration of one component -/

/-- A registry as it stands after some components. -/
structure Registered (s : Setting) (xs : List Listing) (rs : Registry) : Prop where
  registrations : rs = s.registrations [] xs
  propertyId : rs.propertyId? = s.ownerId? xs

theorem Registered.nil : Registered s [] [] := ⟨rfl, rfl⟩

theorem Registered.any_key {xs : List Listing} {rs : Registry} (h : Registered s xs rs) (key : DeclarationKey) :
    rs.any (·.key == key) = true ↔ key ∈ xs.map Listing.key := by
  rw [← s.registrations_keys [] xs, ← h.registrations]
  simp

/-- What a new pattern lists under a key, when it is told the owners of members so far. -/
theorem lookup_new (owner? : MemberKey → Option String) (c : Component) (k : MemberKey) :
    ((s.build owner? c).newProperties.reverse.lookup k).map (·.id) =
      if (owner? k).isNone then (s.memberAt? c k).map (s.mintedId c) else none := by
  rw [Setting.build_newProperties, ← List.map_reverse, lookup_map_key, ← List.filter_reverse, List.find?_filter,
    Option.map_map]
  split
  · next hnone =>
    have hkey : (fun m : MemberRef => decide ((owner? m.key).isNone = true ∧ (m.key == k) = true)) =
        fun m => m.key == k := by
      funext m
      by_cases hk : m.key = k <;> simp [hk, hnone]
    rw [hkey]
    rfl
  · next hsome =>
    rw [Option.map_eq_none_iff, List.find?_eq_none]
    intro m _ hm
    obtain ⟨hnone, hk⟩ : (owner? m.key).isNone = true ∧ m.key = k := by simpa using hm
    exact hsome (hk ▸ hnone)

theorem propertyId?_register (rs : Registry) (x : Listing) (k : MemberKey) :
    Registry.propertyId? (rs ++ [⟨x.key, x.1, s.build rs.propertyId? x.2⟩]) k =
      (rs.propertyId? k).or ((s.memberAt? x.2 k).map (s.mintedId x.2)) := by
  have hlookup : Registry.propertyId? (rs ++ [⟨x.key, x.1, s.build rs.propertyId? x.2⟩]) k =
      (((s.build rs.propertyId? x.2).newProperties.reverse.lookup k).map (·.id)).or (rs.propertyId? k) := by
    rw [propertyId?, List.flatMap_append, List.reverse_append, List.flatMap_singleton, List.lookup_append,
      Option.map_or]
    rfl
  rw [hlookup, lookup_new]
  cases rs.propertyId? k with
  | none => simp
  | some id => rfl

theorem Registered.register {xs : List Listing} {rs : Registry} (h : Registered s xs rs) (x : Listing) :
    Registered s (xs ++ [x]) (rs ++ [⟨x.key, x.1, s.build rs.propertyId? x.2⟩]) := by
  constructor
  · rw [s.registrations_append, h.propertyId, h.registrations]
    rfl
  · funext k
    rw [propertyId?_register, s.ownerId?_append, h.propertyId]
    refine congrArg _ ?_
    cases hm : s.memberAt? x.2 k <;> simp [Setting.ownerId?, hm]

/-! ## The whole registry -/

theorem foldl_addFile (rs : Registry) (fs : List (Candidate × Nat)) :
    fs.foldl (addFile s) rs =
      (fs.flatMap fun f => (Component.exported s.library s.options f.2).map fun c => (f.1, c)).foldl
        (fun rs x => add s x.1 rs x.2) rs := by
  induction fs generalizing rs with
  | nil => rfl
  | cons f fs ih => rw [List.foldl_cons, ih, List.flatMap_cons, List.foldl_append, List.foldl_map]; rfl

/-- Registering further components adds those that are not ignored and not there yet. -/
theorem Registered.run {xs : List Listing} {rs : Registry} (h : Registered s xs rs) (ys : List Listing) :
    Registered s
      (xs ++ (firsts Listing.key (ys.filter fun x => !x.2.ignored)).filter fun x => x.key ∉ xs.map Listing.key)
      (ys.foldl (fun rs x => add s x.1 rs x.2) rs) := by
  induction ys generalizing xs rs with
  | nil => simpa [firsts] using h
  | cons y ys ih =>
    rw [List.foldl_cons, add]
    by_cases hignored : y.2.ignored = true
    · rw [List.filter_cons_of_neg (by simpa using hignored), if_pos (by rw [hignored, Bool.true_or])]
      exact ih h
    · have hkept : (y.2.ignored || rs.any (·.key == y.2.shape.key)) = rs.any (·.key == y.key) := by
        rw [Bool.not_eq_true] at hignored
        rw [hignored, Bool.false_or, Listing.key]
      rw [List.filter_cons_of_pos (by simpa using hignored), hkept]
      by_cases hkey : y.key ∈ xs.map Listing.key
      · rw [if_pos ((h.any_key y.key).mpr hkey), filter_firsts_of_mem Listing.key hkey]
        exact ih h
      · have hkeys : ∀ k, k ∈ (xs ++ [y]).map Listing.key ↔ k = y.key ∨ k ∈ xs.map Listing.key := by simp [or_comm]
        rw [if_neg (mt (h.any_key y.key).mp hkey), filter_firsts_of_notMem Listing.key hkey hkeys, List.append_cons]
        exact ih (h.register y)

theorem ofSetting_registered (s : Setting) : Registered s s.registered (ofSetting s) := by
  have h := (Registered.nil (s := s)).run s.listed
  rw [List.nil_append, List.filter_eq_self.mpr (by simp)] at h
  rw [ofSetting, foldl_addFile]
  exact h

/-- The registry of a setting, in closed form. -/
theorem ofSetting_eq (s : Setting) : ofSetting s = s.registrations [] s.registered :=
  (ofSetting_registered s).registrations

end Registry

end PatternCatalog
