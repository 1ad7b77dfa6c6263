/-
  PatternCatalog.Proofs.Library.Flattened — the apparent members of a type, by what it is made of.

  `Flattens` says, by rules of its own, what list a type comes to when everything in it is
  replaced by its members: the members of an object, the parts of an intersection in order, the
  members of an interface and then its parents, the target of an alias, and what a wrapper from
  outside the library makes of its first argument (`Wraps`). It takes no account of names and has
  no bound; a type that lies in itself flattens into nothing.

  The collection goes about it in another way. It passes one list of members through all
  `sources` of a type and adds to it what is new, except under a wrapper, where it begins an empty
  list, changes what comes of it and adds that. The two ways agree:
  - `collectMembers_eq`: collecting adds, to whatever has been gathered, what the sources come to
    (`flattenWithin`), because leaving out names and keeping the first member of each name
    commute (`firsts_apply`).
  - `flattens_iff`: a type of bounded nesting flattens into what its sources come to, and into
    nothing else.
  - `apparentMembers_flattened`: the apparent members are the first of each name in it.
-/

import PatternCatalog.Proofs.Firsts
import PatternCatalog.Proofs.Library.Members

namespace PatternCatalog.Library

/-! ## Rules -/

/-- What a type reference means in the library. -/
def RefersTo (l : Library) (p : Place) (key : DeclarationKey) (kind : DeclarationKind) : Prop :=
  l.reference? p.file p.type = some (.declaration key) ∧ l.kind? key = some kind

/-- The types from outside the library that pass on the members of their first argument. -/
def wrapperNames : List String :=
  ["Readonly", "PropsWithChildren", "PropsWithRef", "PropsWithoutRef", "Required", "Partial", "Omit", "Pick"]

/-- Whether a type is such a wrapper, with the given name, first argument and other arguments. -/
def IsWrapper (l : Library) (p : Place) (w : String) (inner : TypeExpr) (rest : List TypeExpr) : Prop :=
  w ∈ wrapperNames ∧ (∀ key, l.reference? p.file p.type ≠ some (.declaration key)) ∧
    ∃ module name, p.type = .reference module name (inner :: rest) ∧ name.getLast? = some w

/-- The string literals of a type are those that it is or that are parts of it as a union. -/
inductive HasLiteral : TypeExpr → String → Prop
  | literal {name} : HasLiteral (.literal (.string name)) name
  | union {parts part name} (hpart : part ∈ parts) (h : HasLiteral part name) : HasLiteral (.union parts) name

/-- Whether the second argument of a wrapper gives a name; `rest` begins with that argument. -/
def IsKey (rest : List TypeExpr) (name : String) : Prop := ∃ keys, rest.head? = some keys ∧ HasLiteral keys name

/-- What a wrapper makes of the members of its first argument. -/
inductive Wraps (rest : List TypeExpr) : String → List MemberRef → List MemberRef → Prop
  | readonly {ms} : Wraps rest "Readonly" ms ms
  | withChildren {ms} : Wraps rest "PropsWithChildren" ms ms
  | withRef {ms} : Wraps rest "PropsWithRef" ms ms
  | withoutRef {ms} : Wraps rest "PropsWithoutRef" ms ms
  | allOptional {ms} : Wraps rest "Partial" ms (ms.map fun m => { m with optional := true })
  | allRequired {ms} : Wraps rest "Required" ms (ms.map fun m => { m with optional := false })
  | without {ms} {keep : String → Bool} (h : ∀ name, keep name = true ↔ ¬ IsKey rest name) :
    Wraps rest "Omit" ms (ms.filter fun m => keep m.name)
  | only {ms} {keep : String → Bool} (h : ∀ name, keep name = true ↔ IsKey rest name) :
    Wraps rest "Pick" ms (ms.filter fun m => keep m.name)

/-- Whether a type has no members, for it is nothing that has some. -/
structure IsBare (l : Library) (p : Place) : Prop where
  object : ∀ members, p.type ≠ .object members
  intersection : ∀ parts, p.type ≠ .intersection parts
  interface : ∀ key parents members, ¬ l.RefersTo p key (.interface parents members)
  target : ∀ key type, ¬ l.RefersTo p key (.alias type)
  wrapper : ∀ w inner rest, ¬ l.IsWrapper p w inner rest

mutual

/-- What a type is flattened into. -/
inductive Flattens (l : Library) : Place → List MemberRef → Prop
  | object {file members} : Flattens l ⟨file, .object members⟩ (members.map fun m => ⟨file, m, m.optional⟩)
  | intersection {file parts ms} (h : FlattensAll l file parts ms) : Flattens l ⟨file, .intersection parts⟩ ms
  | interface {p key parents members ms} (h : l.RefersTo p key (.interface parents members))
      (hparents : FlattensAll l key.file parents ms) :
    Flattens l p (members.map (fun m => ⟨key.file, m, m.optional⟩) ++ ms)
  | target {p key type ms} (h : l.RefersTo p key (.alias type)) (htype : Flattens l ⟨key.file, type⟩ ms) : Flattens l p ms
  | wrapper {p w inner rest ms ms'} (h : l.IsWrapper p w inner rest) (hinner : Flattens l ⟨p.file, inner⟩ ms)
      (hwraps : Wraps rest w ms ms') : Flattens l p ms'
  | bare {p} (h : l.IsBare p) : Flattens l p []

/-- What the types of a list are flattened into, one after another. -/
inductive FlattensAll (l : Library) : Nat → List TypeExpr → List MemberRef → Prop
  | nil {file} : FlattensAll l file [] []
  | cons {file t ts ms ms'} (h : Flattens l ⟨file, t⟩ ms) (hrest : FlattensAll l file ts ms') :
    FlattensAll l file (t :: ts) (ms ++ ms')

end

/-- Whether a type lies directly in another one, as a part, a parent, the target or the wrapped type. -/
inductive LiesIn (l : Library) : Place → Place → Prop
  | part {file part parts} (h : part ∈ parts) : LiesIn l ⟨file, part⟩ ⟨file, .intersection parts⟩
  | parent {p key parents members parent} (h : l.RefersTo p key (.interface parents members)) (hparent : parent ∈ parents) :
    LiesIn l ⟨key.file, parent⟩ p
  | target {p key type} (h : l.RefersTo p key (.alias type)) : LiesIn l ⟨key.file, type⟩ p
  | wrapped {p w inner rest} (h : l.IsWrapper p w inner rest) : LiesIn l ⟨p.file, inner⟩ p

/-- Whether references, parents, parts and wrapped types nest at most so deep. -/
def NestsWithin (l : Library) : Nat → Place → Prop
  | 0, p => ∀ q, ¬ l.LiesIn q p
  | n + 1, p => ∀ q, l.LiesIn q p → l.NestsWithin n q

/-- Every type is of one of the kinds that the rules know. -/
inductive Shape (l : Library) : Place → Prop
  | object {file members} : Shape l ⟨file, .object members⟩
  | intersection {file parts} : Shape l ⟨file, .intersection parts⟩
  | interface {p key parents members} (h : l.RefersTo p key (.interface parents members)) : Shape l p
  | target {p key type} (h : l.RefersTo p key (.alias type)) : Shape l p
  | wrapper {p w inner rest} (h : l.IsWrapper p w inner rest) : Shape l p
  | bare {p} (h : l.IsBare p) : Shape l p

theorem shape (l : Library) (p : Place) : l.Shape p := by
  obtain ⟨file, type⟩ := p
  refine Classical.byContradiction fun hnone => hnone (.bare ⟨?_, ?_, ?_, ?_, ?_⟩)
  · rintro members rfl
    exact hnone .object
  · rintro parts rfl
    exact hnone .intersection
  · exact fun key parents members h => hnone (.interface h)
  · exact fun key type h => hnone (.target h)
  · exact fun w inner rest h => hnone (.wrapper h)

/-! ## Sources -/

/-- Where members of a type come from. -/
inductive Source where
  | member (m : MemberRef)
  /-- The members of another type, as a wrapper with these names leaves them. -/
  | type (w : Wrapper) (names : List String) (p : Place)

namespace Source

/-- The members of another type as they are. -/
def plain (file : Nat) (t : TypeExpr) : Source := .type .keep [] ⟨file, t⟩

def place? : Source → Option Place
  | member _ => none
  | type _ _ p => some p

/-- The members that come from a source, given those of each type. -/
def members (membersOf : Place → List MemberRef) : Source → List MemberRef
  | member m => [m]
  | type w names p => w.apply names (membersOf p)

end Source

/-- The sources of a declaration: the members of an interface and then its parents, the type that
an alias stands for. -/
def declaredSources (file : Nat) : DeclarationKind → List Source
  | .interface parents members => (ownMembers file members).map .member ++ parents.map (.plain file)
  | .alias type => [.plain file type]
  | _ => []

/-- The sources of a type in order. -/
def sources (l : Library) (p : Place) : List Source :=
  match p.type with
  | .object members => (ownMembers p.file members).map .member
  | .intersection parts => parts.map (.plain p.file)
  | .reference _ name args =>
    match l.reference? p.file p.type with
    | some (.declaration key) => ((l.kind? key).map (declaredSources key.file)).getD []
    | _ => ((wrapped? name args).map fun (w, inner, names) => .type w names ⟨p.file, inner⟩).toList
  | _ => []

/-- The types among the sources of a type. -/
def inner (l : Library) (p : Place) : List Place := (l.sources p).filterMap Source.place?

/-- What the sources of a type come to, followed so many steps deep. -/
def flattenWithin (l : Library) : Nat → Place → List MemberRef
  | 0, _ => []
  | n + 1, p => (l.sources p).flatMap (Source.members (l.flattenWithin n))

/-! ## First members -/

theorem addMember_eq (out : List MemberRef) (m : MemberRef) :
    addMember out m = if m.name ∈ out.map (·.name) then out else out ++ [m] := by
  have hany : out.any (·.name == m.name) = true ↔ m.name ∈ out.map (·.name) := by simp
  simp only [addMember, hany]

/-- Members are added by name: the first of each name, unless the name is there. -/
theorem addMembers_eq (out ms : List MemberRef) :
    addMembers out ms = out ++ (firsts MemberRef.name ms).filter fun m => m.name ∉ out.map (·.name) := by
  induction ms generalizing out with
  | nil => exact (List.append_nil out).symm
  | cons m ms ih =>
    have hstep : addMembers out (m :: ms) = addMembers (addMember out m) ms := rfl
    rw [hstep, ih, addMember_eq]
    by_cases hm : m.name ∈ out.map (·.name)
    · rw [if_pos hm, filter_firsts_of_mem MemberRef.name hm]
    · have hnames : ∀ name, name ∈ (out ++ [m]).map (·.name) ↔ name = m.name ∨ name ∈ out.map (·.name) := by simp [or_comm]
      rw [if_neg hm, filter_firsts_of_notMem MemberRef.name hm hnames, List.append_assoc]
      rfl

theorem addMembers_nil (ms : List MemberRef) : addMembers [] ms = firsts MemberRef.name ms := by
  rw [addMembers_eq, List.nil_append, List.filter_eq_self]
  exact fun _ _ => rfl

theorem addMembers_append (out ms ms' : List MemberRef) : addMembers out (ms ++ ms') = addMembers (addMembers out ms) ms' :=
  List.foldl_append

/-- Only the first members of what is added count. -/
theorem addMembers_firsts (out ms : List MemberRef) : addMembers out (firsts MemberRef.name ms) = addMembers out ms := by
  rw [addMembers_eq, addMembers_eq, firsts_eq_self _ (firsts_nodup _ ms)]

/-- A wrapper goes by names and keeps them. -/
theorem firsts_apply (names : List String) (ms : List MemberRef) :
    (w : Wrapper) → firsts MemberRef.name (w.apply names ms) = w.apply names (firsts MemberRef.name ms)
  | .keep => rfl
  | .partialMembers | .requiredMembers => firsts_map MemberRef.name _ ms
  | .omit => firsts_filter MemberRef.name (fun name => !names.contains name) ms
  | .pick => firsts_filter MemberRef.name (fun name => names.contains name) ms

/-! ## The collection -/

variable {l : Library}

/-- The members of some types are gathered one type after another. -/
theorem foldl_plain {n : Nat} (ih : ∀ p out, l.collectMembers n p out = addMembers out (l.flattenWithin n p)) (file : Nat)
    (ts : List TypeExpr) (out : List MemberRef) :
    ts.foldl (fun out t => l.collectMembers n ⟨file, t⟩ out) out =
      addMembers out ((ts.map (Source.plain file)).flatMap (Source.members (l.flattenWithin n))) := by
  induction ts generalizing out with
  | nil => rfl
  | cons t ts iht =>
    rw [List.foldl_cons, iht, ih, List.map_cons, List.flatMap_cons, addMembers_append]
    rfl

theorem flatMap_member (membersOf : Place → List MemberRef) (ms : List MemberRef) :
    (ms.map Source.member).flatMap (Source.members membersOf) = ms := by
  rw [List.flatMap_map]
  exact List.flatMap_singleton' ms

theorem sources_of_declaration {file : Nat} {module : Option String} {name : List String} {args : List TypeExpr}
    {key : DeclarationKey} (h : l.reference? file (.reference module name args) = some (.declaration key)) :
    l.sources ⟨file, .reference module name args⟩ = ((l.kind? key).map (declaredSources key.file)).getD [] := by
  simp only [sources, h]

theorem sources_of_wrapper {file : Nat} {module : Option String} {name : List String} {args : List TypeExpr}
    (h : ∀ key, l.reference? file (.reference module name args) ≠ some (.declaration key)) :
    l.sources ⟨file, .reference module name args⟩ =
      ((wrapped? name args).map fun (w, inner, names) => Source.type w names ⟨file, inner⟩).toList := by
  rw [sources]
  dsimp only
  split
  · next key hkey => exact absurd hkey (h key)
  · rfl

/-- The list that is begun anew under a wrapper makes no difference. -/
theorem collectMembers_eq (n : Nat) (p : Place) (out : List MemberRef) :
    l.collectMembers n p out = addMembers out (l.flattenWithin n p) := by
  induction n generalizing p out with
  | zero => rfl
  | succ n ih =>
    obtain ⟨file, type⟩ := p
    cases type with
    | object members => rw [collectMembers, flattenWithin, sources, flatMap_member]
    | intersection parts => exact foldl_plain ih file parts out
    | reference module name args =>
      by_cases hdeclared : ∃ key, l.reference? file (.reference module name args) = some (.declaration key)
      · obtain ⟨key, hkey⟩ := hdeclared
        rw [flattenWithin, sources_of_declaration hkey]
        simp only [collectMembers, hkey]
        rcases l.kind? key with _ | ⟨parents, members⟩ | type | _ | _ | _ | _
        case some.interface =>
          rw [Option.map_some, Option.getD_some, declaredSources, List.flatMap_append, flatMap_member, addMembers_append]
          exact foldl_plain ih key.file parents _
        case some.«alias» =>
          rw [Option.map_some, Option.getD_some, declaredSources, List.flatMap_singleton]
          exact ih _ out
        all_goals rfl
      · have hwrapped := not_exists.mp hdeclared
        rw [collectMembers_wrapped hwrapped, flattenWithin, sources_of_wrapper hwrapped]
        cases wrapped? name args with
        | none => rfl
        | some found =>
          obtain ⟨w, inner, names⟩ := found
          rw [Option.elim_some, ih, addMembers_nil, ← firsts_apply, addMembers_firsts, Option.map_some, Option.toList_some,
            List.flatMap_singleton]
          rfl
    | _ => rfl

theorem apparentMembers_eq (p : Place) :
    l.apparentMembers p = firsts MemberRef.name (l.flattenWithin (typeDepth + 1) p) := by
  rw [apparentMembers, collectMembers_eq, addMembers_nil]

/-! ## Sources by rules -/

mutual

theorem hasLiteral_iff {name : String} : (t : TypeExpr) → (HasLiteral t name ↔ name ∈ stringLiterals t)
  | .literal (.string s) => by
    rw [stringLiterals, List.mem_singleton]
    refine ⟨fun h => ?_, fun h => h ▸ .literal⟩
    cases h
    rfl
  | .union parts => by
    rw [stringLiterals, ← exists_hasLiteral_iff parts]
    constructor
    · intro h
      cases h with
      | union hpart h => exact ⟨_, hpart, h⟩
    · rintro ⟨part, hpart, h⟩
      exact .union hpart h
  | .literal (.number _) | .literal (.boolean _) | .literal .template | .keyword _ | .reference .. | .intersection _
  | .array _ | .function .. | .object _ | .other => by
    rw [stringLiterals]
    · constructor <;> intro h <;> cases h
    all_goals
      intro _ h
      cases h

theorem exists_hasLiteral_iff {name : String} :
    (ts : List TypeExpr) → ((∃ t ∈ ts, HasLiteral t name) ↔ name ∈ stringLiteralsOf ts)
  | [] => by
    refine iff_of_false ?_ List.not_mem_nil
    rintro ⟨t, ht, -⟩
    exact List.not_mem_nil ht
  | t :: ts => by
    rw [stringLiteralsOf, List.mem_append, ← hasLiteral_iff t, ← exists_hasLiteral_iff ts]
    constructor
    · rintro ⟨part, hpart, h⟩
      rcases List.mem_cons.mp hpart with rfl | hpart
      · exact .inl h
      · exact .inr ⟨part, hpart, h⟩
    · rintro (h | ⟨part, hpart, h⟩)
      · exact ⟨t, List.mem_cons_self, h⟩
      · exact ⟨part, List.mem_cons_of_mem _ hpart, h⟩

end

theorem isKey_iff {rest : List TypeExpr} {name : String} : IsKey rest name ↔ name ∈ (rest.head?.map stringLiterals).getD [] := by
  cases rest with
  | nil => simp [IsKey]
  | cons keys rest => simp [IsKey, hasLiteral_iff]

theorem isSome_ofName?_iff {name : String} : (Wrapper.ofName? name).isSome ↔ name ∈ wrapperNames := by
  rw [Wrapper.ofName?, List.lookup_isSome_iff]
  simp [wrapperNames]

/-- What the code makes of the members under a wrapper is what the rules say. -/
theorem wraps_iff {rest : List TypeExpr} {name : String} {w : Wrapper} (hw : Wrapper.ofName? name = some w)
    {ms ms' : List MemberRef} : Wraps rest name ms ms' ↔ ms' = w.apply ((rest.head?.map stringLiterals).getD []) ms := by
  constructor
  · intro h
    cases h
    case without keep hkeep =>
      obtain rfl : Wrapper.omit = w := Option.some.inj hw
      refine List.filter_congr fun m _ => ?_
      rw [Bool.eq_iff_iff, hkeep, isKey_iff]
      simp
    case only keep hkeep =>
      obtain rfl : Wrapper.pick = w := Option.some.inj hw
      refine List.filter_congr fun m _ => ?_
      rw [Bool.eq_iff_iff, hkeep, isKey_iff]
      simp
    all_goals
      obtain rfl := Option.some.inj hw
      rfl
  · rintro rfl
    have hname : name ∈ wrapperNames := isSome_ofName?_iff.mp (by rw [hw]; rfl)
    simp [wrapperNames] at hname
    rcases hname with rfl | rfl | rfl | rfl | rfl | rfl | rfl | rfl <;> obtain rfl := Option.some.inj hw
    · exact .readonly
    · exact .withChildren
    · exact .withRef
    · exact .withoutRef
    · exact .allRequired
    · exact .allOptional
    · exact @Wraps.without rest ms (fun name => !((rest.head?.map stringLiterals).getD []).contains name) fun name => by
        simp [isKey_iff]
    · exact @Wraps.only rest ms (((rest.head?.map stringLiterals).getD []).contains ·) fun name => by simp [isKey_iff]

variable {p q : Place}

theorem sources_of_interface {key : DeclarationKey} {parents : List TypeExpr} {members : List Member}
    (h : l.RefersTo p key (.interface parents members)) :
    l.sources p = (ownMembers key.file members).map .member ++ parents.map (.plain key.file) := by
  obtain ⟨file, type⟩ := p
  obtain ⟨hkey, hkind⟩ := h
  cases type with
  | reference module name args => rw [sources_of_declaration hkey, hkind]; rfl
  | _ => cases hkey

theorem sources_of_target {key : DeclarationKey} {type : TypeExpr} (h : l.RefersTo p key (.alias type)) :
    l.sources p = [.plain key.file type] := by
  obtain ⟨file, type'⟩ := p
  obtain ⟨hkey, hkind⟩ := h
  cases type' with
  | reference module name args => rw [sources_of_declaration hkey, hkind]; rfl
  | _ => cases hkey

theorem sources_of_isWrapper {w : String} {inner : TypeExpr} {rest : List TypeExpr} (h : l.IsWrapper p w inner rest) :
    ∃ wrapper, Wrapper.ofName? w = some wrapper ∧
      l.sources p = [.type wrapper ((rest.head?.map stringLiterals).getD []) ⟨p.file, inner⟩] := by
  obtain ⟨file, type⟩ := p
  obtain ⟨hw, hforeign, module, name, rfl, hname⟩ := h
  obtain ⟨wrapper, hwrapper⟩ := Option.isSome_iff_exists.mp (isSome_ofName?_iff.mpr hw)
  refine ⟨wrapper, hwrapper, ?_⟩
  rw [sources_of_wrapper hforeign, wrapped?, hname, Option.getD_some, hwrapper]
  rfl

theorem sources_of_isBare (h : l.IsBare p) : l.sources p = [] := by
  obtain ⟨file, type⟩ := p
  cases type with
  | object members => exact absurd rfl (h.object members)
  | intersection parts => exact absurd rfl (h.intersection parts)
  | reference module name args =>
    by_cases hdeclared : ∃ key, l.reference? file (.reference module name args) = some (.declaration key)
    · obtain ⟨key, hkey⟩ := hdeclared
      rw [sources_of_declaration hkey]
      cases hkind : l.kind? key with
      | none => rfl
      | some kind =>
        cases kind with
        | interface parents members => exact absurd ⟨hkey, hkind⟩ (h.interface key parents members)
        | «alias» type => exact absurd ⟨hkey, hkind⟩ (h.target key type)
        | _ => rfl
    · have hforeign := not_exists.mp hdeclared
      rw [sources_of_wrapper hforeign]
      cases args with
      | nil => rfl
      | cons inner rest =>
        cases hwrapper : Wrapper.ofName? (name.getLast?.getD "") with
        | none => simp [wrapped?, hwrapper]
        | some wrapper =>
          have hw : name.getLast?.getD "" ∈ wrapperNames := isSome_ofName?_iff.mp (by rw [hwrapper]; rfl)
          obtain ⟨w, hname⟩ : ∃ w, name.getLast? = some w := by
            cases hname : name.getLast? with
            | none => rw [hname] at hw; exact absurd hw (by decide)
            | some w => exact ⟨w, rfl⟩
          rw [hname] at hw
          exact absurd ⟨hw, hforeign, module, name, rfl, hname⟩ (h.wrapper w inner rest)
  | _ => rfl

theorem place?_member (ms : List MemberRef) : (ms.map Source.member).filterMap Source.place? = [] := by
  induction ms with
  | nil => rfl
  | cons m ms ih => exact ih

theorem place?_plain (file : Nat) (ts : List TypeExpr) : (ts.map (Source.plain file)).filterMap Source.place? = ts.map (⟨file, ·⟩) := by
  induction ts with
  | nil => rfl
  | cons t ts ih => exact congrArg (_ :: ·) ih

/-- The types among the sources of a type are those that lie in it. -/
theorem mem_inner_iff : q ∈ l.inner p ↔ l.LiesIn q p := by
  constructor
  · intro h
    rw [inner] at h
    cases l.shape p with
    | object =>
      rw [sources, place?_member] at h
      cases h
    | intersection =>
      rw [sources, place?_plain] at h
      obtain ⟨part, hpart, rfl⟩ := List.mem_map.mp h
      exact .part hpart
    | interface hrefers =>
      rw [sources_of_interface hrefers, List.filterMap_append, place?_member, place?_plain] at h
      obtain ⟨parent, hparent, rfl⟩ := List.mem_map.mp h
      exact .parent hrefers hparent
    | target hrefers =>
      rw [sources_of_target hrefers] at h
      obtain rfl := List.mem_singleton.mp h
      exact .target hrefers
    | wrapper hwrapper =>
      obtain ⟨w, -, hsources⟩ := sources_of_isWrapper hwrapper
      rw [hsources] at h
      obtain rfl := List.mem_singleton.mp h
      exact .wrapped hwrapper
    | bare hbare =>
      rw [sources_of_isBare hbare] at h
      cases h
  · intro h
    cases h with
    | part hpart =>
      rw [inner, sources, place?_plain]
      exact List.mem_map_of_mem hpart
    | parent hrefers hparent =>
      rw [inner, sources_of_interface hrefers, List.filterMap_append, place?_member, place?_plain]
      exact List.mem_map_of_mem hparent
    | target hrefers =>
      rw [inner, sources_of_target hrefers]
      exact List.mem_singleton_self _
    | wrapped hwrapper =>
      obtain ⟨w, -, hsources⟩ := sources_of_isWrapper hwrapper
      rw [inner, hsources]
      exact List.mem_singleton_self _

/-! ## Bounded nesting -/

theorem nestsWithin_zero : l.NestsWithin 0 p ↔ l.inner p = [] := by
  simp only [NestsWithin, ← mem_inner_iff, List.eq_nil_iff_forall_not_mem]

theorem nestsWithin_succ {n : Nat} : l.NestsWithin (n + 1) p ↔ ∀ q ∈ l.inner p, l.NestsWithin n q := by
  simp only [NestsWithin, mem_inner_iff]

instance decidableNestsWithin (l : Library) : (n : Nat) → (p : Place) → Decidable (l.NestsWithin n p)
  | 0, _ => decidable_of_iff _ nestsWithin_zero.symm
  | n + 1, _ =>
    have : ∀ q, Decidable (l.NestsWithin n q) := decidableNestsWithin l n
    decidable_of_iff _ nestsWithin_succ.symm

theorem NestsWithin.succ {n : Nat} {p : Place} (h : l.NestsWithin n p) : l.NestsWithin (n + 1) p := by
  induction n generalizing p with
  | zero => exact fun q hq => absurd hq (h q)
  | succ n ih => exact fun q hq => ih (h q hq)

theorem flatMap_members_congr {f g : Place → List MemberRef} {p : Place} (h : ∀ q ∈ l.inner p, f q = g q) :
    (l.sources p).flatMap (Source.members f) = (l.sources p).flatMap (Source.members g) := by
  rw [List.flatMap_def, List.flatMap_def]
  refine congrArg List.flatten (List.map_congr_left fun s hs => ?_)
  cases s with
  | member m => rfl
  | type w names q => exact congrArg (w.apply names) (h q (List.mem_filterMap.mpr ⟨_, hs, rfl⟩))

/-- Types that nest at most so deep are followed to the end. -/
theorem NestsWithin.flattenWithin_eq {n m : Nat} (hlt : n < m) {p : Place} (h : l.NestsWithin n p) :
    l.flattenWithin m p = l.flattenWithin (n + 1) p := by
  induction n generalizing m p with
  | zero =>
    obtain ⟨m, rfl⟩ : ∃ k, m = k + 1 := ⟨m - 1, by omega⟩
    exact flatMap_members_congr fun q hq => absurd (mem_inner_iff.mp hq) (h q)
  | succ n ih =>
    obtain ⟨m, rfl⟩ : ∃ k, m = k + 1 := ⟨m - 1, by omega⟩
    exact flatMap_members_congr fun q hq => ih (by omega) (h q (mem_inner_iff.mp hq))

/-! ## Flattening step by step -/

section Step

variable {f : Place → List MemberRef}

theorem flatMap_plain (f : Place → List MemberRef) (file : Nat) (ts : List TypeExpr) :
    (ts.map (Source.plain file)).flatMap (Source.members f) = ts.flatMap fun t => f ⟨file, t⟩ := by
  rw [List.flatMap_map]
  rfl

theorem FlattensAll.eq_flatMap {file : Nat} {ts : List TypeExpr} {ms : List MemberRef} (h : l.FlattensAll file ts ms)
    (hf : ∀ t ∈ ts, ∀ ms, l.Flattens ⟨file, t⟩ ms → ms = f ⟨file, t⟩) : ms = ts.flatMap fun t => f ⟨file, t⟩ := by
  induction ts generalizing ms with
  | nil =>
    cases h
    rfl
  | cons t ts ih =>
    obtain ⟨ht, hts⟩ := List.forall_mem_cons.mp hf
    cases h with
    | cons h hrest => rw [List.flatMap_cons, ← ht _ h, ← ih hrest hts]

theorem flattensAll_flatMap {file : Nat} {ts : List TypeExpr} (hf : ∀ t ∈ ts, l.Flattens ⟨file, t⟩ (f ⟨file, t⟩)) :
    l.FlattensAll file ts (ts.flatMap fun t => f ⟨file, t⟩) := by
  induction ts with
  | nil => exact .nil
  | cons t ts ih =>
    obtain ⟨ht, hts⟩ := List.forall_mem_cons.mp hf
    exact .cons ht (ih hts)

/-- What a type is flattened into comes from its sources, as what lies in it is flattened. -/
theorem Flattens.eq_flatMap {ms : List MemberRef} (h : l.Flattens p ms)
    (hf : ∀ q, l.LiesIn q p → ∀ ms, l.Flattens q ms → ms = f q) : ms = (l.sources p).flatMap (Source.members f) := by
  cases h with
  | object =>
    rw [sources, flatMap_member]
    rfl
  | intersection h =>
    rw [sources, flatMap_plain]
    exact h.eq_flatMap fun t ht => hf _ (.part ht)
  | interface hrefers hparents =>
    rw [sources_of_interface hrefers, List.flatMap_append, flatMap_member, flatMap_plain,
      ← hparents.eq_flatMap fun t ht => hf _ (.parent hrefers ht)]
    rfl
  | target hrefers htype =>
    rw [sources_of_target hrefers, List.flatMap_singleton]
    exact hf _ (.target hrefers) _ htype
  | wrapper hwrapper hinner hwraps =>
    obtain ⟨w, hw, hsources⟩ := sources_of_isWrapper hwrapper
    rw [hsources, List.flatMap_singleton, (wraps_iff hw).mp hwraps, hf _ (.wrapped hwrapper) _ hinner]
    rfl
  | bare hbare =>
    rw [sources_of_isBare hbare]
    rfl

theorem flattens_flatMap (hf : ∀ q, l.LiesIn q p → l.Flattens q (f q)) :
    l.Flattens p ((l.sources p).flatMap (Source.members f)) := by
  cases l.shape p with
  | object =>
    rw [sources, flatMap_member]
    exact .object
  | intersection =>
    rw [sources, flatMap_plain]
    exact .intersection (flattensAll_flatMap fun t ht => hf _ (.part ht))
  | interface hrefers =>
    rw [sources_of_interface hrefers, List.flatMap_append, flatMap_member, flatMap_plain]
    exact .interface hrefers (flattensAll_flatMap fun t ht => hf _ (.parent hrefers ht))
  | target hrefers =>
    rw [sources_of_target hrefers, List.flatMap_singleton]
    exact .target hrefers (hf _ (.target hrefers))
  | wrapper hwrapper =>
    obtain ⟨w, hw, hsources⟩ := sources_of_isWrapper hwrapper
    rw [hsources, List.flatMap_singleton]
    exact .wrapper hwrapper (hf _ (.wrapped hwrapper)) ((wraps_iff hw).mpr rfl)
  | bare hbare =>
    rw [sources_of_isBare hbare]
    exact .bare hbare

end Step

/-- A type that nests at most so deep is flattened into what its sources come to, and into nothing else. -/
theorem flattens_iff {n : Nat} (h : l.NestsWithin n p) {ms : List MemberRef} :
    l.Flattens p ms ↔ ms = l.flattenWithin (n + 1) p := by
  induction n generalizing p ms with
  | zero =>
    constructor
    · exact fun hflat => hflat.eq_flatMap fun q hq => absurd hq (h q)
    · rintro rfl
      exact flattens_flatMap fun q hq => absurd hq (h q)
  | succ n ih =>
    constructor
    · exact fun hflat => hflat.eq_flatMap fun q hq ms => (ih (h q hq)).mp
    · rintro rfl
      exact flattens_flatMap fun q hq => (ih (h q hq)).mpr rfl

/-! ## Apparent members -/

/-- A type that nests at most `typeDepth` deep flattens into one list, and its apparent members are
the first of each name there: a search for a name finds the same member in both, and the members
of an interface hide all that it inherits. -/
theorem apparentMembers_flattened {n : Nat} (hn : n ≤ typeDepth) {p : Place} (h : l.NestsWithin n p) :
    ∃ ms, (∀ ms', l.Flattens p ms' ↔ ms' = ms) ∧ l.apparentMembers p = firsts MemberRef.name ms ∧
      NamesDiffer (l.apparentMembers p) ∧
      (∀ name, (l.apparentMembers p).find? (·.name == name) = ms.find? (·.name == name)) ∧
      ∀ key parents members, l.RefersTo p key (.interface parents members) →
        firsts MemberRef.name (members.map fun m => ⟨key.file, m, m.optional⟩) <+: l.apparentMembers p := by
  have hmembers : l.apparentMembers p = firsts MemberRef.name (l.flattenWithin (n + 1) p) := by
    rw [apparentMembers_eq, h.flattenWithin_eq (by omega)]
  refine ⟨_, fun ms' => flattens_iff h, hmembers, l.apparentMembers_nodup p, ?_, ?_⟩
  · intro name
    rw [hmembers, find?_firsts]
  · intro key parents members hrefers
    rw [hmembers, flattenWithin, sources_of_interface hrefers, List.flatMap_append, flatMap_member, firsts_append]
    exact List.prefix_append _ _

/-! ## A type under wrappers -/

/-- A member of the type `string` or `number`. -/
def plainMember (name : String) (k : Keyword) (start : Nat) : Member := ⟨name, false, some (.keyword k), "", none, start⟩

/-- `interface Base` with `size` and the optional `tone`, `interface Props extends Base` with `size` and `label`, and
`type Loose = Partial<Omit<Props, "tone">> & Required<Pick<Base, "size" | "tone">>`. -/
def looseLibrary : Library :=
  let named (name : String) : TypeExpr := .reference none [name] []
  let wrapped (w : String) (args : List TypeExpr) : TypeExpr := .reference none [w] args
  let literal (name : String) : TypeExpr := .literal (.string name)
  let declarations :=
    [⟨"Base", 0, none, .interface [] [plainMember "size" .number 17, { plainMember "tone" .string 31 with optional := true }]⟩,
      ⟨"Props", 48, none, .interface [named "Base"] [plainMember "size" .string 79, plainMember "label" .string 93]⟩,
      ⟨"Loose", 110, none, .alias (.intersection [wrapped "Partial" [wrapped "Omit" [named "Props", literal "tone"]],
        wrapped "Required" [wrapped "Pick" [named "Base", .union [literal "size", literal "tone"]]]])⟩]
  .ofFiles ⟨"/lib"⟩ none [".d.ts"] [⟨⟨"/lib/index.d.ts"⟩, { declarations }⟩]

def loose : Place := ⟨0, .reference none ["Loose"] []⟩

theorem loose_nests : looseLibrary.NestsWithin 5 loose := by decide +kernel

/-- The `size` of `Props` hides that of its parent and that of the second wrapper; `tone` comes from there alone. -/
theorem loose_flattened : looseLibrary.NestsWithin 5 loose ∧
    ∃ ms, (∀ ms', looseLibrary.Flattens loose ms' ↔ ms' = ms) ∧
      ms.map (fun m => (m.name, m.member.start, m.optional)) =
        [("size", 79, true), ("label", 93, true), ("size", 17, true), ("size", 17, false), ("tone", 31, false)] ∧
      looseLibrary.apparentMembers loose = firsts MemberRef.name ms ∧
      (looseLibrary.apparentMembers loose).map (fun m => (m.name, m.member.start, m.optional)) =
        [("size", 79, true), ("label", 93, true), ("tone", 31, false)] := by
  obtain ⟨ms, hms, hmembers, -⟩ := apparentMembers_flattened (n := 5) (by decide) loose_nests
  obtain rfl : looseLibrary.flattenWithin 6 loose = ms := (hms _).mp ((flattens_iff loose_nests).mpr rfl)
  exact ⟨loose_nests, _, hms, by decide +kernel, hmembers, by decide +kernel⟩

end PatternCatalog.Library
