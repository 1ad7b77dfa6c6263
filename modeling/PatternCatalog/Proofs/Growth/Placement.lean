/-
  PatternCatalog.Proofs.Growth.Placement — a library inside a later version of it.

  Between two versions files come in another order, declarations move within their files and
  members move within the text. A `Placement` says where everything is afterwards, and a
  library grows into another (`Library.Grows`) when each declaration is still there and each
  type that occurs in it means what it meant; whatever else the later version declares does
  not matter. Following aliases then commutes with the placement (`resolveAlias_place`,
  `lastAlias?_place`).
-/

import PatternCatalog.Proofs.Labels.Library
import PatternCatalog.Proofs.Library.Members

namespace PatternCatalog

/-! ## Moved syntax -/

namespace TypeExpr

mutual

/-- A type whose members start elsewhere. -/
def moved (g : Nat → Nat) : TypeExpr → TypeExpr
  | .reference module name args => .reference module name (movedAll g args)
  | .union parts => .union (movedAll g parts)
  | .intersection parts => .intersection (movedAll g parts)
  | .array item => .array (item.moved g)
  | .function params returns => .function (movedParams g params) (returns.moved g)
  | .object members => .object (movedMembers g members)
  | .keyword k => .keyword k
  | .literal l => .literal l
  | .other => .other

def movedAll (g : Nat → Nat) : List TypeExpr → List TypeExpr
  | [] => []
  | t :: ts => t.moved g :: movedAll g ts

def movedParams (g : Nat → Nat) : List (ParamOf TypeExpr) → List (ParamOf TypeExpr)
  | [] => []
  | ⟨name, some t, optional⟩ :: ps => ⟨name, some (t.moved g), optional⟩ :: movedParams g ps
  | ⟨name, none, optional⟩ :: ps => ⟨name, none, optional⟩ :: movedParams g ps

def movedMembers (g : Nat → Nat) : List (MemberOf TypeExpr) → List (MemberOf TypeExpr)
  | [] => []
  | ⟨name, optional, some t, typeText, doc, start⟩ :: ms =>
    ⟨name, optional, some (t.moved g), typeText, doc, g start⟩ :: movedMembers g ms
  | ⟨name, optional, none, typeText, doc, start⟩ :: ms =>
    ⟨name, optional, none, typeText, doc, g start⟩ :: movedMembers g ms

end

end TypeExpr

def Param.moved (g : Nat → Nat) (p : Param) : Param := { p with type := p.type.map (TypeExpr.moved g) }

def Member.moved (g : Nat → Nat) (m : Member) : Member :=
  { m with type := m.type.map (TypeExpr.moved g), start := g m.start }

namespace TypeExpr

variable (g : Nat → Nat)

@[simp]
theorem movedAll_eq (ts : List TypeExpr) : movedAll g ts = ts.map (moved g) := by
  induction ts with
  | nil => rfl
  | cons t ts ih => rw [movedAll, ih, List.map_cons]

@[simp]
theorem movedParams_eq (ps : List Param) : movedParams g ps = ps.map (Param.moved g) := by
  induction ps with
  | nil => rfl
  | cons p ps ih => obtain ⟨name, _ | t, optional⟩ := p <;> rw [movedParams, ih, List.map_cons] <;> rfl

@[simp]
theorem movedMembers_eq (ms : List Member) : movedMembers g ms = ms.map (Member.moved g) := by
  induction ms with
  | nil => rfl
  | cons m ms ih =>
    obtain ⟨name, optional, _ | t, typeText, doc, start⟩ := m <;> rw [movedMembers, ih, List.map_cons] <;> rfl

/-- The label of a member that starts elsewhere. -/
def movedLabel (m : Member) : Label := ⟨g m.start, m.doc⟩

mutual

theorem moved_relabeled : (t : TypeExpr) → t.moved g = t.relabeled (movedLabel g)
  | .reference _ _ args => by rw [moved, relabeled, movedAll_relabeled args]
  | .union parts => by rw [moved, relabeled, movedAll_relabeled parts]
  | .intersection parts => by rw [moved, relabeled, movedAll_relabeled parts]
  | .array item => by rw [moved, relabeled, moved_relabeled item]
  | .function params returns => by rw [moved, relabeled, movedParams_relabeled params, moved_relabeled returns]
  | .object members => by rw [moved, relabeled, movedMembers_relabeled members]
  | .keyword _ | .literal _ | .other => rfl

theorem movedAll_relabeled : (ts : List TypeExpr) → movedAll g ts = relabeledAll (movedLabel g) ts
  | [] => rfl
  | t :: ts => by rw [movedAll, relabeledAll, moved_relabeled t, movedAll_relabeled ts]

theorem movedParams_relabeled : (ps : List (ParamOf TypeExpr)) → movedParams g ps = relabeledParams (movedLabel g) ps
  | [] => rfl
  | ⟨_, some t, _⟩ :: ps => by rw [movedParams, relabeledParams, moved_relabeled t, movedParams_relabeled ps]
  | ⟨_, none, _⟩ :: ps => by rw [movedParams, relabeledParams, movedParams_relabeled ps]

theorem movedMembers_relabeled : (ms : List (MemberOf TypeExpr)) → movedMembers g ms = relabeledMembers (movedLabel g) ms
  | [] => rfl
  | ⟨_, _, some t, _, _, _⟩ :: ms => by
    rw [movedMembers, relabeledMembers, moved_relabeled t, movedMembers_relabeled ms]
    rfl
  | ⟨_, _, none, _, _, _⟩ :: ms => by
    rw [movedMembers, relabeledMembers, movedMembers_relabeled ms]
    rfl

end

/-- To move a type is to give its members other labels, so what no label has a say in stays. -/
theorem moved_eq : moved g = relabeled (movedLabel g) := funext (moved_relabeled g)

theorem isNullish_moved (t : TypeExpr) : (t.moved g).isNullish = t.isNullish := by rw [moved_eq, isNullish_relabeled]

end TypeExpr

namespace DeclarationKind

def moved (g : Nat → Nat) : DeclarationKind → DeclarationKind
  | .interface parents members => .interface (parents.map (TypeExpr.moved g)) (members.map (Member.moved g))
  | .alias type => .alias (type.moved g)
  | .enum members => .enum members
  | .class parent => .class (parent.map (TypeExpr.moved g))
  | .function params returns => .function (params.map (Param.moved g)) (returns.map (TypeExpr.moved g))
  | .variable type => .variable (type.map (TypeExpr.moved g))

end DeclarationKind

/-! ## Placements -/

/-- Where the files of a library, their declarations and their members are in a later version. -/
structure Placement where
  file : Nat → Nat
  /-- In a file. -/
  index : Nat → Nat → Nat
  start : Nat → Nat → Nat
  file_inj : ∀ {f g}, file f = file g → f = g
  index_inj : ∀ {f i j}, index f i = index f j → i = j
  start_inj : ∀ {f n m}, start f n = start f m → n = m

namespace Placement

variable (P : Placement)

def key (k : DeclarationKey) : DeclarationKey := ⟨P.file k.file, P.index k.file k.index⟩

def memberKey (k : MemberKey) : MemberKey := ⟨P.file k.file, P.start k.file k.start⟩

def place (p : Library.Place) : Library.Place := ⟨P.file p.file, p.type.moved (P.start p.file)⟩

def memberRef (m : Library.MemberRef) : Library.MemberRef := ⟨P.file m.file, m.member.moved (P.start m.file), m.optional⟩

def symbol : Symbol → Symbol
  | .declaration k => .declaration (P.key k)
  | .namespace_ file => .namespace_ (P.file file)
  | .external module path => .external module path

variable {P}

theorem key_inj {k k' : DeclarationKey} (h : P.key k = P.key k') : k = k' := by
  obtain ⟨f, i⟩ := k
  obtain ⟨g, j⟩ := k'
  obtain ⟨hfile, hindex⟩ := DeclarationKey.mk.inj h
  obtain rfl := P.file_inj hfile
  obtain rfl := P.index_inj hindex
  rfl

theorem memberKey_inj {k k' : MemberKey} (h : P.memberKey k = P.memberKey k') : k = k' := by
  obtain ⟨f, n⟩ := k
  obtain ⟨g, m⟩ := k'
  obtain ⟨hfile, hstart⟩ := MemberKey.mk.inj h
  obtain rfl := P.file_inj hfile
  obtain rfl := P.start_inj hstart
  rfl

theorem memberRef_name (m : Library.MemberRef) : (P.memberRef m).name = m.name := rfl

end Placement

/-! ## Grown libraries -/

namespace Library

/-- One library inside another: its declarations are kept, and so is what the types in them mean. -/
structure Grows (P : Placement) (l l' : Library) : Prop where
  declared : ∀ key d, l.declaration? key = some d → ∃ d', l'.declaration? (P.key key) = some d' ∧
    d'.name = d.name ∧ d'.doc = d.doc ∧ d'.kind = d.kind.moved (P.start key.file)
  references : ∀ p, l.Mentions p →
    l'.reference? (P.place p).file (P.place p).type = (l.reference? p.file p.type).map P.symbol

variable {P : Placement} {l l' : Library}

theorem exists_file {key : DeclarationKey} {d : Declaration} (h : l.declaration? key = some d) :
    ∃ f, (f, key.file) ∈ l.files.zipIdx ∧ (d, key.index) ∈ f.module.declarations.zipIdx := by
  unfold declaration? moduleAt at h
  split at h
  · next f hf => exact ⟨f, List.mem_zipIdx_iff_getElem?.mpr hf, List.mem_zipIdx_iff_getElem?.mpr h⟩
  · cases h

theorem Mentions.exists_file {p : Place} (h : l.Mentions p) :
    ∃ f, (f, p.file) ∈ l.files.zipIdx ∧ p.type ∈ f.module.types := by
  unfold Mentions moduleAt at h
  split at h
  · next f hf => exact ⟨f, List.mem_zipIdx_iff_getElem?.mpr hf, h⟩
  · cases h

namespace Grows

/-- Whether a library has grown into another shows in the declarations and the types of its files. -/
theorem of_files
    (hdeclared : ∀ f ∈ l.files.zipIdx, ∀ d ∈ f.1.module.declarations.zipIdx,
      (l'.declaration? (P.key ⟨f.2, d.2⟩)).map (fun d' => (d'.name, d'.doc, d'.kind)) =
        some (d.1.name, d.1.doc, d.1.kind.moved (P.start f.2)))
    (hreferences : ∀ f ∈ l.files.zipIdx, ∀ t ∈ f.1.module.types,
      l'.reference? (P.file f.2) (t.moved (P.start f.2)) = (l.reference? f.2 t).map P.symbol) : Grows P l l' where
  declared key d hd := by
    obtain ⟨f, hf, hd⟩ := exists_file hd
    obtain ⟨d', hd', heq⟩ := Option.map_eq_some_iff.mp (hdeclared _ hf _ hd)
    obtain ⟨hname, hdoc, hkind⟩ : d'.name = d.name ∧ d'.doc = d.doc ∧ d'.kind = d.kind.moved (P.start key.file) := by
      simpa using heq
    exact ⟨d', hd', hname, hdoc, hkind⟩
  references p hp := by
    obtain ⟨f, hf, ht⟩ := hp.exists_file
    exact hreferences _ hf _ ht

variable (h : Grows P l l')

include h

theorem kind?_of_some {key : DeclarationKey} {k : DeclarationKind} (hk : l.kind? key = some k) :
    l'.kind? (P.key key) = some (k.moved (P.start key.file)) := by
  obtain ⟨d, hd, rfl⟩ := Option.map_eq_some_iff.mp hk
  obtain ⟨d', hd', -, -, hkind⟩ := h.declared key d hd
  rw [kind?, hd', Option.map_some, hkind]

/-- A type that refers to a declaration refers to the same declaration afterwards. -/
theorem reference?_kind {file : Nat} {type : TypeExpr} {key : DeclarationKey}
    (href : l.reference? file type = some (.declaration key)) :
    ∃ k, l.kind? key = some k ∧ l'.kind? (P.key key) = some (k.moved (P.start key.file)) := by
  obtain ⟨d, hd⟩ := reference?_exists href
  have hk : l.kind? key = some d.kind := by rw [kind?, hd, Option.map_some]
  exact ⟨d.kind, hk, h.kind?_of_some hk⟩

/-! ## Aliases -/

theorem aliasKey?_place {p : Place} (hp : l.Mentions p) : l'.aliasKey? (P.place p) = (l.aliasKey? p).map P.key := by
  rw [aliasKey?, aliasKey?, h.references p hp]
  rcases href : l.reference? p.file p.type with _ | _ | _ | _
  · rfl
  · next key =>
    obtain ⟨k, hk, hk'⟩ := h.reference?_kind href
    simp only [Option.map_some, Placement.symbol, hk, hk']
    cases k <;> rfl
  · rfl
  · rfl

theorem aliasTarget?_place {p : Place} (hp : l.Mentions p) :
    l'.aliasTarget? (P.place p) = (l.aliasTarget? p).map P.place := by
  rw [aliasTarget?, aliasTarget?, h.aliasKey?_place hp]
  cases hkey : l.aliasKey? p with
  | none => rfl
  | some key =>
    obtain ⟨type, hk⟩ := kind?_of_aliasKey? hkey
    simp only [Option.map_some, Option.bind_some, aliasBody?, hk, h.kind?_of_some hk]
    rfl

theorem followAliases_place (n : Nat) {p : Place} (hp : l.Mentions p) :
    l'.followAliases n (P.place p) = P.place (l.followAliases n p) := by
  induction n generalizing p with
  | zero => rfl
  | succ n ih =>
    rw [followAliases, followAliases, h.aliasTarget?_place hp]
    cases htarget : l.aliasTarget? p with
    | none => rfl
    | some q => exact ih (mentions_of_aliasTarget? htarget)

theorem resolveAlias_place {p : Place} (hp : l.Mentions p) : l'.resolveAlias (P.place p) = P.place (l.resolveAlias p) :=
  h.followAliases_place typeDepth hp

theorem lastAliasWithin?_place (n : Nat) {p : Place} (hp : l.Mentions p) :
    l'.lastAliasWithin? n (P.place p) = (l.lastAliasWithin? n p).map P.key := by
  induction n generalizing p with
  | zero => rfl
  | succ n ih =>
    rw [lastAliasWithin?, lastAliasWithin?, h.aliasTarget?_place hp]
    cases htarget : l.aliasTarget? p with
    | none => rfl
    | some q =>
      dsimp only [Option.map_some]
      rw [ih (mentions_of_aliasTarget? htarget), h.aliasKey?_place hp]
      cases l.lastAliasWithin? n q <;> rfl

theorem lastAlias?_place {p : Place} (hp : l.Mentions p) : l'.lastAlias? (P.place p) = (l.lastAlias? p).map P.key :=
  h.lastAliasWithin?_place typeDepth hp

end Grows

end Library

end PatternCatalog
