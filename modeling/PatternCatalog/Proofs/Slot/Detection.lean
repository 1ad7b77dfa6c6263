/-
  PatternCatalog.Proofs.Slot.Detection — how much content a type takes, by its leaves.

  A type is read through unions, lists and one alias of the library down to its leaves. A list
  is written `X[]`, or as a reference to `Array` or `ReadonlyArray` that the library does not
  declare; a reference by the name of a type of content is a leaf, however it is called (`form`).
  - `quantityOf_counts`: a union takes what some part takes, a list takes several of what its
    item takes.
  - `quantity_counts_leaves`: a type takes content just when a leaf is a type of content, and
    several pieces just when one such leaf lies in a list. Order, grouping and repetition of the
    parts of unions make no difference, and neither does a nullish part.

  A member with a `@slot` tag takes content whatever its type, and several pieces when it is
  written `X[]`; the other spellings of a list are forgotten there.
  - `one_list_iff`: the spellings of a list are one exactly when none is itself the name of a type
    of content, and the member is not tagged or its item takes content.
  - `a_tagged_list_may_take_one`: `Array<string>` with a tag takes one piece of content.
-/

import PatternCatalog.Proofs.Library.Symbol
import PatternCatalog.Slot.Detection

namespace PatternCatalog

/-! ## Quantities -/

namespace SlotQuantity

/-- What a quantity says: whether something takes content, in a list or outside. -/
structure Counts (q : Option SlotQuantity) (takes : Bool → Prop) : Prop where
  isSome : q.isSome ↔ ∃ listed, takes listed
  multiple : q = some .multiple ↔ takes true

variable {q q' : Option SlotQuantity} {takes takes' : Bool → Prop}

theorem Counts.congr (h : Counts q takes) (htakes : ∀ listed, takes' listed ↔ takes listed) : Counts q takes' := by
  obtain rfl : takes' = takes := funext fun listed => propext (htakes listed)
  exact h

theorem Counts.unique (h : Counts q takes) (h' : Counts q' takes) : q = q' := by
  have hsome := h.isSome.trans h'.isSome.symm
  have hmultiple := h.multiple.trans h'.multiple.symm
  rcases q with _ | _ | _ <;> rcases q' with _ | _ | _ <;> simp_all

theorem counts_none (h : ∀ listed, ¬ takes listed) : Counts none takes := by
  constructor <;> simp [h]

theorem counts_single (h : ∀ listed, takes listed ↔ listed = false) : Counts (some .single) takes := by
  constructor <;> simp [h]

theorem Counts.several (h : Counts q takes) : Counts (several q) fun listed => listed = true ∧ ∃ any, takes any := by
  constructor
  · simp [SlotQuantity.several, h.isSome]
  · rw [← h.isSome]
    cases q <;> simp [SlotQuantity.several]

theorem Counts.most (h : Counts q takes) (h' : Counts q' takes') :
    Counts (most q q') fun listed => takes listed ∨ takes' listed := by
  constructor
  · rw [exists_or, ← h.isSome, ← h'.isSome]
    rcases q with _ | _ | _ <;> rcases q' with _ | _ | _ <;> simp [SlotQuantity.most]
  · rw [← h.multiple, ← h'.multiple]
    rcases q with _ | _ | _ <;> rcases q' with _ | _ | _ <;> simp [SlotQuantity.most]

end SlotQuantity

namespace Slot

open Library (MemberRef Place)
open SlotQuantity (Counts)

/-! ## Leaves -/

/-- How a type is read. -/
inductive Form where
  | union (parts : List TypeExpr)
  | list (item : TypeExpr)
  | standsFor (body : Place)
  | leaf

def form (l : Library) (o : Options) (p : Place) : Form :=
  match p.type with
  | .union parts => .union parts
  | .array item => .list item
  | .reference _ name args =>
    if o.isSlotType name then .leaf
    else
      match l.aliasTarget? p with
      | some body => .standsFor body
      | none =>
        match args with
        | [item] => if isListName name && !isDeclaration (l.reference? p.file p.type) then .list item else .leaf
        | _ => .leaf
  | _ => .leaf

/-- A leaf of a type, and whether it lies in a list, with so many aliases opened on the way. -/
inductive Leaf (l : Library) (o : Options) : Nat → Place → Bool → Place → Prop
  | self {n p} (h : form l o p = .leaf) : Leaf l o n p false p
  | closed {p body} (h : form l o p = .standsFor body) : Leaf l o 0 p false p
  | opened {n p body listed r} (h : form l o p = .standsFor body) (hr : Leaf l o n body listed r) : Leaf l o (n + 1) p listed r
  | part {n p parts part listed r} (h : form l o p = .union parts) (hpart : part ∈ parts)
      (hr : Leaf l o n ⟨p.file, part⟩ listed r) : Leaf l o n p listed r
  | item {n p item listed r} (h : form l o p = .list item) (hr : Leaf l o n ⟨p.file, item⟩ listed r) : Leaf l o n p true r

/-- A type of content, by the name it is written with or by the name it has outside the library. -/
inductive IsContent (l : Library) (o : Options) : Place → Prop
  | written {file module name args} (h : o.isSlotType name = true) : IsContent l o ⟨file, .reference module name args⟩
  | resolved {file module name args source path}
      (hsymbol : l.reference? file (.reference module name args) = some (.external source path))
      (h : o.isSlotType path = true) : IsContent l o ⟨file, .reference module name args⟩

/-- Whether a type takes content, in a list or outside. -/
def Takes (l : Library) (o : Options) (n : Nat) (p : Place) (listed : Bool) : Prop :=
  ∃ r, Leaf l o n p listed r ∧ r.type.isNullish = false ∧ IsContent l o r

variable {l : Library} {o : Options} {n : Nat} {p q : Place} {file : Nat} {listed : Bool}

/-- The leaves of a type, by how it is read. -/
theorem leaf_iff {r : Place} : Leaf l o n p listed r ↔
    match form l o p, n with
    | .leaf, _ | .standsFor _, 0 => listed = false ∧ r = p
    | .standsFor body, n + 1 => Leaf l o n body listed r
    | .union parts, n => ∃ part ∈ parts, Leaf l o n ⟨p.file, part⟩ listed r
    | .list item, n => listed = true ∧ ∃ any, Leaf l o n ⟨p.file, item⟩ any r := by
  constructor
  · intro hr
    cases hr with
    | self h | closed h => rw [h]; exact ⟨rfl, rfl⟩
    | opened h hr => rw [h]; exact hr
    | part h hpart hr => rw [h]; exact ⟨_, hpart, hr⟩
    | item h hr => rw [h]; exact ⟨rfl, _, hr⟩
  · intro hr
    split at hr
    · next h => obtain ⟨rfl, rfl⟩ := hr; exact .self h
    · next h => obtain ⟨rfl, rfl⟩ := hr; exact .closed h
    · next h => exact .opened h hr
    · next h => obtain ⟨part, hpart, hr⟩ := hr; exact .part h hpart hr
    · next h => obtain ⟨rfl, any, hr⟩ := hr; exact .item h hr

theorem takes_leaf (h : form l o p = .leaf) : Takes l o n p listed ↔ listed = false ∧ p.type.isNullish = false ∧ IsContent l o p := by
  simp [Takes, leaf_iff, h, and_assoc]

theorem takes_opened {body : Place} (h : form l o p = .standsFor body) : Takes l o (n + 1) p listed ↔ Takes l o n body listed := by
  simp only [Takes, leaf_iff (p := p), h]

theorem takes_union {parts : List TypeExpr} (h : form l o p = .union parts) :
    Takes l o n p listed ↔ ∃ part ∈ parts, Takes l o n ⟨p.file, part⟩ listed := by
  simp only [Takes, leaf_iff (p := p), h]
  grind

theorem takes_list {item : TypeExpr} (h : form l o p = .list item) :
    Takes l o n p listed ↔ listed = true ∧ ∃ any, Takes l o n ⟨p.file, item⟩ any := by
  simp only [Takes, leaf_iff (p := p), h]
  grind

/-- An alias is no type of content by another name, so it takes nothing unless it is opened. -/
theorem not_takes_closed {body : Place} (h : form l o p = .standsFor body) : ¬ Takes l o 0 p listed := by
  rintro ⟨r, hr, -, hcontent⟩
  rw [leaf_iff, h] at hr
  obtain ⟨-, rfl⟩ := hr
  cases hcontent with
  | written hname => simp [form, hname] at h
  | resolved hsymbol hpath =>
    simp only [form, Library.aliasTarget?, Library.aliasKey?, hsymbol, Option.bind_none] at h
    repeat' split at h
    all_goals cases h

/-! ## Types by their leaves -/

/-- What the quantity of a reference to a declaration counts, when it is not written with the name of a type of content. -/
def CountsAliases (l : Library) (o : Options) (n : Nat) (onAlias : Place → Option SlotQuantity) : Prop :=
  ∀ p, (∃ module name args, p.type = .reference module name args ∧ o.isSlotType name = false) →
    isDeclaration (l.reference? p.file p.type) = true → Counts (onAlias p) (Takes l o n p)

theorem form_of_nullish (h : p.type.isNullish = true) : form l o p = .leaf := by
  unfold TypeExpr.isNullish at h
  split at h
  · next htype => simp [form, htype]
  · next htype => simp [form, htype]
  · cases h

theorem not_takes_nullish (h : p.type.isNullish = true) : ¬ Takes l o n p listed := by
  rw [takes_leaf (form_of_nullish h), h]
  simp

theorem not_takes_plain (h : form l o p = .leaf) (hplain : ∀ module name args, p.type ≠ .reference module name args) :
    ¬ Takes l o n p listed := by
  rw [takes_leaf h]
  rintro ⟨-, -, hcontent⟩
  cases hcontent with
  | written _ | resolved _ _ => exact hplain _ _ _ rfl

theorem eq_declaration {symbol : Option Symbol} (h : isDeclaration symbol = true) : ∃ key, symbol = some (.declaration key) := by
  unfold isDeclaration at h
  split at h
  · exact ⟨_, rfl⟩
  · cases h

theorem aliasTarget?_of_not_declaration (h : isDeclaration (l.reference? p.file p.type) = false) : l.aliasTarget? p = none := by
  have hkey : l.aliasKey? p = none := by
    unfold Library.aliasKey?
    split
    · next hsymbol =>
      rw [hsymbol] at h
      cases h
    · rfl
  rw [Library.aliasTarget?, hkey]
  rfl

/-- A reference out of the library takes one piece of content or nothing. -/
theorem symbolQuantity_counts {module : Option String} {name : List String} {args : List TypeExpr} {q : Option SlotQuantity}
    (hform : form l o ⟨file, .reference module name args⟩ = .leaf) (hname : o.isSlotType name = false)
    (hdeclared : isDeclaration (l.reference? file (.reference module name args)) = false) :
    Counts (symbolQuantity o q (l.reference? file (.reference module name args)))
      (Takes l o n ⟨file, .reference module name args⟩) := by
  have hcontent : IsContent l o ⟨file, .reference module name args⟩ ↔ ∃ source path,
      l.reference? file (.reference module name args) = some (.external source path) ∧ o.isSlotType path = true := by
    constructor
    · intro h
      cases h with
      | written h => rw [hname] at h; cases h
      | resolved hsymbol h => exact ⟨_, _, hsymbol, h⟩
    · rintro ⟨source, path, hsymbol, h⟩
      exact .resolved hsymbol h
  have htakes : ∀ listed, Takes l o n ⟨file, .reference module name args⟩ listed ↔ listed = false ∧ ∃ source path,
      l.reference? file (.reference module name args) = some (.external source path) ∧ o.isSlotType path = true := by
    intro listed
    rw [takes_leaf hform, hcontent]
    exact and_congr_right fun _ => and_iff_right rfl
  refine Counts.congr ?_ htakes
  generalize l.reference? file (.reference module name args) = symbol at hdeclared
  rcases symbol with _ | key | target | ⟨source, path⟩
  · exact SlotQuantity.counts_none (by simp)
  · cases hdeclared
  · exact SlotQuantity.counts_none (by simp)
  · cases hpath : o.isSlotType path with
    | true =>
      simp only [symbolQuantity, hpath, if_true]
      exact SlotQuantity.counts_single fun listed => and_iff_left ⟨source, path, rfl, hpath⟩
    | false =>
      simp only [symbolQuantity, hpath, Bool.false_eq_true, if_false]
      exact SlotQuantity.counts_none (by simp [hpath])

section References

variable {onAlias : Place → Option SlotQuantity} {module : Option String} {name : List String} {args : List TypeExpr}
  (hargs : Counts (quantityOfAny l o onAlias file args) fun listed => ∃ t ∈ args, Takes l o n ⟨file, t⟩ listed)

include hargs

/-- A reference that the library does not declare counts as a list, or by what it means outside. -/
theorem undeclared_counts (hname : o.isSlotType name = false)
    (hdeclared : isDeclaration (l.reference? file (.reference module name args)) = false) (q : Option SlotQuantity) :
    Counts
      (if isListName name && args.length == 1 then SlotQuantity.several (quantityOfAny l o onAlias file args)
        else symbolQuantity o q (l.reference? file (.reference module name args)))
      (Takes l o n ⟨file, .reference module name args⟩) := by
  have htarget := aliasTarget?_of_not_declaration (p := ⟨file, .reference module name args⟩) hdeclared
  by_cases hlist : isListName name = true ∧ ∃ item, args = [item]
  · obtain ⟨hlist, item, rfl⟩ := hlist
    have hform : form l o ⟨file, .reference module name [item]⟩ = .list item := by
      simp [form, hname, htarget, hlist, hdeclared]
    rw [if_pos (by simp [hlist])]
    refine hargs.several.congr fun listed => ?_
    rw [takes_list hform]
    simp
  · have hform : form l o ⟨file, .reference module name args⟩ = .leaf := by
      rcases args with _ | ⟨item, _ | ⟨second, rest⟩⟩ <;> simp_all [form]
    have hone : (isListName name && args.length == 1) = false := by
      rcases args with _ | ⟨item, _ | ⟨second, rest⟩⟩ <;> simp_all
    rw [if_neg (by simp [hone])]
    exact symbolQuantity_counts hform hname hdeclared

theorem reference_counts (hon : CountsAliases l o n onAlias) :
    Counts (quantityOf l o onAlias file (.reference module name args)) (Takes l o n ⟨file, .reference module name args⟩) := by
  rw [quantityOf]
  cases hname : o.isSlotType name with
  | true =>
    have hform : form l o ⟨file, .reference module name args⟩ = .leaf := by simp [form, hname]
    refine SlotQuantity.counts_single fun listed => ?_
    rw [takes_leaf hform]
    exact and_iff_left ⟨rfl, .written hname⟩
  | false =>
    cases hdeclared : isDeclaration (l.reference? file (.reference module name args)) with
    | true =>
      have hcounts := hon ⟨file, .reference module name args⟩ ⟨module, name, args, rfl, hname⟩ hdeclared
      obtain ⟨key, hkey⟩ := eq_declaration hdeclared
      simpa [hkey, isDeclaration, symbolQuantity] using hcounts
    | false =>
      have hcounts := undeclared_counts hargs hname hdeclared (onAlias ⟨file, .reference module name args⟩)
      simpa only [Bool.false_eq_true, if_false, Bool.not_false, Bool.true_and] using hcounts

end References

mutual

/-- The quantity of a type counts its leaves. -/
theorem quantityOf_counts {onAlias : Place → Option SlotQuantity} (hon : CountsAliases l o n onAlias) :
    (t : TypeExpr) → Counts (quantityOf l o onAlias file t) (Takes l o n ⟨file, t⟩)
  | .array item => by
    rw [quantityOf]
    exact (quantityOf_counts hon item).several.congr fun listed => takes_list rfl
  | .union parts => by
    rw [quantityOf]
    exact (quantityOfAny_counts hon parts).congr fun listed => takes_union rfl
  | .reference _ _ args => reference_counts (quantityOfAny_counts hon args) hon
  | .keyword _ | .literal _ | .intersection _ | .function _ _ | .object _ | .other => by
    simp only [quantityOf]
    exact SlotQuantity.counts_none fun listed => not_takes_plain rfl (by simp)

theorem quantityOfAny_counts {onAlias : Place → Option SlotQuantity} (hon : CountsAliases l o n onAlias) :
    (ts : List TypeExpr) →
    Counts (quantityOfAny l o onAlias file ts) fun listed => ∃ t ∈ ts, Takes l o n ⟨file, t⟩ listed
  | [] => by
    rw [quantityOfAny]
    exact SlotQuantity.counts_none (by simp)
  | t :: ts => by
    rw [quantityOfAny]
    have hrest := quantityOfAny_counts hon ts
    split
    · next hnullish =>
      refine hrest.congr fun listed => ?_
      simp [not_takes_nullish (p := ⟨file, t⟩) hnullish]
    · exact ((quantityOf_counts hon t).most hrest).congr fun listed => by simp

end

theorem form_of_declaration (hname : ∃ module name args, p.type = .reference module name args ∧ o.isSlotType name = false)
    (hdeclared : isDeclaration (l.reference? p.file p.type) = true) :
    form l o p = ((l.aliasTarget? p).map Form.standsFor).getD .leaf := by
  obtain ⟨module, name, args, htype, hname⟩ := hname
  rw [htype] at hdeclared
  cases htarget : l.aliasTarget? p with
  | some body => simp [form, htype, hname, htarget]
  | none => rcases args with _ | ⟨item, _ | ⟨second, rest⟩⟩ <;> simp [form, htype, hname, htarget, hdeclared]

/-- A declaration of the library that is no alias takes no content. -/
theorem not_takes_declaration (hname : ∃ module name args, p.type = .reference module name args ∧ o.isSlotType name = false)
    (hdeclared : isDeclaration (l.reference? p.file p.type) = true) (hform : form l o p = .leaf) : ¬ Takes l o n p listed := by
  rw [takes_leaf hform]
  obtain ⟨module, name, args, htype, hname⟩ := hname
  obtain ⟨key, hkey⟩ := eq_declaration hdeclared
  rintro ⟨-, -, hcontent⟩
  cases hcontent with
  | written h =>
    cases htype
    rw [hname] at h
    cases h
  | resolved hsymbol h =>
    rw [hkey] at hsymbol
    cases hsymbol

/-- The quantity of a type, with some aliases opened on the way, counts its leaves. -/
theorem quantityWithin_counts (n : Nat) (p : Place) : Counts (quantityWithin l o n p) (Takes l o n p) := by
  induction n generalizing p with
  | zero =>
    rw [quantityWithin]
    refine quantityOf_counts (fun q hname hdeclared => SlotQuantity.counts_none fun listed => ?_) p.type
    have hform := form_of_declaration hname hdeclared
    cases htarget : l.aliasTarget? q with
    | none => exact not_takes_declaration hname hdeclared (by rw [hform, htarget]; rfl)
    | some body => exact not_takes_closed (by rw [hform, htarget]; rfl)
  | succ n ih =>
    rw [quantityWithin]
    refine quantityOf_counts (fun q hname hdeclared => ?_) p.type
    have hform := form_of_declaration hname hdeclared
    cases htarget : l.aliasTarget? q with
    | none =>
      refine SlotQuantity.counts_none fun listed => ?_
      exact not_takes_declaration hname hdeclared (by rw [hform, htarget]; rfl)
    | some body => exact (ih body).congr fun listed => takes_opened (by rw [hform, htarget]; rfl)

/-! ## Unions in another order -/

/-- A type with the parts of its unions ordered, grouped and repeated in another way, and nullish
parts added or left out, at any depth of unions and lists. -/
inductive Regrouped : TypeExpr → TypeExpr → Prop
  | refl {t} : Regrouped t t
  | symm {t u} (h : Regrouped t u) : Regrouped u t
  | trans {t u v} (h : Regrouped t u) (h' : Regrouped u v) : Regrouped t v
  | ordered {parts parts'} (h : parts.Perm parts') : Regrouped (.union parts) (.union parts')
  | grouped {inner parts} : Regrouped (.union (.union inner :: parts)) (.union (inner ++ parts))
  | alone {t} : Regrouped (.union [t]) t
  | repeated {t parts} (h : t ∈ parts) : Regrouped (.union (t :: parts)) (.union parts)
  | nullish {t parts} (h : t.isNullish = true) : Regrouped (.union (t :: parts)) (.union parts)
  | part {t u parts} (h : Regrouped t u) : Regrouped (.union (t :: parts)) (.union (u :: parts))
  | item {t u} (h : Regrouped t u) : Regrouped (.array t) (.array u)
  | argument {module name t u} (h : Regrouped t u) : Regrouped (.reference module name [t]) (.reference module name [u])

theorem aliasTarget?_arguments (module : Option String) (name : List String) (args args' : List TypeExpr) :
    l.aliasTarget? ⟨file, .reference module name args⟩ = l.aliasTarget? ⟨file, .reference module name args'⟩ := by
  simp only [Library.aliasTarget?, Library.aliasKey?, Library.reference?_arguments file module name args args']

theorem isContent_arguments {module : Option String} {name : List String} {args : List TypeExpr} (args' : List TypeExpr)
    (h : IsContent l o ⟨file, .reference module name args⟩) : IsContent l o ⟨file, .reference module name args'⟩ := by
  cases h with
  | written h => exact .written h
  | resolved hsymbol h => exact .resolved ((Library.reference?_arguments file module name args' args).trans hsymbol) h

/-- Types that are read in the same way take the same, if they are types of content alike. -/
theorem takes_congr (hform : form l o p = form l o q) (hfile : p.file = q.file)
    (hcontent : p.type.isNullish = false ∧ IsContent l o p ↔ q.type.isNullish = false ∧ IsContent l o q) :
    Takes l o n p listed ↔ Takes l o n q listed := by
  cases hq : form l o q with
  | leaf => rw [takes_leaf (hform.trans hq), takes_leaf hq, hcontent]
  | union parts => rw [takes_union (hform.trans hq), takes_union hq, hfile]
  | list item => rw [takes_list (hform.trans hq), takes_list hq, hfile]
  | standsFor body =>
    cases n with
    | zero => exact iff_of_false (not_takes_closed (hform.trans hq)) (not_takes_closed hq)
    | succ n => rw [takes_opened (hform.trans hq), takes_opened hq]

theorem takes_argument {module : Option String} {name : List String} {t u : TypeExpr}
    (h : ∀ listed, Takes l o n ⟨file, t⟩ listed ↔ Takes l o n ⟨file, u⟩ listed) :
    Takes l o n ⟨file, .reference module name [t]⟩ listed ↔ Takes l o n ⟨file, .reference module name [u]⟩ listed := by
  have hsymbol : l.reference? file (.reference module name [t]) = l.reference? file (.reference module name [u]) :=
    Library.reference?_arguments file module name [t] [u]
  have htarget : l.aliasTarget? ⟨file, .reference module name [t]⟩ = l.aliasTarget? ⟨file, .reference module name [u]⟩ :=
    aliasTarget?_arguments module name [t] [u]
  have hform : form l o ⟨file, .reference module name [t]⟩ = form l o ⟨file, .reference module name [u]⟩ ∨
      form l o ⟨file, .reference module name [t]⟩ = .list t ∧ form l o ⟨file, .reference module name [u]⟩ = .list u := by
    simp only [form, hsymbol, htarget]
    repeat' split
    all_goals simp
  rcases hform with hform | ⟨ht, hu⟩
  · exact takes_congr hform rfl (and_congr_right fun _ => ⟨isContent_arguments [u], isContent_arguments [t]⟩)
  · rw [takes_list ht, takes_list hu]
    exact and_congr_right fun _ => exists_congr h

/-- Regrouped types have the same leaves, as far as these take content. -/
theorem Regrouped.takes {t u : TypeExpr} (h : Regrouped t u) (listed : Bool) :
    Takes l o n ⟨file, t⟩ listed ↔ Takes l o n ⟨file, u⟩ listed := by
  induction h generalizing listed with
  | refl => rfl
  | symm _ ih => exact (ih listed).symm
  | trans _ _ ih ih' => exact (ih listed).trans (ih' listed)
  | ordered h =>
    rw [takes_union rfl, takes_union rfl]
    exact exists_congr fun part => and_congr_left fun _ => h.mem_iff
  | @grouped inner parts =>
    have hinner : Takes l o n ⟨file, .union inner⟩ listed ↔ ∃ part ∈ inner, Takes l o n ⟨file, part⟩ listed := takes_union rfl
    rw [takes_union rfl, takes_union rfl]
    simp [hinner, or_and_right, exists_or]
  | alone =>
    rw [takes_union rfl]
    simp
  | @repeated t parts hmem =>
    rw [takes_union rfl, takes_union rfl]
    refine exists_congr fun part => and_congr_left fun _ => ?_
    rw [List.mem_cons, or_iff_right_of_imp]
    rintro rfl
    exact hmem
  | @nullish t parts hnullish =>
    rw [takes_union rfl, takes_union rfl]
    simp [not_takes_nullish (p := ⟨file, t⟩) hnullish]
  | part _ ih =>
    rw [takes_union rfl, takes_union rfl]
    simp [ih]
  | item _ ih =>
    rw [takes_list rfl, takes_list rfl]
    exact and_congr_right fun _ => exists_congr ih
  | argument _ ih => exact takes_argument ih

/-- A type takes content just when a leaf that is not nullish is a type of content, and several
pieces just when such a leaf lies in a list; and regrouped types take the same. -/
theorem quantity_counts_leaves (l : Library) (o : Options) (p : Place) :
    ((quantityWithin l o aliasDepth p).isSome ↔
      ∃ listed r, Leaf l o aliasDepth p listed r ∧ r.type.isNullish = false ∧ IsContent l o r) ∧
    (quantityWithin l o aliasDepth p = some .multiple ↔
      ∃ r, Leaf l o aliasDepth p true r ∧ r.type.isNullish = false ∧ IsContent l o r) ∧
    ∀ t u, Regrouped t u → quantityWithin l o aliasDepth ⟨p.file, t⟩ = quantityWithin l o aliasDepth ⟨p.file, u⟩ := by
  have hcounts := quantityWithin_counts (l := l) (o := o) aliasDepth p
  refine ⟨hcounts.isSome, hcounts.multiple, fun t u h => ?_⟩
  exact (quantityWithin_counts aliasDepth ⟨p.file, t⟩).unique
    ((quantityWithin_counts aliasDepth ⟨p.file, u⟩).congr h.takes)

/-- A file that imports `ReactNode` as `Content`. -/
def contentLibrary : Library :=
  .ofFiles ⟨"/lib"⟩ none [".d.ts"] [⟨⟨"/lib/index.d.ts"⟩, { imports := [⟨"Content", "react", .named "ReactNode"⟩] }⟩]

/-- `Content | null`. -/
def contentOrNull : TypeExpr := .union [.reference none ["Content"] [], .keyword .null]

/-- `string | Array<Content | null>`. -/
def listOrText : TypeExpr := .union [.keyword .string, .reference none ["Array"] [contentOrNull]]

theorem leaf_listOrText : Leaf contentLibrary {} aliasDepth ⟨0, listOrText⟩ true ⟨0, .reference none ["Content"] []⟩ := by
  have hcontent : Leaf contentLibrary {} aliasDepth ⟨0, .reference none ["Content"] []⟩ false _ := .self rfl
  have horNull : Leaf contentLibrary {} aliasDepth ⟨0, contentOrNull⟩ false _ := .part rfl (.head _) hcontent
  have hlist : Leaf contentLibrary {} aliasDepth ⟨0, .reference none ["Array"] [contentOrNull]⟩ true _ := .item rfl horNull
  exact .part rfl (.tail _ (.head _)) hlist

/-- The list takes several pieces of content, by the name that its item has outside the library;
`null | ReactNode` takes one, as the node itself; and a set of nodes is neither node nor list. -/
theorem nodes_in_lists_and_unions :
    quantityWithin contentLibrary {} aliasDepth ⟨0, listOrText⟩ = some .multiple ∧
    quantityWithin contentLibrary {} aliasDepth ⟨0, .union [.keyword .null, .reference none ["ReactNode"] []]⟩ = some .single ∧
    quantityWithin contentLibrary {} aliasDepth ⟨0, .reference none ["Set"] [.reference none ["ReactNode"] []]⟩ = none := by
  have hlist := quantity_counts_leaves contentLibrary {} ⟨0, listOrText⟩
  have hset := quantity_counts_leaves contentLibrary {} ⟨0, .reference none ["Set"] [.reference none ["ReactNode"] []]⟩
  have hsymbol : contentLibrary.reference? 0 (.reference none ["Content"] []) = some (.external "react" ["ReactNode"]) := rfl
  have hnode : Regrouped (.union [.keyword .null, .reference none ["ReactNode"] []]) (.reference none ["ReactNode"] []) :=
    .trans (.nullish rfl) .alone
  refine ⟨hlist.2.1.mpr ⟨_, leaf_listOrText, rfl, .resolved hsymbol (by decide +kernel)⟩, (hlist.2.2 _ _ hnode).trans rfl, ?_⟩
  rw [← Option.not_isSome_iff_eq_none, hset.1]
  rintro ⟨listed, r, hleaf, -, hcontent⟩
  rw [leaf_iff] at hleaf
  obtain ⟨-, rfl⟩ := hleaf
  cases hcontent with
  | written h => cases h
  | resolved h _ => cases h

/-! ## Lists in their spellings -/

/-- A list of items of a type, as it can be written. -/
def spellings (x : TypeExpr) : List TypeExpr :=
  [.array x, .reference none ["Array"] [x], .reference none ["ReadonlyArray"] [x]]

/-- The same member with another type. -/
def withType (m : MemberRef) (t : TypeExpr) : MemberRef := { m with member := { m.member with type := some t } }

/-- Whether the declarations of the library leave a type name to others. -/
def Undeclared (l : Library) (file : Nat) (name : String) : Prop := ∀ key, l.local? file name .type ≠ some (.declaration key)

theorem quantityOfAny_singleton (onAlias : Place → Option SlotQuantity) (t : TypeExpr) :
    quantityOfAny l o onAlias file [t] = quantityOf l o onAlias file t := by
  rw [quantityOfAny, quantityOfAny]
  split
  · next hnullish =>
    unfold TypeExpr.isNullish at hnullish
    split at hnullish
    · rfl
    · rfl
    · cases hnullish
  · rcases quantityOf l o onAlias file t with _ | _ | _ <;> rfl

theorem quantityWithin_array (x : TypeExpr) :
    quantityWithin l o aliasDepth ⟨file, .array x⟩ = SlotQuantity.several (quantityWithin l o aliasDepth ⟨file, x⟩) := by
  simp only [quantityWithin, aliasDepth, quantityOf]

theorem quantityWithin_list {name : String} (hlist : isListName [name] = true) (hname : Undeclared l file name) (x : TypeExpr) :
    quantityWithin l o aliasDepth ⟨file, .reference none [name] [x]⟩ =
      if o.isSlotType [name] then some .single else SlotQuantity.several (quantityWithin l o aliasDepth ⟨file, x⟩) := by
  have hdeclared : isDeclaration (l.reference? file (.reference none [name] [x])) = false := by
    rw [Bool.eq_false_iff]
    intro h
    obtain ⟨key, hkey⟩ := eq_declaration h
    refine hname key ?_
    simpa [Library.reference?, Library.qualified?] using hkey
  simp only [quantityWithin, aliasDepth, quantityOf, hdeclared, hlist, quantityOfAny_singleton]
  simp

section Spellings

variable {m : MemberRef} (doc : Doc.Comment) (x : TypeExpr)

theorem detect?_array : detect? l o (withType m (.array x)) doc =
    if doc.hasTag "slot" then some .multiple
    else SlotQuantity.several (quantityWithin l o aliasDepth ⟨m.file, x⟩) := by
  simp only [detect?, withType, Option.bind_some, quantityWithin_array, isUnconstrained, Bool.false_eq_true, and_false, if_false]
  cases quantityWithin l o aliasDepth ⟨m.file, x⟩ <;> rfl

theorem detect?_list {name : String} (hlist : isListName [name] = true) (hname : Undeclared l m.file name) :
    detect? l o (withType m (.reference none [name] [x])) doc =
      if o.isSlotType [name] then some .single
      else if doc.hasTag "slot" then some ((SlotQuantity.several (quantityWithin l o aliasDepth ⟨m.file, x⟩)).getD .single)
      else SlotQuantity.several (quantityWithin l o aliasDepth ⟨m.file, x⟩) := by
  simp only [detect?, withType, Option.bind_some, quantityWithin_list hlist hname, isUnconstrained, Bool.false_eq_true,
    and_false, if_false]
  cases o.isSlotType [name] <;> cases doc.hasTag "slot" <;> cases quantityWithin l o aliasDepth ⟨m.file, x⟩ <;> rfl

/-- Where the library declares neither name, the spellings of a list take the same, and several
pieces if any, exactly when neither name is that of a type of content, and a member with a
`@slot` tag has items that take content by their type. -/
theorem one_list_iff (hArray : Undeclared l m.file "Array") (hReadonly : Undeclared l m.file "ReadonlyArray") :
    ((∀ t ∈ spellings x, ∀ u ∈ spellings x, detect? l o (withType m t) doc = detect? l o (withType m u) doc) ∧
      ∀ t ∈ spellings x, ∀ q, detect? l o (withType m t) doc = some q → q = .multiple) ↔
    o.isSlotType ["Array"] = false ∧ o.isSlotType ["ReadonlyArray"] = false ∧
      (doc.hasTag "slot" = true → (quantityWithin l o aliasDepth ⟨m.file, x⟩).isSome) := by
  have hArray := detect?_list (o := o) doc x (by decide) hArray
  have hReadonly := detect?_list (o := o) doc x (by decide) hReadonly
  simp only [spellings, List.forall_mem_cons, detect?_array, hArray, hReadonly]
  cases o.isSlotType ["Array"] <;> cases o.isSlotType ["ReadonlyArray"] <;> cases doc.hasTag "slot" <;>
    cases quantityWithin l o aliasDepth ⟨m.file, x⟩ <;> simp [SlotQuantity.several]

end Spellings

/-! ## A tagged list -/

/-- A file that declares nothing. -/
def emptyLibrary : Library := .ofFiles ⟨"/lib"⟩ none [".d.ts"] [⟨⟨"/lib/index.d.ts"⟩, {}⟩]

/-- The member `items`, as yet without a type. -/
def items : MemberRef := ⟨0, ⟨"items", false, none, "", none, 0⟩, false⟩

def taggedDoc : Doc.Comment := Doc.parse? (some "* @slot ")

theorem undeclared_emptyLibrary {name : String} : Undeclared emptyLibrary 0 name := by
  intro key h
  simp [Library.local?, Library.localSearch, Library.declared?, Library.moduleAt, emptyLibrary, Library.ofFiles,
    Library.Search.nothing] at h

/-- A list of nodes takes several pieces of content in all its spellings. -/
theorem lists_of_nodes_are_one : Undeclared emptyLibrary 0 "Array" ∧ Undeclared emptyLibrary 0 "ReadonlyArray" ∧
    (∀ t ∈ spellings (.reference none ["ReactNode"] []), ∀ u ∈ spellings (.reference none ["ReactNode"] []),
      detect? emptyLibrary {} (withType items t) taggedDoc = detect? emptyLibrary {} (withType items u) taggedDoc) ∧
    ∀ t ∈ spellings (.reference none ["ReactNode"] []), ∀ q,
      detect? emptyLibrary {} (withType items t) taggedDoc = some q → q = .multiple := by
  have hlists := one_list_iff (o := {}) (m := items) taggedDoc (.reference none ["ReactNode"] [])
    undeclared_emptyLibrary undeclared_emptyLibrary
  exact ⟨undeclared_emptyLibrary, undeclared_emptyLibrary,
    hlists.mpr ⟨by decide +kernel, by decide +kernel, fun _ => by decide +kernel⟩⟩

/-- A tag makes several pieces of content of `string[]`, but one of `Array<string>`. -/
theorem a_tagged_list_may_take_one : Undeclared emptyLibrary 0 "Array" ∧ Undeclared emptyLibrary 0 "ReadonlyArray" ∧
    (spellings (.keyword .string)).map (fun t => detect? emptyLibrary {} (withType items t) taggedDoc) =
      [some .multiple, some .single, some .single] := by
  refine ⟨undeclared_emptyLibrary, undeclared_emptyLibrary, ?_⟩
  decide +kernel

end Slot

end PatternCatalog
