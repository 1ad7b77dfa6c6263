/-
  PatternCatalog.Proofs.Implementation — what the answer about an implementation depends on.

  The scan of an implementation looks for the statement behind an export in two steps: the
  statements that export the name tell which name it has in the file, and the first statement
  that declares that name is the one. So it depends on these statements alone, wherever they
  stand (`binding?_of_sameConcerns`), and when there is such a statement nothing else in the file
  is looked at. A file may export a name as `default` in two ways, and both lead to the same
  statement, before or after it (`binding?_default`).
-/

import PatternCatalog.Implementation
import PatternCatalog.Proofs.Declaration
import PatternCatalog.Proofs.Labels.Library

namespace PatternCatalog

/-! ## Statements wherever they stand -/

/-- A member that keeps its documentation and starts nowhere. -/
def Label.nowhere (m : Member) : Label := ⟨0, m.doc⟩

namespace Script

def Variable.placeless (v : Variable) : Variable := { v with start := 0, type := v.type.map (TypeExpr.relabeled Label.nowhere) }

def Signature.placeless (s : Signature) : Signature :=
  { s with params := s.params.map (Param.relabeled Label.nowhere), returns := s.returns.map (TypeExpr.relabeled Label.nowhere) }

def DeclarationSyntax.placeless : DeclarationSyntax → DeclarationSyntax
  | .variables items => .variables (items.map Variable.placeless)
  | .function name _ signature => .function name 0 signature.placeless
  | .class name _ parent => .class name 0 (parent.map (TypeExpr.relabeled Label.nowhere))
  | .interface name _ parents members =>
    .interface name 0 (parents.map (TypeExpr.relabeled Label.nowhere)) (members.map (Member.relabeled Label.nowhere))
  | .alias name _ type => .alias name 0 (type.relabeled Label.nowhere)
  | .enum name _ members => .enum name 0 members
  | .other => .other

def DefaultExport.placeless : DefaultExport → DefaultExport
  | .declaration d => .declaration d.placeless
  | d => d

def Statement.placeless : Statement → Statement
  | .exportDeclaration d => .exportDeclaration d.placeless
  | .exportDefault d => .exportDefault d.placeless
  | .declaration d => .declaration d.placeless
  | s => s

/-- A statement without all offsets in the file. -/
def Item.placeless (i : Item) : Item := ⟨0, i.statement.placeless, i.mentions⟩

deriving instance DecidableEq for Variable, Signature, DeclarationSyntax, DefaultExport, Statement, Item

end Script

deriving instance DecidableEq for Script

namespace Implementation

open Script (DeclarationSyntax Item Specifier Statement)

variable {items items' : List Item} {exported : String}

/-! ## The statements that the scan looks at -/

/-- Whether a statement exports something under a name. -/
def exportsName (name : String) : Statement → Bool
  | .exportDefault _ => name == "default"
  | .exportList specifiers _ => specifiers.any (·.exported == name)
  | .exportAll _ exported => exported == some name
  | .exportDeclaration d => declares name d
  | _ => false

/-- The name in the file whose declaration is looked for, unless the default export is a definition itself. -/
def soughtName? (items : List Item) (exported : String) : Option String :=
  if exported = "default" ∧ items.any (definesDefault ·.statement) then none else some (localName items exported)

/-- The files have the same statements, in the same order, that export a name, and the same ones that
declare what it is in the first file. -/
structure SameConcerns (items items' : List Item) (exported : String) : Prop where
  exports : (items'.filter (exportsName exported ·.statement)).map Item.placeless =
    (items.filter (exportsName exported ·.statement)).map Item.placeless
  declarations : ∀ name ∈ soughtName? items exported,
    (items'.filter (binds name ·.statement)).map Item.placeless = (items.filter (binds name ·.statement)).map Item.placeless

/-! ## Offsets have no part in it -/

theorem definesDefault_placeless (s : Statement) : definesDefault s.placeless = definesDefault s := by
  rcases s with _ | _ | _ | _ | (_ | _ | _) | _ | _ | _ <;> rfl

theorem renamed_placeless (exported current : String) (s : Statement) :
    renamed exported current s.placeless = renamed exported current s := by
  rcases s with _ | _ | _ | _ | (_ | _ | _) | _ | _ | _ <;> rfl

theorem declares_placeless (name : String) (d : DeclarationSyntax) : declares name d.placeless = declares name d := by
  cases d with
  | «variables» items => exact List.any_map
  | _ => rfl

theorem binds_placeless (name : String) (s : Statement) : binds name s.placeless = binds name s := by
  cases s with
  | exportDeclaration d => exact declares_placeless name d
  | declaration d => exact declares_placeless name d
  | _ => rfl

theorem exportsName_placeless (name : String) (s : Statement) : exportsName name s.placeless = exportsName name s := by
  cases s with
  | exportDeclaration d => exact declares_placeless name d
  | _ => rfl

/-! ## The statement behind an export -/

theorem renamed_of_other {s : Statement} (h : exportsName exported s = false) (current : String) :
    renamed exported current s = current := by
  unfold renamed
  split
  · have hother : exported ≠ "default" := by simpa [exportsName] using h
    exact if_neg hother
  · next specifiers =>
    have hnone : specifiers.find? (·.exported == exported) = none := by
      rw [← Option.not_isSome_iff_eq_none, List.find?_isSome]
      simpa [exportsName] using h
    rw [hnone]
  · rfl

theorem foldl_renamed_filter (items : List Item) (current : String) :
    ((items.filter (exportsName exported ·.statement)).map Item.placeless).foldl
      (fun current i => renamed exported current i.statement) current =
    items.foldl (fun current i => renamed exported current i.statement) current := by
  induction items generalizing current with
  | nil => rfl
  | cons i items ih =>
    rw [List.filter_cons]
    split
    · rw [List.map_cons, List.foldl_cons, List.foldl_cons, ih]
      exact congrArg (items.foldl _) (renamed_placeless exported current i.statement)
    · next hother => rw [List.foldl_cons, renamed_of_other (Bool.eq_false_iff.mpr hother), ih]

theorem localName_congr (h : (items'.filter (exportsName exported ·.statement)).map Item.placeless =
      (items.filter (exportsName exported ·.statement)).map Item.placeless) :
    localName items' exported = localName items exported := by
  rw [localName, ← foldl_renamed_filter, h, foldl_renamed_filter, localName]

/-- The first statement that has something that offsets have no part in. -/
theorem find?_placeless {p : Statement → Bool} (hp : ∀ s, p s.placeless = p s) (items : List Item) :
    (items.map Item.placeless).find? (p ·.statement) = (items.find? (p ·.statement)).map Item.placeless := by
  rw [List.find?_map]
  exact congrArg (Option.map Item.placeless <| items.find? ·) (funext fun i => hp i.statement)

theorem find?_filter_of_imp {p q : Statement → Bool} (h : ∀ s, p s → q s) (items : List Item) :
    (items.filter (q ·.statement)).find? (p ·.statement) = items.find? (p ·.statement) := by
  rw [List.find?_filter]
  refine congrArg (items.find? ·) (funext fun i => ?_)
  cases hp : p i.statement with
  | false => simp
  | true => simp [h i.statement hp]

theorem find?_congr {p q : Statement → Bool} (hp : ∀ s, p s.placeless = p s) (hq : ∀ s, p s → q s)
    (h : (items'.filter (q ·.statement)).map Item.placeless = (items.filter (q ·.statement)).map Item.placeless) :
    (items'.find? (p ·.statement)).map Item.placeless = (items.find? (p ·.statement)).map Item.placeless := by
  rw [← find?_filter_of_imp hq, ← find?_placeless hp, h, find?_placeless hp, find?_filter_of_imp hq]

theorem exportsName_of_definesDefault {s : Statement} (h : definesDefault s) : exportsName "default" s := by
  unfold definesDefault at h
  split at h
  · cases h
  · rfl
  · cases h

theorem find?_definesDefault_congr (h : (items'.filter (exportsName "default" ·.statement)).map Item.placeless =
      (items.filter (exportsName "default" ·.statement)).map Item.placeless) :
    (items'.find? (definesDefault ·.statement)).map Item.placeless =
      (items.find? (definesDefault ·.statement)).map Item.placeless :=
  find?_congr definesDefault_placeless (fun _ hs => exportsName_of_definesDefault hs) h

theorem binding?_of_sameConcerns (h : SameConcerns items items' exported) :
    (binding? items' exported).map Item.placeless = (binding? items exported).map Item.placeless := by
  have hsought : ∀ name ∈ soughtName? items exported,
      (items'.find? (binds name ·.statement)).map Item.placeless = (items.find? (binds name ·.statement)).map Item.placeless :=
    fun name hname => find?_congr (binds_placeless name) (fun _ hs => hs) (h.declarations name hname)
  have hlocal := localName_congr h.exports
  by_cases hdefault : exported = "default"
  · subst hdefault
    have hdefinition := find?_definesDefault_congr h.exports
    simp only [binding?, if_true]
    cases hfound : items.find? (definesDefault ·.statement) with
    | some i =>
      rw [hfound] at hdefinition
      obtain ⟨i', hfound', hi'⟩ := Option.map_eq_some_iff.mp hdefinition
      rw [hfound']
      exact congrArg some hi'
    | none =>
      rw [hfound] at hdefinition
      rw [Option.map_eq_none_iff.mp hdefinition, hlocal]
      refine hsought _ (if_neg fun hany => ?_)
      obtain ⟨i, hi, hdefines⟩ := List.any_eq_true.mp hany.2
      exact List.find?_eq_none.mp hfound i hi hdefines
  · simp only [binding?, if_neg hdefault, hlocal]
    exact hsought _ (if_neg fun hboth => hdefault hboth.1)

theorem takesChildren_congr
    (hbinding : (binding? items' exported).map Item.placeless = (binding? items exported).map Item.placeless)
    (hfound : (binding? items exported).isSome) :
    takesChildren items' exported = takesChildren items exported := by
  obtain ⟨i, hi⟩ := Option.isSome_iff_exists.mp hfound
  rw [hi] at hbinding
  obtain ⟨i', hi', hsame⟩ := Option.map_eq_some_iff.mp hbinding
  have hmentions : i'.placeless.mentions = i.placeless.mentions := congrArg Item.mentions hsame
  rw [takesChildren, hi', takesChildren, hi]
  exact congrArg (·.contains children) hmentions

/-! ## A declared name as the default export -/

/-- The name that a statement exports as `default`. -/
def defaultName? : Statement → Option String
  | .exportDefault (.name name) => some name
  | .exportList specifiers none => (specifiers.find? (·.exported == "default")).map (·.name)
  | _ => none

theorem renamed_of_defaultName? {s : Statement} {name : String} (h : defaultName? s = some name) (current : String) :
    renamed "default" current s = name := by
  unfold defaultName? at h
  split at h
  · exact Option.some.inj h
  · obtain ⟨specifier, hspecifier, rfl⟩ := Option.map_eq_some_iff.mp h
    simp only [renamed, hspecifier]
  · cases h

theorem definesDefault_of_defaultName? {s : Statement} {name : String} (h : defaultName? s = some name) :
    definesDefault s = false := by
  unfold defaultName? at h
  split at h
  · rfl
  · rfl
  · cases h

theorem binds_of_defaultName? {s : Statement} {name : String} (h : defaultName? s = some name) (sought : String) :
    binds sought s = false := by
  unfold defaultName? at h
  split at h
  · rfl
  · rfl
  · cases h

theorem others_congr (h : items'.map Item.placeless = items.map Item.placeless)
    (hothers : ∀ i ∈ items, exportsName exported i.statement = false) :
    ∀ i ∈ items', exportsName exported i.statement = false := by
  intro i hi
  obtain ⟨j, hj, hji⟩ : ∃ j ∈ items, j.placeless = i.placeless := List.mem_map.mp (h ▸ List.mem_map_of_mem hi)
  have hstatement : j.statement.placeless = i.statement.placeless := congrArg Item.statement hji
  calc exportsName exported i.statement
    _ = exportsName exported i.statement.placeless := (exportsName_placeless exported i.statement).symm
    _ = exportsName exported j.statement := by rw [← hstatement, exportsName_placeless]
    _ = false := hothers j hj

theorem foldl_renamed_of_others (hothers : ∀ i ∈ items, exportsName exported i.statement = false) (current : String) :
    items.foldl (fun current i => renamed exported current i.statement) current = current := by
  have hnone : items.filter (exportsName exported ·.statement) = [] := by simpa using hothers
  rw [← foldl_renamed_filter, hnone]
  rfl

/-- With no other default export, the statement behind it is the first one that declares the name. -/
theorem binding?_default {before after : List Item} {e : Item} {name : String} (he : defaultName? e.statement = some name)
    (hothers : ∀ i ∈ before ++ after, exportsName "default" i.statement = false) :
    binding? (before ++ e :: after) "default" = (before ++ after).find? (binds name ·.statement) := by
  have hnoDefinition : ∀ ls ⊆ before ++ after, ls.find? (definesDefault ·.statement) = none := fun ls hls =>
    List.find?_eq_none.mpr fun i hi hdefines => by
      have hother := hothers i (hls hi)
      rw [exportsName_of_definesDefault hdefines] at hother
      cases hother
  have hlocal : localName (before ++ e :: after) "default" = name := by
    rw [localName, List.foldl_append, List.foldl_cons, renamed_of_defaultName? he,
      foldl_renamed_of_others fun i hi => hothers i (List.mem_append_right _ hi)]
  have hdefinition : (before ++ e :: after).find? (definesDefault ·.statement) = none := by
    rw [List.find?_append, List.find?_cons, definesDefault_of_defaultName? he, hnoDefinition before (List.subset_append_left _ _)]
    exact hnoDefinition after (List.subset_append_right _ _)
  rw [binding?, if_pos rfl, hdefinition, hlocal, List.find?_append, List.find?_cons, binds_of_defaultName? he, List.find?_append]
  rfl

/-! ## Files -/

/-- A file holds an implementation that is read as the items. -/
def Holds (fs : FileSystem) (artifact : Path) (items : List Item) : Prop :=
  ∃ text s, fs.read artifact = .ok text ∧ Script.parse? (dialect artifact) text = some s ∧ s.items = items

theorem usesChildren_of_holds {fs : FileSystem} {artifact : Path} (h : Holds fs artifact items) (exported : String) :
    usesChildren fs artifact exported = takesChildren items exported := by
  obtain ⟨text, s, hread, hparse, rfl⟩ := h
  rw [usesChildren, hread]
  simp only [hparse]

/-- A file among no others. -/
theorem holds_memory {p : Path} {text : String} {s : Script} (h : Script.parse? (dialect p) text = some s) :
    Holds (.memory [(p, text)]) p s.items := by
  refine ⟨text, s, ?_, h, rfl⟩
  simp [FileSystem.memory, FileSystem.ofStore, FileSystem.storeOf, FileSystem.Store.read, FileSystem.Store.text?]

/-- When the statement behind an export is found, the answer depends on the statements that export the name
and on those that declare what it is in the file. A declared name that is exported as `default` gives one
answer in whatever way, and wherever in the file, it is exported. -/
theorem scan_looks_at_export_only :
    (∀ fs fs' artifact artifact' items items' exported, Holds fs artifact items → Holds fs' artifact' items' →
      (binding? items exported).isSome → SameConcerns items items' exported →
      usesChildren fs' artifact' exported = usesChildren fs artifact exported) ∧
    ∀ fs fs' artifact artifact' before e after before' e' after' name,
      Holds fs artifact (before ++ e :: after) → Holds fs' artifact' (before' ++ e' :: after') →
      defaultName? e.statement = some name → defaultName? e'.statement = some name →
      (before' ++ after').map Item.placeless = (before ++ after).map Item.placeless →
      (∀ i ∈ before ++ after, exportsName "default" i.statement = false) →
      (∃ i ∈ before ++ after, binds name i.statement) →
      usesChildren fs' artifact' "default" = usesChildren fs artifact "default" := by
  refine ⟨fun fs fs' artifact artifact' items items' exported h h' hfound hsame => ?_,
    fun fs fs' artifact artifact' before e after before' e' after' name h h' he he' hrest hothers hdeclared => ?_⟩
  · rw [usesChildren_of_holds h, usesChildren_of_holds h']
    exact takesChildren_congr (binding?_of_sameConcerns hsame) hfound
  · have hothers' := others_congr hrest hothers
    have hbinding := binding?_default he hothers
    rw [usesChildren_of_holds h, usesChildren_of_holds h']
    refine takesChildren_congr ?_ ?_
    · rw [hbinding, binding?_default he' hothers', ← find?_placeless (binds_placeless name), hrest,
        find?_placeless (binds_placeless name)]
    · rwa [hbinding, List.find?_isSome]

/-- A component that ignores nested content beside one that takes it, then alone behind another statement; and
one that takes it, exported as `default` after it and before it. -/
theorem moved_statements_answer_alike :
    let p : Path := ⟨"/lib/card.js"⟩
    let holding (text : String) := FileSystem.memory [(p, text)]
    let both := holding "export const Card = (p) => p.title;\nexport const Panel = (p) => p.children;"
    let alone := holding "let n = 1;\nexport const Card = (p) => p.title;"
    let named := holding "const Box = (p) => p.children;\nexport default Box;"
    let listed := holding "export \x7b Box as default \x7d;\nconst Box = (p) => p.children;"
    usesChildren alone p "Card" = usesChildren both p "Card" ∧
      usesChildren listed p "default" = usesChildren named p "default" := by
  intro p holding both alone named listed
  let declared (start : Nat) (name : String) : DeclarationSyntax := .variables [⟨some name, start, none⟩]
  have hboth : Holds both p
      [⟨0, .exportDeclaration (declared 13 "Card"), ["Card", "p", "p", "title"]⟩,
        ⟨36, .exportDeclaration (declared 49 "Panel"), ["Panel", "p", "p", "children"]⟩] :=
    holds_memory (s := ⟨_, []⟩) (by decide +kernel)
  have halone : Holds alone p
      [⟨0, .declaration (declared 4 "n"), ["n"]⟩,
        ⟨11, .exportDeclaration (declared 24 "Card"), ["Card", "p", "p", "title"]⟩] :=
    holds_memory (s := ⟨_, []⟩) (by decide +kernel)
  have hnamed : Holds named p
      ([⟨0, .declaration (declared 6 "Box"), ["Box", "p", "p", "children"]⟩] ++
        ⟨31, .exportDefault (.name "Box"), ["Box"]⟩ :: []) :=
    holds_memory (s := ⟨_, []⟩) (by decide +kernel)
  have hlisted : Holds listed p
      ([] ++ ⟨0, .exportList [⟨"Box", "default"⟩] none, ["Box", "default"]⟩ ::
        [⟨27, .declaration (declared 33 "Box"), ["Box", "p", "p", "children"]⟩]) :=
    holds_memory (s := ⟨_, []⟩) (by decide +kernel)
  refine ⟨scan_looks_at_export_only.1 both alone p p _ _ "Card" hboth halone (by decide) ⟨by rfl, ?_⟩,
    scan_looks_at_export_only.2 named listed p p _ _ _ _ _ _ "Box" hnamed hlisted rfl (by rfl) (by rfl) (by decide) (by decide)⟩
  rintro name ⟨⟩
  rfl

end Implementation

end PatternCatalog
