/-
  PatternCatalog.Proofs.Component.Signature — a function and a constant of its type.

  `declare function F` and `declare const F` with a function type state the same signature, and
  one may stand in the place of the other (`Site`). Each is lowered to one declaration of the
  name (`Site.library_exchange`), and names and aliases do not tell the two libraries apart
  (`Library.sameTypes_exchange`). But the function keeps a rest parameter as one more parameter
  (`Module.declaredParams`) and the type drops it (`Script.functionType_eq`), and a component
  takes at most one.
  - `function_and_constant_agree_iff`: both are the same component or neither is one, unless a
    rest parameter follows exactly one other and the result may be an element.
  - `a_rest_parameter_is_dropped`: then the constant is a component and the function is none.
-/

import PatternCatalog.Proofs.Component.Detection
import PatternCatalog.Proofs.Declaration
import PatternCatalog.Proofs.Library.SameNames
import PatternCatalog.Proofs.Module

namespace PatternCatalog

open Script (DeclarationSyntax DocTable Item Signature Statement)

namespace Script

/-- The function type with a signature. -/
def Signature.type (s : Signature) : TypeExpr := .function s.params (s.returns.getD (.keyword .any))

/-- A function type is read as a signature, like the rest of a function (`functionRest`). -/
theorem functionType_eq (g : Rules) (conditional : Bool) : functionType g conditional = (do
    typeParameters g
    let (params, rest) ← parameters g
    Parse.expectMark "=>"
    let returns ← resultType g conditional
    return Signature.type ⟨params, rest, some returns⟩) := rfl

end Script

/-! ## A declaration among others -/

/-- A place for a declaration: in a library with other files, in a file with other statements. -/
structure Site where
  root : Path
  packageName : Option String
  extensions : List String
  filesBefore : List SourceFile
  path : Path
  docs : DocTable
  itemsBefore : List Item
  start : Nat
  /-- With the word `export` in front of it. -/
  exported : Bool
  mentions : List String
  itemsAfter : List Item
  filesAfter : List SourceFile

namespace Module

variable {m : Module} {index : Nat} (d : Declaration)

/-- A statement leaves the declarations that there are in their places. -/
theorem declarations_addStatement (m : Module) (doc : Option String) (s : Statement) :
    m.declarations <+: (m.addStatement doc s).declarations := by
  have hsource : ∀ source, m.declarations <+: (m.addDependency source).declarations := fun source => by
    rw [addDependency_declarations]
  cases s with
  | «import» source bindings => exact hsource source
  | exportList specifiers source =>
    cases source with
    | none => exact List.prefix_refl _
    | some source => exact hsource source
  | exportAll source name => cases name <;> exact hsource source
  | exportDeclaration d => exact List.prefix_append _ _
  | exportDefault d =>
    cases d with
    | declaration d => exact List.prefix_append _ _
    | name name => exact List.prefix_refl _
    | expression => exact List.prefix_refl _
  | exportAssignment name => exact List.prefix_refl _
  | declaration d => exact List.prefix_append _ _
  | other => exact List.prefix_refl _

theorem addDependency_exchange (source : String) :
    (m.exchange index d).addDependency source = (m.addDependency source).exchange index d := by
  unfold addDependency exchange
  dsimp only
  split <;> rfl

theorem addDeclarations_exchange (h : index < m.declarations.length) (ds : List Declaration) :
    (m.exchange index d).addDeclarations ds = (m.addDeclarations ds).exchange index d := by
  rw [addDeclarations, exchange, addDeclarations, exchange, List.set_append_left _ _ h]

theorem addStatement_exchange (h : index < m.declarations.length) (doc : Option String) (s : Statement) :
    (m.exchange index d).addStatement doc s = (m.addStatement doc s).exchange index d := by
  have hadded := addDeclarations_exchange d h
  cases s with
  | «import» source bindings => simp only [addStatement, addDependency_exchange]; rfl
  | exportList specifiers source =>
    cases source with
    | none => rfl
    | some source => simp only [addStatement, addDependency_exchange]; rfl
  | exportAll source name => cases name <;> (simp only [addStatement, addDependency_exchange]; rfl)
  | exportDeclaration d => simp only [addStatement, hadded]; rfl
  | exportDefault d =>
    cases d with
    | declaration d => simp only [addStatement, addDefault, hadded]; rfl
    | name name => rfl
    | expression => rfl
  | exportAssignment name => rfl
  | declaration d => exact hadded _
  | other => rfl

/-- Statements that follow do not see which declaration is in a place. -/
theorem foldl_addItem_exchange (docs : DocTable) (items : List Item) (h : index < m.declarations.length) :
    items.foldl (addItem docs) (m.exchange index d) = (items.foldl (addItem docs) m).exchange index d ∧
      (items.foldl (addItem docs) m).declarations[index]? = m.declarations[index]? := by
  induction items generalizing m with
  | nil => exact ⟨rfl, rfl⟩
  | cons i items ih =>
    obtain ⟨after, hafter⟩ := declarations_addStatement m (docs.docAt? i.start) i.statement
    have hlt : index < (m.addItem docs i).declarations.length := by
      rw [addItem, ← hafter, List.length_append]
      exact Nat.lt_add_right _ h
    have hkept : (m.addItem docs i).declarations[index]? = m.declarations[index]? := by
      rw [addItem, ← hafter, List.getElem?_append_left h]
    obtain ⟨hfold, hget⟩ := ih hlt
    rw [List.foldl_cons, List.foldl_cons, addItem, addStatement_exchange d h]
    exact ⟨hfold, hget.trans hkept⟩

end Module

namespace Site

variable (t : Site)

def statement (d : DeclarationSyntax) : Statement := if t.exported then .exportDeclaration d else .declaration d

def item (d : DeclarationSyntax) : Item := ⟨t.start, t.statement d, t.mentions⟩

def module (d : DeclarationSyntax) : Module := .ofItems t.docs (t.itemsBefore ++ t.item d :: t.itemsAfter)

/-- The library with a declaration in the place. -/
def library (d : DeclarationSyntax) : Library :=
  .ofFiles t.root t.packageName t.extensions (t.filesBefore ++ ⟨t.path, t.module d⟩ :: t.filesAfter)

/-- The key of the declaration. -/
def key : DeclarationKey := ⟨t.filesBefore.length, (Module.ofItems t.docs t.itemsBefore).declarations.length⟩

/-- Whether a declaration in the place is lowered to a single one. -/
def Lowers (d : DeclarationSyntax) (lowered : Declaration) : Prop :=
  Module.declarationsOf (t.docs.docAt? t.start) none d = [lowered]

/-- The entries that export a declaration of the place. -/
def entries (name : String) : List ExportEntry := if t.exported then [Module.exportHere name name] else []

variable {t} {d d' : DeclarationSyntax} {lowered lowered' : Declaration}

theorem addItem_of_lowers (h : t.Lowers d lowered) (m : Module) :
    m.addItem t.docs (t.item d) = (m.addDeclarations [lowered]).addExports (t.entries lowered.name) := by
  rw [Lowers] at h
  cases hexported : t.exported <;>
    simp [Module.addItem, item, statement, entries, hexported, Module.addStatement, Module.addExports, h]

theorem module_exchange (h : t.Lowers d lowered) (h' : t.Lowers d' lowered') (hname : lowered'.name = lowered.name) :
    t.module d' = (t.module d).exchange t.key.index lowered' ∧
      (t.module d).declarations[t.key.index]? = some lowered := by
  generalize hm : Module.ofItems t.docs t.itemsBefore = m
  have hkey : t.key.index = m.declarations.length := congrArg (·.declarations.length) hm
  have hmodule : ∀ d, t.module d = t.itemsAfter.foldl (Module.addItem t.docs) (m.addItem t.docs (t.item d)) := by
    intro d
    rw [module, Module.ofItems, List.foldl_append, List.foldl_cons, ← Module.ofItems, hm]
  have hadded : (m.addItem t.docs (t.item d)).declarations = m.declarations ++ [lowered] := by
    rw [addItem_of_lowers h]
    rfl
  have hexchanged : m.addItem t.docs (t.item d') = (m.addItem t.docs (t.item d)).exchange m.declarations.length lowered' := by
    rw [addItem_of_lowers h, addItem_of_lowers h', hname]
    simp [Module.addDeclarations, Module.addExports, Module.exchange]
  have hlt : m.declarations.length < (m.addItem t.docs (t.item d)).declarations.length := by
    rw [hadded, List.length_append]
    exact Nat.lt_succ_self _
  obtain ⟨hfold, hget⟩ := Module.foldl_addItem_exchange lowered' t.docs t.itemsAfter hlt
  rw [hkey, hmodule, hmodule, hexchanged, hfold, hget, hadded, List.getElem?_concat_length]
  exact ⟨rfl, rfl⟩

theorem modify_middle {α : Type} (before : List α) (a : α) (after : List α) (f : α → α) :
    (before ++ a :: after).modify before.length f = before ++ f a :: after := by
  induction before with
  | nil => rfl
  | cons b before ih => exact congrArg (b :: ·) ih

theorem declaration?_library (h : t.Lowers d lowered) : (t.library d).declaration? t.key = some lowered := by
  have hmodule : (t.library d).moduleAt t.key.file = t.module d := by
    simp [library, Library.ofFiles, Library.moduleAt, key]
  rw [Library.declaration?, hmodule]
  exact (module_exchange h h rfl).2

theorem library_exchange (h : t.Lowers d lowered) (h' : t.Lowers d' lowered') (hname : lowered'.name = lowered.name) :
    t.library d' = (t.library d).exchange t.key lowered' := by
  rw [library, (module_exchange h h' hname).1, library, Library.exchange, Library.ofFiles, Library.ofFiles]
  dsimp only [key]
  rw [modify_middle]

end Site

/-! ## Components -/

namespace Component

open Library (Place SameTypes)

section SameTypes

variable {l l' : Library} (h : SameTypes l l') (o : Options)

include h

theorem returnsElement?_sameTypes (n : Nat) (origin : Option DeclarationKey) (p : Place) :
    returnsElement? l' o n origin p = returnsElement? l o n origin p := by
  induction n generalizing origin p with
  | zero => rfl
  | succ n ih => simp only [returnsElement?, h.lastAlias?_eq, h.resolveAlias_eq, ih]

theorem functionProps?_sameTypes (file : Nat) (params : List Param) (returns : TypeExpr) :
    functionProps? l' o file params returns = functionProps? l o file params returns := by
  have helement : returnsElement l' o ⟨file, returns⟩ = returnsElement l o ⟨file, returns⟩ := by
    rw [Bool.eq_iff_iff, returnsElement_eq_true_iff, returnsElement_eq_true_iff]
    simp only [returnsElement?_sameTypes h]
  rw [functionProps?, helement, functionProps?]

end SameTypes

variable {l : Library} {o : Options} {key : DeclarationKey} {d : Declaration}

theorem shape?_of_declaration (hd : l.declaration? key = some d) :
    shape? l o key = (props? l o key.file d.kind).map (Shape.mk key) := by
  rw [shape?, hd]
  cases hprops : props? l o key.file d.kind <;> simp [hprops]

theorem isDecided_of_declaration (hd : l.declaration? key = some d) : isDecided l o key = true ↔
    ∀ p ∈ results l o key.file d.kind, ∃ n, (returnsElement? l o n none p).isSome := by
  rw [isDecided_iff, Library.kind?, hd]
  exact ⟨fun h => h d.kind rfl, fun h kind hkind => Option.some.inj hkind ▸ h⟩

theorem props?_constant (file : Nat) (params : List Param) (returns : TypeExpr) :
    props? l o file (.variable (some (.function params returns))) = functionProps? l o file params returns := rfl

theorem results_constant (file : Nat) (params : List Param) (returns : TypeExpr) :
    results l o file (.variable (some (.function params returns))) = functionResults file params returns := rfl

/-- A rest parameter makes a difference only after exactly one other, and none when the result is
found to be no element. -/
theorem functionProps?_declaredParams_iff (file : Nat) (s : Signature) (returns : TypeExpr) :
    ((∀ p ∈ functionResults file (Module.declaredParams s) returns, ∃ n, (returnsElement? l o n none p).isSome) ↔
        ∀ p ∈ functionResults file s.params returns, ∃ n, (returnsElement? l o n none p).isSome) ∧
      functionProps? l o file (Module.declaredParams s) returns = functionProps? l o file s.params returns ↔
    (s.rest = true → s.params.length = 1 → ∃ n, returnsElement? l o n none ⟨file, returns⟩ = some false) := by
  obtain ⟨params, rest, result⟩ := s
  cases rest with
  | false => simp [Module.declaredParams]
  | true =>
    rcases params with _ | ⟨first, _ | ⟨second, others⟩⟩
    · simp [Module.declaredParams, functionResults, functionProps?]
    · constructor
      · rintro ⟨hends, hprops⟩
        obtain ⟨n, hn⟩ := hends.mp (fun _ hp => nomatch hp) ⟨file, returns⟩ (List.mem_singleton_self _)
        obtain ⟨b, hb⟩ := Option.isSome_iff_exists.mp hn
        cases b with
        | false => exact fun _ _ => ⟨n, hb⟩
        | true => simp [functionProps?, Module.declaredParams, returnsElement_of_walk hb] at hprops
      · intro h
        obtain ⟨n, hn⟩ := h rfl rfl
        refine ⟨iff_of_true (fun _ hp => nomatch hp) fun p hp => ?_, ?_⟩
        · obtain rfl := List.mem_singleton.mp hp
          exact ⟨n, by rw [hn]; rfl⟩
        · simp [functionProps?, Module.declaredParams, returnsElement_of_walk hn]
    · simp [Module.declaredParams, functionResults, functionProps?]

theorem agree_iff_of_sameTypes {l' : Library} {d' : Declaration} {s : Signature} {returns : TypeExpr} (h : SameTypes l l')
    (hd : l.declaration? key = some d) (hkind : d.kind = .function (Module.declaredParams s) (some returns))
    (hd' : l'.declaration? key = some d') (hkind' : d'.kind = .variable (some (.function s.params returns))) :
    isDecided l o key = isDecided l' o key ∧ shape? l o key = shape? l' o key ↔
      (s.rest = true → s.params.length = 1 → ∃ n, returnsElement? l o n none ⟨key.file, returns⟩ = some false) := by
  have hinj : Function.Injective (Option.map (Shape.mk key)) := Option.map_injective fun _ _ h => (Shape.mk.inj h).2
  rw [← functionProps?_declaredParams_iff, Bool.eq_iff_iff, isDecided_of_declaration hd, isDecided_of_declaration hd',
    shape?_of_declaration hd, shape?_of_declaration hd', hinj.eq_iff, hkind, hkind', results_constant, props?_constant,
    functionProps?_sameTypes h]
  simp only [returnsElement?_sameTypes h]
  rfl

/-- A function and a constant of its type are the same component, or neither is one, unless a rest
parameter follows exactly one other; then they agree only when the result is found to be no element. -/
theorem function_and_constant_agree_iff (t : Site) (o : Options) (name : String) (start start' : Nat) (params : List Param)
    (rest : Bool) (returns : TypeExpr) :
    let s : Signature := ⟨params, rest, some returns⟩
    let l := t.library (.function (some name) start s)
    let l' := t.library (.variables [⟨some name, start', some s.type⟩])
    isDecided l o t.key = isDecided l' o t.key ∧ shape? l o t.key = shape? l' o t.key ↔
      (rest = true → params.length = 1 → ∃ n, returnsElement? l o n none ⟨t.key.file, returns⟩ = some false) := by
  intro s l l'
  let doc := t.docs.docAt? t.start
  have hfunction : t.Lowers (.function (some name) start s)
      ⟨name, start, doc, .function (Module.declaredParams s) (some returns)⟩ := rfl
  have hconstant : t.Lowers (.variables [⟨some name, start', some s.type⟩])
      ⟨name, start', doc, .variable (some s.type)⟩ := rfl
  have hd := Site.declaration?_library hfunction
  have hsame : SameTypes l l' := by
    rw [show l' = _ from Site.library_exchange hfunction hconstant rfl]
    exact Library.sameTypes_exchange hd rfl (fun _ h => nomatch h) fun _ h => nomatch h
  exact agree_iff_of_sameTypes (s := s) hsame hd rfl (Site.declaration?_library hconstant) rfl

/-! ## A rest parameter -/

deriving instance DecidableEq for Library.Place, Component.Shape

/-- A library of one file. -/
def textLibrary (text : String) : Library :=
  .ofFiles ⟨"/lib"⟩ none [".d.ts"] [⟨⟨"/lib/index.d.ts"⟩, .parse text⟩]

def restFunction : Library :=
  textLibrary "interface P \x7b a: string \x7d\ndeclare function F(props: P, ...rest: string[]): JSX.Element;"

def restConstant : Library :=
  textLibrary "interface P \x7b a: string \x7d\ndeclare const F: (props: P, ...rest: string[]) => JSX.Element;"

/-- The same signature makes a component of the constant and none of the function. -/
theorem a_rest_parameter_is_dropped :
    shape? restFunction {} ⟨0, 1⟩ = none ∧
      shape? restConstant {} ⟨0, 1⟩ = some ⟨⟨0, 1⟩, some ⟨0, .reference none ["P"] []⟩⟩ := by
  constructor <;> decide +kernel

end Component

end PatternCatalog
