/-
  PatternCatalog.Component — which declarations are components, and the type of their props.

  A component is a variable of a component type or of a function type, a class with a
  component base class, or a function; a function must take at most one parameter and return
  an element type. Component types may be nested, as in memoized forwarding components.
-/

import PatternCatalog.Doc
import PatternCatalog.Library.Alias
import PatternCatalog.Options

namespace PatternCatalog

namespace Component

open Library (Place)

/-! ## Results of functions -/

/-- Whether a type is an element type, seen from an alias whose body it is; none when the walk
through aliases is longer than the given depth. Coming back to the same alias ends it. -/
def returnsElement? (l : Library) (o : Options) : Nat → Option DeclarationKey → Place → Option Bool
  | 0, _, _ => none
  | depth + 1, origin, p =>
    match p.type with
    | .reference _ name _ =>
      if o.isElementType name then some true
      else
        match l.lastAlias? p with
        | none => some false
        | some key => if origin = some key then some false else returnsElement? l o depth (some key) (l.resolveAlias p)
    | .union parts =>
      (parts.filter (!·.isNullish)).anyM fun part => returnsElement? l o depth none ⟨p.file, part⟩
    | _ => some false

def returnsElement (l : Library) (o : Options) (p : Place) : Bool :=
  (returnsElement? l o (l.typeNodes p.type) none p).getD false

/-! ## Shapes -/

/-- The props type of a component, `some none` for one that takes no props, by its parameters
and its result. -/
def functionProps? (l : Library) (o : Options) (file : Nat) (params : List Param) (returns : TypeExpr) :
    Option (Option Place) :=
  if 1 < params.length ∨ !returnsElement l o ⟨file, returns⟩ then none
  else some ((params.head?.bind (·.type)).map fun type => ⟨file, type⟩)

/-- Component types inside one another are opened so many times. -/
def wrapperDepth : Nat := 4

/-- The props type of a value of the given type, at most so many component types deep. -/
def typedProps? (l : Library) (o : Options) : Nat → Place → Option (Option Place)
  | 0, _ => none
  | depth + 1, p =>
    let q := l.resolveAlias p
    match q.type with
    | .reference _ name args =>
      if !o.isComponentType name then none
      else
        match args with
        | [] => some none
        | first :: _ =>
          let inner : Place := ⟨q.file, first⟩
          some ((typedProps? l o depth inner).getD (some inner))
    | .function params returns => functionProps? l o q.file params returns
    | _ => none

/-- The props type of a declaration that is a component. -/
def props? (l : Library) (o : Options) (file : Nat) : DeclarationKind → Option (Option Place)
  | .variable (some type) => typedProps? l o (wrapperDepth + 1) ⟨file, type⟩
  | .class (some (.reference _ name args)) =>
    if o.isClassComponent name then some (args.head?.map fun type => ⟨file, type⟩) else none
  | .function params (some returns) => functionProps? l o file params returns
  | _ => none

/-! ## Walks -/

/-- The result type that is asked for by `functionProps?`. -/
def functionResults (file : Nat) (params : List Param) (returns : TypeExpr) : List Place :=
  if 1 < params.length then [] else [⟨file, returns⟩]

/-- The result types that are asked for by `typedProps?`. -/
def typedResults (l : Library) (o : Options) : Nat → Place → List Place
  | 0, _ => []
  | depth + 1, p =>
    let q := l.resolveAlias p
    match q.type with
    | .reference _ name args =>
      if !o.isComponentType name then []
      else
        match args with
        | [] => []
        | first :: _ => typedResults l o depth ⟨q.file, first⟩
    | .function params returns => functionResults q.file params returns
    | _ => []

/-- The result types that are asked for by `props?`. -/
def results (l : Library) (o : Options) (file : Nat) : DeclarationKind → List Place
  | .variable (some type) => typedResults l o (wrapperDepth + 1) ⟨file, type⟩
  | .function params (some returns) => functionResults file params returns
  | _ => []

/-- Whether it turns out if a declaration is a component: no walk through the aliases of a result
type goes on without end. -/
def isDecided (l : Library) (o : Options) (key : DeclarationKey) : Bool :=
  (l.kind? key).all fun kind =>
    (results l o key.file kind).all fun p => (returnsElement? l o (l.typeNodes p.type) none p).isSome

structure Shape where
  key : DeclarationKey
  /-- None for a component that takes no props. -/
  props : Option Place
  deriving BEq, Repr

def shape? (l : Library) (o : Options) (key : DeclarationKey) : Option Shape := do
  let d ← l.declaration? key
  return ⟨key, ← props? l o key.file d.kind⟩

end Component

/-! ## Exported components -/

structure Component where
  exportName : String
  shape : Component.Shape
  ignored : Bool
  description : String
  icon : Option String
  group : Option String
  /-- A name given by its documentation. -/
  displayName : Option String
  deriving BEq, Repr

namespace Component

/-- The component that a declaration is under a name. -/
def ofDeclaration? (l : Library) (o : Options) (exportName : String) (key : DeclarationKey) : Option Component := do
  let shape ← shape? l o key
  let doc := Doc.parse? ((l.declaration? key).bind (·.doc))
  return ⟨exportName, shape, doc.hasTag "ignore", doc.resolvedDescription, doc.tagText? "icon",
    doc.tagText? "group", doc.tagText? "name"⟩

/-- The components among a file's exports of its own declarations, in order. -/
def exported (l : Library) (o : Options) (file : Nat) : List Component :=
  (l.localExports file).filterMap fun (name, key) => ofDeclaration? l o name key

end Component

end PatternCatalog
