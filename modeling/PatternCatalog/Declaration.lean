/-
  PatternCatalog.Declaration — what a declaration file declares.

  A module keeps its imports, its exports, the sources it re-exports as a whole, its top-level
  declarations in order, and every module it depends on. Types are kept by structure as far as
  the catalog reasons about them; the rest is `TypeExpr.other`. A declaration and a member are
  identified by their file and the offset at which they start.
-/

import PatternCatalog.Binary64
import PatternCatalog.Imported

namespace PatternCatalog

inductive Keyword where
  | any
  | unknown
  | boolean
  | string
  | number
  | bigint
  | null
  | undefined
  | void
  | never
  | object
  | symbol
  deriving DecidableEq, Repr

inductive LiteralType where
  | string (s : String)
  | number (x : Binary64)
  | boolean (b : Bool)
  | template
  deriving DecidableEq, Repr

/-- A parameter of a function, over a kind of types. -/
structure ParamOf (τ : Type) where
  name : String
  type : Option τ
  optional : Bool
  deriving BEq, Repr

/-- A property of an interface or an object type, over a kind of types. -/
structure MemberOf (τ : Type) where
  name : String
  optional : Bool
  /-- None where the source states no type. -/
  type : Option τ
  typeText : String
  doc : Option String
  start : Nat
  deriving BEq, Repr

inductive TypeExpr where
  | keyword (k : Keyword)
  | literal (l : LiteralType)
  /-- `A.B<…>`, or `import("m").A<…>` when there is a module. -/
  | reference (module : Option String) (name : List String) (args : List TypeExpr)
  | union (parts : List TypeExpr)
  | intersection (parts : List TypeExpr)
  | array (item : TypeExpr)
  | function (params : List (ParamOf TypeExpr)) (returns : TypeExpr)
  | object (members : List (MemberOf TypeExpr))
  | other
  deriving BEq, Repr, Inhabited

abbrev Param := ParamOf TypeExpr

abbrev Member := MemberOf TypeExpr

/-- `null` and `undefined`. -/
def TypeExpr.isNullish : TypeExpr → Bool
  | .keyword .null | .keyword .undefined => true
  | _ => false

inductive EnumInit where
  | none
  | string (s : String)
  | number (x : Binary64)
  /-- An initializer that is no literal. -/
  | other
  deriving DecidableEq, Repr

structure EnumMember where
  name : String
  init : EnumInit
  doc : Option String
  deriving DecidableEq, Repr

inductive DeclarationKind where
  | interface (parents : List TypeExpr) (members : List Member)
  | alias (type : TypeExpr)
  | enum (members : List EnumMember)
  | class (parent : Option TypeExpr)
  | function (params : List Param) (returns : Option TypeExpr)
  | variable (type : Option TypeExpr)
  deriving BEq, Repr

namespace DeclarationKind

/-- Declarations that can be named where a type stands. -/
def isType : DeclarationKind → Bool
  | .interface .. | .alias _ | .enum _ | .class _ => true
  | _ => false

/-- Declarations that can be named where a value stands. -/
def isValue : DeclarationKind → Bool
  | .enum _ | .class _ | .function .. | .variable _ => true
  | _ => false

end DeclarationKind

structure Declaration where
  name : String
  start : Nat
  doc : Option String
  kind : DeclarationKind
  deriving BEq, Repr

structure ImportBinding where
  name : String
  source : String
  imported : Imported
  deriving DecidableEq, Repr

inductive ExportTarget where
  /-- A name of this file, declared or imported. -/
  | here (name : String)
  | elsewhere (source : String) (imported : Imported)
  deriving DecidableEq, Repr

structure ExportEntry where
  exported : String
  target : ExportTarget
  deriving DecidableEq, Repr

structure Module where
  imports : List ImportBinding := []
  exports : List ExportEntry := []
  /-- Sources whose exports this file exports again. -/
  starExports : List String := []
  declarations : List Declaration := []
  /-- Every module the file imports from or exports from, in order, once each. -/
  dependencies : List String := []
  /-- The comment that documents the file. -/
  fileDoc : Option String := none
  deriving BEq, Repr

end PatternCatalog
