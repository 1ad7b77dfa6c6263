/-
  PatternCatalog.Script.Syntax — the statements of a script.

  Of a statement the grammar keeps what it imports, exports and declares, and which names it
  mentions; expressions leave nothing but the names. A signature serves function declarations
  and function types alike.
-/

import PatternCatalog.Declaration

namespace PatternCatalog.Script

/-- The parameters and the result type of a function. -/
structure Signature where
  params : List Param
  /-- Whether a rest parameter follows. -/
  rest : Bool
  returns : Option TypeExpr
  deriving BEq, Repr

/-- One variable of a declaration; it has no name when a pattern stands in its place. -/
structure Variable where
  name : Option String
  start : Nat
  type : Option TypeExpr
  deriving BEq, Repr

inductive DeclarationSyntax where
  | variables (items : List Variable)
  | function (name : Option String) (start : Nat) (signature : Signature)
  | class (name : Option String) (start : Nat) (parent : Option TypeExpr)
  | interface (name : String) (start : Nat) (parents : List TypeExpr) (members : List Member)
  | alias (name : String) (start : Nat) (type : TypeExpr)
  | enum (name : String) (start : Nat) (members : List EnumMember)
  /-- Name spaces and the like. -/
  | other
  deriving BEq, Repr

inductive DefaultExport where
  | declaration (d : DeclarationSyntax)
  | name (name : String)
  | expression
  deriving BEq, Repr

/-- A name in an export list, and the name it is exported under. -/
structure Specifier where
  name : String
  exported : String
  deriving DecidableEq, Repr

inductive Statement where
  | import (source : String) (bindings : List (String × Imported))
  | exportList (specifiers : List Specifier) (source : Option String)
  | exportAll (source : String) (name : Option String)
  | exportDeclaration (d : DeclarationSyntax)
  | exportDefault (d : DefaultExport)
  /-- `export = name`, or an expression that is no name. -/
  | exportAssignment (name : Option String)
  | declaration (d : DeclarationSyntax)
  | other
  deriving BEq, Repr

/-- A top-level statement. -/
structure Item where
  start : Nat
  statement : Statement
  mentions : List String
  deriving BEq, Repr

/-! ## Goals of the grammar -/

inductive Goal where
  /-- A type; `conditional` tells whether it may go on with `extends … ? … : …`. -/
  | type (conditional : Bool)
  /-- A type with the operators in front of it. -/
  | operatorType (conditional : Bool)
  /-- A name or a destructuring pattern. -/
  | pattern
  | expression (allowIn : Bool)
  /-- An expression without commas; `arrowTypes` tells whether an arrow function in it may
  state its result type. -/
  | assignment (allowIn arrowTypes : Bool)
  | unary
  /-- A primary expression with calls and accesses. -/
  | access
  /-- A markup element up to its last mark, which is not taken. -/
  | element
  | statement
  deriving DecidableEq, Repr

/-- What parsing a goal gives. -/
abbrev Goal.Answer : Goal → Type
  | .type _ | .operatorType _ => TypeExpr
  | .statement => Statement
  | _ => Unit

end PatternCatalog.Script
