/-
  PatternCatalog.Markup — markup examples.

  An example is a module of a small grammar: imports, then a default export that is a function
  without arguments and returns one element. Of the element only tags, literal attribute values
  and nested elements are kept.
-/

import PatternCatalog.Analysis
import PatternCatalog.Imported

namespace PatternCatalog.Markup

structure Attribute where
  name : String
  /-- None for a value that is no literal. -/
  value : Option LiteralValue
  deriving DecidableEq, Repr

/-- An element; its tag is `Name` or `Namespace.Name` as segments. -/
structure Node where
  tag : List String
  attributes : List Attribute
  children : List Node
  deriving BEq, Repr

structure Import where
  name : String
  source : String
  imported : Imported
  deriving DecidableEq, Repr

structure Module where
  imports : List Import
  root : Node
  deriving BEq, Repr

def tagText (tag : List String) : String := ".".intercalate tag

inductive Error where
  | expected (what : String) (offset : Nat)
  | unexpectedEnd (what : String)
  | mismatchedClose (opened closed : String) (offset : Nat)
  | tooDeep (limit : Nat)
  deriving DecidableEq, Repr

def Error.message : Error → String
  | .expected what offset => "expected " ++ what ++ " at offset " ++ toString offset
  | .unexpectedEnd what => "unexpected end of input, expected " ++ what
  | .mismatchedClose opened closed offset =>
    "closing tag </" ++ closed ++ "> does not match <" ++ opened ++ "> at offset " ++ toString offset
  | .tooDeep limit => "elements nested deeper than " ++ toString limit ++ " levels"

end PatternCatalog.Markup
