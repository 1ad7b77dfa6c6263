/-
  PatternCatalog.Bundle — the module that loads each pattern's implementation.

  A bundler turns the pattern ids and their implementations into one text. `moduleMap` writes
  a module that maps each id to a lazy import; an id that comes again is left out, and an
  implementation that does not exist is an error even then.
-/

import PatternCatalog.FileSystem
import PatternCatalog.Json.Printer

namespace PatternCatalog

structure BundleEntry where
  /-- Id of the pattern. -/
  id : String
  /-- Its compiled implementation. -/
  path : Path
  deriving DecidableEq, Repr

inductive BundleError where
  | missingImplementation (id : String) (path : Path)
  | failed (message : String)
  deriving DecidableEq, Repr

def BundleError.message : BundleError → String
  | .missingImplementation id path => "implementation " ++ path.text ++ " for pattern " ++ id ++ " does not exist"
  | .failed message => message

/-- How a bundler can end without a text: by an error of its own, or abruptly, with or without a message. -/
inductive BundleFault where
  | error (e : BundleError)
  | abort (message : Option String)
  deriving DecidableEq, Repr

abbrev Bundler := FileSystem → List BundleEntry → Except BundleFault String

namespace Bundle

def line (e : BundleEntry) : List Char :=
  "  ".toList ++ Json.quote e.id.toList ++ ": () => import(".toList ++ Json.quote e.path.text.toList ++ "),".toList

/-- The text of a module with the given lines. -/
def moduleText (lines : List (List Char)) : String :=
  String.ofList ("export const components = \x7b\n".toList ++ Text.unlines lines ++ "\n\x7d;\n".toList)

/-- The ids that have come and the lines made of them, with one more entry. -/
def addEntry (fs : FileSystem) (made : List String × List (List Char)) (e : BundleEntry) :
    Except BundleError (List String × List (List Char)) :=
  if !fs.exists? e.path then .error (.missingImplementation e.id e.path)
  else if e.id ∈ made.1 then .ok made
  else .ok (e.id :: made.1, made.2 ++ [line e])

def moduleMap? (fs : FileSystem) (entries : List BundleEntry) : Except BundleError String :=
  (entries.foldlM (addEntry fs) ([], [])).map fun made => moduleText made.2

def moduleMap : Bundler := fun fs entries => (moduleMap? fs entries).mapError .error

end Bundle

end PatternCatalog
