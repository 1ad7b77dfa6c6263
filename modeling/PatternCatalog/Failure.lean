/-
  PatternCatalog.Failure — why an analysis ends without a result.

  Each cause has a code for programs and a message for people, and is either a fault of the
  analyzed library or one of the tool and its settings.
-/

import PatternCatalog.Bundle

namespace PatternCatalog

inductive Failure where
  | packageMissing (path : Path)
  | packageInvalid (path : Path)
  | entryMissing (path : Path)
  | unreadable (path : Path) (reason : String)
  | noComponents (root : Path)
  | bundle (e : BundleError)
  | invalidOptions
  /-- The bundler ended abruptly. -/
  | aborted (message : Option String)
  deriving DecidableEq, Repr

namespace Failure

def ofBundler : BundleFault → Failure
  | .error e => bundle e
  | .abort message => aborted message

def code : Failure → String
  | packageMissing _ => "PA-ERR-PACKAGE-MISSING"
  | packageInvalid _ => "PA-ERR-PACKAGE-INVALID"
  | entryMissing _ => "PA-ERR-ENTRY-MISSING"
  | unreadable .. => "PA-ERR-IO"
  | noComponents _ => "PA-ERR-NO-COMPONENTS"
  | bundle _ => "PA-ERR-BUNDLE"
  | invalidOptions => "PA-ERR-OPTIONS"
  | aborted _ => "PA-ERR-INTERNAL"

def message : Failure → String
  | packageMissing path => "package file not found at " ++ path.text
  | packageInvalid path => "package file " ++ path.text ++ " is not valid JSON"
  | entryMissing path => "typings entry " ++ path.text ++ " does not exist"
  | unreadable path reason => "failed to read " ++ path.text ++ ": " ++ reason
  | noComponents root => "no components found in library at " ++ root.text
  | bundle e => "bundling failed: " ++ e.message
  | invalidOptions => "invalid analyzer options"
  | aborted message => "analysis aborted: " ++ message.getD "unexpected panic"

/-- Whether the library is at fault. -/
def isLibraryFault : Failure → Bool
  | invalidOptions | aborted _ => false
  | _ => true

end Failure

end PatternCatalog
