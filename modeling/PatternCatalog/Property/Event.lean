/-
  PatternCatalog.Property.Event — event handlers among property types.

  A handler is a type of a known name, or a function that returns nothing of interest and takes
  nothing or one event of a known type.
-/

import PatternCatalog.Analysis
import PatternCatalog.Library.Alias

namespace PatternCatalog.EventKind

open Library (Place)

/-- Names of handler types. -/
def ofHandlerName? (name : String) : Option EventKind :=
  [("MouseEventHandler", click), ("PointerEventHandler", click), ("ChangeEventHandler", change),
   ("FocusEventHandler", focus), ("KeyboardEventHandler", keyboard), ("FormEventHandler", input),
   ("EventHandler", generic), ("ReactEventHandler", generic)].lookup name

/-- Names of the types of events. -/
def ofEventName? (name : String) : Option EventKind :=
  [("MouseEvent", click), ("PointerEvent", click), ("ChangeEvent", change), ("FocusEvent", focus),
   ("KeyboardEvent", keyboard), ("FormEvent", input), ("InputEvent", input), ("SyntheticEvent", generic),
   ("Event", generic)].lookup name

/-- The event of a function by its parameters. -/
def ofParams? : List Param → Option EventKind
  | [] => some generic
  | [p] =>
    match p.type with
    | some (.reference _ name _) => name.getLast?.bind ofEventName?
    | _ => none
  | _ => none

/-- Results that a handler may have. -/
def isHandlerResult : TypeExpr → Bool
  | .keyword .void | .keyword .any => true
  | _ => false

/-- The event that a type handles; a reference is known by its written name or by its name outside the library. -/
def ofType? (l : Library) (p : Place) : Option EventKind :=
  match p.type with
  | .reference _ name _ => do
    let written ← name.getLast?
    ofHandlerName? written <|> (l.reference? p.file p.type >>= Symbol.externalName?) >>= ofHandlerName?
  | .function params returns =>
    if isHandlerResult returns then ofParams? params else none
  | _ => none

end PatternCatalog.EventKind
