/-
  PatternCatalog.Slot.Content — the default content of a slot.

  The markup example in the documentation of a slot becomes a tree of elements. Each tag must
  name a component (`Scope.tag?`), each element's id derives from its parent's, and only
  literal attributes are kept. An example that fails anywhere gives the slot no content.
-/

import PatternCatalog.Library.Symbol
import PatternCatalog.Markup.Parser
import PatternCatalog.Pattern.Build

namespace PatternCatalog

/-- Where the tags of an example are looked up. -/
structure Scope where
  library : Library
  /-- The file that declares the slot. -/
  file : Nat
  /-- Imports of the example. -/
  imports : List Markup.Import

namespace Scope

def importSymbol? (s : Scope) (i : Markup.Import) : Option Symbol := do
  let target ← s.library.module? s.file i.source
  match i.imported.exportName? with
  | some name => s.library.exported? target name
  | none => return .namespace_ target

/-- The first segment of a tag: an import of the example, a value of the file, or an export of the library. -/
def first? (s : Scope) (name : String) : Option Symbol :=
  match s.imports.find? (·.name == name) with
  | some i => s.importSymbol? i
  | none => s.library.local? s.file name .value <|> s.library.exported? Library.entry name

def declaration? : Symbol → Option DeclarationKey
  | .declaration key => some key
  | _ => none

/-- The declaration that a tag names, directly or as an export of a name space. -/
def tag? (s : Scope) : List String → Option DeclarationKey
  | [name] => s.first? name >>= declaration?
  | [name, member] => do
    match ← s.first? name with
    | .namespace_ file => s.library.exported? file member >>= declaration?
    | _ => none
  | _ => none

end Scope

/-- What the elements of an example are made with. -/
structure ContentSetting where
  digest : Digest
  scope : Scope
  /-- The patterns of declarations that are components. -/
  pattern? : DeclarationKey → Option PatternIdentity
  libraryId : String

namespace ContentSetting

/-- The literal attributes of an element, each with the id of the property of that name. -/
def props (identity : PatternIdentity) (attributes : List Markup.Attribute) : List ElementProp :=
  attributes.filterMap fun a => a.value.map fun value => ⟨a.name, identity.propertyIds.lookup a.name, value⟩

mutual

def element? (c : ContentSetting) (parent id : String) : Markup.Node → Option Element
  | ⟨tag, attributes, children⟩ => do
    let identity ← c.scope.tag? tag >>= c.pattern?
    let children ← elements? c id 0 children
    return ⟨id, parent, c.libraryId, identity.contextId, identity.id, props identity attributes, children⟩

/-- The children of an element from a place on. -/
def elements? (c : ContentSetting) (parent : String) (index : Nat) : List Markup.Node → Option (List Element)
  | [] => some []
  | n :: ns => do
    let first ← element? c parent (Identity.nested c.digest parent (toString index)) n
    return first :: (← elements? c parent (index + 1) ns)

end

mutual

/-- Whether an element is one of components only; none when it does not turn out which pattern one of them has. -/
def shows? (c : ContentSetting) (ends : DeclarationKey → Bool) : Markup.Node → Option Bool
  | ⟨tag, _, children⟩ =>
    match c.scope.tag? tag with
    | none => some false
    | some key => if !ends key then none else if (c.pattern? key).isNone then some false else allShow? c ends children

/-- The elements are gone through in order, up to one that is not. -/
def allShow? (c : ContentSetting) (ends : DeclarationKey → Bool) : List Markup.Node → Option Bool
  | [] => some true
  | n :: ns => do if ← shows? c ends n then allShow? c ends ns else return false

end

end ContentSetting

namespace Slot

/-- The default content of a slot by the example in its documentation, which may nest elements so deep. -/
def content? (digest : Digest) (l : Library) (pattern? : DeclarationKey → Option PatternIdentity) (libraryId : String)
    (maxDepth : Nat) (slotId : String) (source : SlotSource) : Option Element := do
  let block ← source.doc >>= Doc.defaultBlock?
  let m ← (Markup.parse block maxDepth).toOption
  let c : ContentSetting := ⟨digest, ⟨l, source.file, m.imports⟩, pattern?, libraryId⟩
  c.element? slotId (Identity.nested digest slotId "default") m.root

/-- Whether it turns out what the default content of a slot is. -/
def contentEnds (digest : Digest) (l : Library) (pattern? : DeclarationKey → Option PatternIdentity)
    (ends : DeclarationKey → Bool) (libraryId : String) (maxDepth : Nat) (source : SlotSource) : Bool :=
  (source.doc >>= Doc.defaultBlock?).all fun block =>
    (Markup.parse block maxDepth).toOption.all fun m =>
      let c : ContentSetting := ⟨digest, ⟨l, source.file, m.imports⟩, pattern?, libraryId⟩
      (c.shows? ends m.root).isSome

end Slot

end PatternCatalog
