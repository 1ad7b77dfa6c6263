/-
  PatternCatalog.Markup.Printer — markup examples as text.

  Of the many ways to write an example this is a plain one: an import declaration for each
  binding, an arrow function, attribute values in braces, and a closing tag for every element.
  Strings are written in double quotes; a value that is no literal is written as the name `x`.
-/

import PatternCatalog.Binary64.Text
import PatternCatalog.Markup

namespace PatternCatalog.Markup

/-! ## Values -/

/-- A backslash stands before each backslash and each double quote. -/
def escape (c : Char) : List Char := if c = '\\' ∨ c = '"' then ['\\', c] else [c]

def quoted (s : String) : List Char := '"' :: s.toList.flatMap escape ++ ['"']

/-- The digits of a whole number, after its sign. -/
def numberText : Binary64 → List Char
  | .finite negative m e =>
    let (n, d) := Binary64.ratio m e
    let digits := Binary64.digitText (n / d)
    if negative then '-' :: digits else digits
  | _ => []

def valueText : Option LiteralValue → List Char
  | some (.boolean b) => if b then "true".toList else "false".toList
  | some (.number x) => numberText x
  | some (.string s) => quoted s
  | none => ['x']

/-! ## Elements -/

def tagNameText : List String → List Char
  | [] => []
  | [name] => name.toList
  | name :: names => name.toList ++ '.' :: tagNameText names

def attributeText (a : Attribute) : List Char := ' ' :: a.name.toList ++ '=' :: '\x7b' :: valueText a.value ++ ['\x7d']

def attributesText (as : List Attribute) : List Char := as.flatMap attributeText

mutual

def elementText : Node → List Char
  | ⟨tag, as, cs⟩ =>
    '<' :: tagNameText tag ++ attributesText as ++ '>' :: childrenText cs ++ '<' :: '/' :: tagNameText tag ++ ['>']

def childrenText : List Node → List Char
  | [] => []
  | c :: cs => elementText c ++ childrenText cs

end

/-! ## Modules -/

/-- What an import takes, before its source. -/
def bindingText (name : String) : Imported → List Char
  | .default_ => name.toList
  | .named imported => '\x7b' :: ' ' :: imported.toList ++ ' ' :: "as".toList ++ ' ' :: name.toList ++ [' ', '\x7d']
  | .namespace_ => '*' :: ' ' :: "as".toList ++ ' ' :: name.toList

/-- An import after its keyword. -/
def importRest (i : Import) : List Char :=
  ' ' :: bindingText i.name i.imported ++ ' ' :: "from".toList ++ ' ' :: quoted i.source ++ [';', '\n']

def importText (i : Import) : List Char := "import".toList ++ importRest i

def moduleText (m : Module) : List Char :=
  m.imports.flatMap importText ++ "export".toList ++ ' ' :: "default".toList ++ [' ', '(', ')', ' ', '=', '>', ' '] ++
    elementText m.root ++ [';']

def print (m : Module) : String := String.ofList (moduleText m)

example :
    print ⟨[⟨"Glyph", "./icons", .named "Icon"⟩], ⟨["UI", "Card"], [⟨"size", some (.number (.ofInt (-5)))⟩, ⟨"on", none⟩], []⟩⟩ =
      "import \x7b Icon as Glyph \x7d from \"./icons\";\n" ++
        "export default () => <UI.Card size=\x7b-5\x7d on=\x7bx\x7d></UI.Card>;" := by
  decide +kernel

end PatternCatalog.Markup
