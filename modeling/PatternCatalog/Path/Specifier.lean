/-
  PatternCatalog.Path.Specifier — module specifiers and the files they may mean.

  A relative specifier names a file without saying its extension. `candidates` lists the
  paths to probe, in order: the path itself when it already ends in a declaration extension,
  the path with each extension (after dropping a script extension, since `./button.js` in a
  declaration means the declarations of `button`), and an index file in a directory of that name.
-/

import PatternCatalog.Path

namespace PatternCatalog.Specifier

open Text

def isRelative (specifier : String) : Bool :=
  let s := specifier.toList
  "./".toList.isPrefixOf s || "../".toList.isPrefixOf s || specifier == "." || specifier == ".."

/-- Extensions of compiled scripts, which a specifier may carry. -/
def scriptExtensions : List String := [".js", ".jsx", ".mjs", ".cjs"]

/-- The text without the first script extension that it ends in. -/
def withoutScriptExtension (s : List Char) : List Char :=
  (scriptExtensions.findSome? fun ext => dropEnd? s ext.toList).getD s

def candidates (dir : Path) (specifier : String) (extensions : List String) : List Path :=
  let base := (dir.join specifier).normalize
  let text := base.text.toList
  let itself := if extensions.any fun ext => ext.toList.isSuffixOf text then [base] else []
  let stem := withoutScriptExtension text
  itself ++ extensions.map (fun ext => ⟨String.ofList (stem ++ ext.toList)⟩)
    ++ extensions.map (fun ext => base.join ("index" ++ ext))

end PatternCatalog.Specifier
