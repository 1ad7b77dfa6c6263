/-
  PatternCatalog.Candidate — a declaration file with the files that belong to it.

  The implementation and the source of a declaration file lie beside it and differ from it by
  their extension alone. The id of a candidate is its significant path.
-/

import PatternCatalog.Doc
import PatternCatalog.FileSystem
import PatternCatalog.Library
import PatternCatalog.Options
import PatternCatalog.Path.Significant
import PatternCatalog.Text.Title

namespace PatternCatalog

structure Candidate where
  id : String
  /-- The compiled implementation. -/
  artifactPath : Path
  declarationPath : Path
  sourcePath : Path
  description : String
  displayName : String
  deriving DecidableEq, Repr

namespace Candidate

/-- The first file with one of the extensions. -/
def existing? (fs : FileSystem) (stem : String) (extensions : List String) : Option Path :=
  (extensions.map fun ext => (⟨stem ++ ext⟩ : Path)).find? fs.exists?

/-- The candidate of a file; the root directory itself goes by the name of the package. -/
def ofFile (fs : FileSystem) (o : Options) (root : Path) (packageName : String) (f : SourceFile) : Candidate :=
  let segments := Path.significant root.normalize f.path o.declarationExtensions
  let stem := f.path.stripExtension o.declarationExtensions
  let artifact := (existing? fs stem o.implementationExtensions).getD ⟨stem ++ ".js"⟩
  { id := "/".intercalate segments
    artifactPath := artifact
    declarationPath := f.path
    sourcePath := (existing? fs stem o.sourceExtensions).getD artifact
    description := (Doc.parse? f.module.fileDoc).resolvedDescription
    displayName := (segments.getLast?.map Text.titleCase).getD packageName }

end Candidate

end PatternCatalog
