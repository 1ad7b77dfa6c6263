/-
  PatternCatalog.Registry — the patterns of a library, one after another.

  Files are taken in the order of their discovery and their exports in the order of the file.
  A declaration is registered under its first export alone; ignored components are left out.
  A member that an earlier pattern has turned into a property keeps the id it got there.
  There is no registry when a walk that it takes does not end (`ofSetting?`).
-/

import PatternCatalog.Pattern.Build

namespace PatternCatalog

/-- A registered component: its declaration, its file and its pattern. -/
structure Registration where
  key : DeclarationKey
  candidate : Candidate
  build : PatternBuild

namespace Registration

def entry (r : Registration) : PatternEntry where
  path := r.candidate.artifactPath
  declarationPath := r.candidate.declarationPath
  pattern := r.build.pattern
  properties := r.build.properties

end Registration

/-- Registrations in order. -/
abbrev Registry := List Registration

namespace Registry

def identity? (rs : Registry) (key : DeclarationKey) : Option PatternIdentity :=
  (rs.find? (·.key == key)).map (·.build.identity)

/-- The id of the property that a member has become. -/
def propertyId? (rs : Registry) (key : MemberKey) : Option String :=
  ((rs.flatMap (·.build.newProperties)).reverse.lookup key).map (·.id)

/-- Registers a component, unless it is ignored or its declaration is registered already. -/
def add (s : Setting) (candidate : Candidate) (rs : Registry) (c : Component) : Registry :=
  if c.ignored || rs.any (·.key == c.shape.key) then rs
  else rs ++ [⟨c.shape.key, candidate, s.build rs.propertyId? c⟩]

/-- Registers the components that a file exports. -/
def addFile (s : Setting) (rs : Registry) (file : Candidate × Nat) : Registry :=
  (Component.exported s.library s.options file.2).foldl (add s file.1) rs

def ofSetting (s : Setting) : Registry := s.candidates.zipIdx.foldl (addFile s) []

/-- The pattern of a declaration, which is built on demand when it is not registered. -/
def pattern? (s : Setting) (rs : Registry) (key : DeclarationKey) : Option PatternIdentity :=
  rs.identity? key <|> do
    let c ← Component.ofDeclaration? s.library s.options (s.library.exportName key) key
    if c.ignored then none else some (s.build (fun _ => none) c).identity

/-! ## Walks -/

/-- Registers a component as `add` does; none when its pattern does not get built. -/
def add? (s : Setting) (candidate : Candidate) (rs : Registry) (c : Component) : Option Registry :=
  if c.ignored || rs.any (·.key == c.shape.key) || s.buildEnds rs.propertyId? c then some (add s candidate rs c) else none

/-- Registers the components that a file exports; none when it does not turn out what they are. -/
def addFile? (s : Setting) (rs : Registry) (file : Candidate × Nat) : Option Registry :=
  if (s.library.localExports file.2).all fun e => Component.isDecided s.library s.options e.2 then
    (Component.exported s.library s.options file.2).foldlM (add? s file.1) rs
  else none

def ofSetting? (s : Setting) : Option Registry := s.candidates.zipIdx.foldlM (addFile? s) []

/-- Whether it turns out which pattern a declaration has. -/
def patternEnds (s : Setting) (rs : Registry) (key : DeclarationKey) : Bool :=
  (rs.identity? key).isSome ||
    (Component.isDecided s.library s.options key &&
      (Component.ofDeclaration? s.library s.options (s.library.exportName key) key).all fun c =>
        c.ignored || s.buildEnds (fun _ => none) c)

end Registry

end PatternCatalog
