/-
  PatternCatalog.Identity.Previous — the ids of an earlier analysis of the same library.

  Four tables are filled from the earlier analysis, pattern by pattern; a key that is entered
  again takes the later id. The strategy answers from the tables and mints what they lack.
-/

import PatternCatalog.Identity
import PatternCatalog.Analysis

namespace PatternCatalog.Identity

/-- Rows in the order they were entered. -/
abbrev Table (κ : Type) := List (κ × String)

/-- The last id entered under a key. -/
def Table.last? {κ : Type} [BEq κ] (t : Table κ) (key : κ) : Option String :=
  (t.reverse.find? (·.1 == key)).map (·.2)

structure Previous where
  patterns : Table String
  properties : Table (String × String)
  slots : Table (String × String)
  enumOptions : Table (String × String)
  deriving DecidableEq, Repr

namespace Previous

def optionRows (p : Property) : Table (String × String) :=
  match p.kind with
  | .enum options => options.map fun o => ((p.id, o.contextId), o.id)
  | _ => []

/-- The tables of an analysis; a shared property is entered under every pattern that refers to it. -/
def ofAnalysis (a : Analysis) : Previous where
  patterns := a.patterns.map fun e => (e.pattern.contextId, e.pattern.id)
  properties := a.patterns.flatMap fun e =>
    (a.propertiesOf e.pattern).map fun p => ((e.pattern.id, p.contextId), p.id)
  slots := a.patterns.flatMap fun e => e.pattern.slots.map fun s => ((e.pattern.id, s.contextId), s.id)
  enumOptions := a.patterns.flatMap fun e => (a.propertiesOf e.pattern).flatMap optionRows

def nestedIn (digest : Digest) (t : Table (String × String)) (parent contextId : String) : String :=
  (t.last? (parent, contextId)).getD (nested digest parent contextId)

def strategy (digest : Digest) (p : Previous) : Strategy where
  pattern contextId := (p.patterns.last? contextId).getD (freshPattern digest contextId)
  property := nestedIn digest p.properties
  slot := nestedIn digest p.slots
  enumOption := nestedIn digest p.enumOptions

end Previous

end PatternCatalog.Identity
