/-
  PatternCatalog.Identity — how patterns, properties, slots and enum options get their ids.

  A fresh id is the digest of context strings joined by colons (`assign`). A strategy answers
  the four questions a run asks; it may give an id of its own instead of a fresh one.
-/

import PatternCatalog.Digest

namespace PatternCatalog.Identity

def assign (digest : Digest) (parts : List String) : String := digest (":".intercalate parts)

/-- The fresh id of a pattern. -/
def freshPattern (digest : Digest) (contextId : String) : String := assign digest [contextId]

/-- The fresh id of something that belongs to a parent. -/
def nested (digest : Digest) (parent contextId : String) : String := assign digest [parent, contextId]

structure Strategy where
  pattern : String → String
  property : String → String → String
  slot : String → String → String
  enumOption : String → String → String

/-- Always a fresh id. -/
def Strategy.fresh (digest : Digest) : Strategy where
  pattern := freshPattern digest
  property := nested digest
  slot := nested digest
  enumOption := nested digest

/-- Partial answers by the user of the library; what they leave open gets a fresh id. -/
structure Overrides where
  pattern : Option (String → Option String) := none
  property : Option (String → String → Option String) := none
  slot : Option (String → String → Option String) := none
  enumOption : Option (String → String → Option String) := none

def nestedOr (digest : Digest) (given : Option (String → String → Option String)) (parent contextId : String) :
    String :=
  (given.bind fun f => f parent contextId).getD (nested digest parent contextId)

def Strategy.ofOverrides (digest : Digest) (o : Overrides) : Strategy where
  pattern contextId := (o.pattern.bind fun f => f contextId).getD (freshPattern digest contextId)
  property := nestedOr digest o.property
  slot := nestedOr digest o.slot
  enumOption := nestedOr digest o.enumOption

end PatternCatalog.Identity
