/-
  PatternCatalog.Proofs.Documented.Library — a library under another documentation of its members.

  A documentation says of each member of a library how it is documented, and leaves everything
  where it starts. So it is a labeling (`documented_eq`), and what no label has a say in is the
  same under all documentations.
-/

import PatternCatalog.Proofs.Labels.Components

namespace PatternCatalog

def Declaration.relabeled (f : Member → Label) (d : Declaration) : Declaration := { d with kind := d.kind.relabeled f }

def Module.relabeled (f : Member → Label) (m : Module) : Module := { m with declarations := m.declarations.map (Declaration.relabeled f) }

/-! ## Documentations -/

/-- How the members of each file are documented. -/
abbrev Documentation := Nat → Member → Option String

/-- The label of a member where it starts, documented so. -/
def Documentation.label (g : Documentation) (file : Nat) (m : Member) : Label := ⟨m.start, g file m⟩

/-- The labels of a documentation: declarations start where they start. -/
def Documentation.labeling (g : Documentation) : Labeling := ⟨g.label, fun _ d => d.start⟩

namespace Library

variable (g : Documentation)

def Place.documented (p : Place) : Place := ⟨p.file, p.type.relabeled (g.label p.file)⟩

def MemberRef.documented (m : MemberRef) : MemberRef := { m with member := m.member.relabeled (g.label m.file) }

/-- A library with the members documented so. -/
def documented (l : Library) : Library :=
  { l with files := l.files.mapIdx fun i f => { f with module := f.module.relabeled (g.label i) } }

theorem documented_eq (l : Library) : l.documented g = l.labeled g.labeling := rfl

end Library

def Component.Shape.documented (g : Documentation) (s : Component.Shape) : Component.Shape :=
  { s with props := s.props.map (Library.Place.documented g) }

def Component.documented (g : Documentation) (c : Component) : Component := { c with shape := c.shape.documented g }

end PatternCatalog
