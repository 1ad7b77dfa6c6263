import PatternCatalog.Analysis.Decode
import PatternCatalog.Identity.Previous
import PatternCatalog.Run
import PatternCatalog.Analysis.Encode
import PatternCatalog.Proofs.Bundle.Reader
import PatternCatalog.Proofs.Component.Signature
import PatternCatalog.Proofs.Dependencies
import PatternCatalog.Proofs.Doc.Fences
import PatternCatalog.Proofs.Documentation
import PatternCatalog.Proofs.Growth.Ids
import PatternCatalog.Proofs.Identity.Clash
import PatternCatalog.Proofs.Identity.Reanalyzed
import PatternCatalog.Proofs.Identity.Required
import PatternCatalog.Proofs.Implementation
import PatternCatalog.Proofs.Library.Exports
import PatternCatalog.Proofs.Library.Space
import PatternCatalog.Proofs.Library.Transparency
import PatternCatalog.Proofs.Markup.Comment
import PatternCatalog.Proofs.Markup.Cursor.Module
import PatternCatalog.Proofs.Markup.Depth
import PatternCatalog.Proofs.Markup.ImportSyntax
import PatternCatalog.Proofs.Markup.Literal
import PatternCatalog.Proofs.Path.Climb
import PatternCatalog.Proofs.Path.Key
import PatternCatalog.Proofs.Path.Significant
import PatternCatalog.Proofs.Pattern.Partition
import PatternCatalog.Proofs.Property.Classification
import PatternCatalog.Proofs.Property.Literal
import PatternCatalog.Proofs.Property.Nullish
import PatternCatalog.Proofs.Property.Ordinal
import PatternCatalog.Proofs.Property.Scalar
import PatternCatalog.Proofs.Registry.OnDemand
import PatternCatalog.Proofs.Run.Bundled
import PatternCatalog.Proofs.Run.Discovered
import PatternCatalog.Proofs.Run.Ending
import PatternCatalog.Proofs.Run.Linked
import PatternCatalog.Proofs.Run.Registered
import PatternCatalog.Proofs.Run.Renumbered
import PatternCatalog.Proofs.Run.Resolved
import PatternCatalog.Proofs.Run.Stored
import PatternCatalog.Proofs.Slot.Detection
import PatternCatalog.Proofs.Slot.Tag
