import TagWire.Log
import TagWire.Proofs.Tag.Agreement
import TagWire.Proofs.Tag.Canonical
import TagWire.Proofs.Typing.Acceptance
import TagWire.Proofs.Typing.Bounds
import TagWire.Proofs.Typing.Completeness
import TagWire.Proofs.Typing.Errors
import TagWire.Proofs.Time.Rounding
import TagWire.Proofs.Typing.Gating
import TagWire.Proofs.Typing.Instances
import TagWire.Proofs.Typing.Parts
import TagWire.Proofs.Typing.Relaying
import TagWire.Proofs.Typing.Spelling
import TagWire.Proofs.Wire.Cells
import TagWire.Proofs.Wire.Conformance
import TagWire.Proofs.Wire.Extent
import TagWire.Proofs.Wire.LeastSize
import TagWire.Proofs.Wire.Plain
import TagWire.Proofs.Wire.Products
import TagWire.Proofs.Wire.Reencoding
import TagWire.Proofs.Wire.Relaying
import TagWire.Proofs.Wire.Resolved
import TagWire.Proofs.Wire.Streaming
import TagWire.Proofs.Data.Levels
import TagWire.Proofs.Tag.Substitution
import TagWire.Proofs.Tag.Recognition
import TagWire.Proofs.Tag.Position
