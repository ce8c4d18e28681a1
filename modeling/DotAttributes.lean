import DotAttributes.Validation
import DotAttributes.Source
import DotAttributes.Proofs.Arrow.Language
import DotAttributes.Proofs.Arrow.Spans
import DotAttributes.Proofs.Arrow.Warnings
import DotAttributes.Proofs.Color.Folding
import DotAttributes.Proofs.Color.Spans
import DotAttributes.Proofs.Context
import DotAttributes.Proofs.Distinct
import DotAttributes.Proofs.Document.Path
import DotAttributes.Proofs.Faithful
import DotAttributes.Proofs.FreeText
import DotAttributes.Proofs.IgnoringCase
import DotAttributes.Proofs.Indexed
import DotAttributes.Proofs.Isolation
import DotAttributes.Proofs.Markup.ContentModel
import DotAttributes.Proofs.Markup.Folding
import DotAttributes.Proofs.Markup.Placement
import DotAttributes.Proofs.Markup.RoundTrip
import DotAttributes.Proofs.Markup.Siblings
import DotAttributes.Proofs.Markup.Spans
import DotAttributes.Proofs.Operators
import DotAttributes.Proofs.Order
import DotAttributes.Proofs.Places
import DotAttributes.Proofs.Record.Grammar
import DotAttributes.Proofs.Record.Ports
import DotAttributes.Proofs.Record.RoundTrip
import DotAttributes.Proofs.Record.Spans
import DotAttributes.Proofs.Record.Trimming
import DotAttributes.Proofs.Shift
import DotAttributes.Proofs.SourceOrder
import DotAttributes.Proofs.Style.Grammar
import DotAttributes.Proofs.Style.Spans
import DotAttributes.Proofs.Switches
import DotAttributes.Proofs.WellFormed
import DotAttributes.Proofs.Color.Grammar
import DotAttributes.Proofs.Color.Single
import DotAttributes.Proofs.Color.Range
import DotAttributes.Proofs.Color.Segments
import DotAttributes.Proofs.Color.Hexadecimal
import DotAttributes.Proofs.Color.Palette
import DotAttributes.Proofs.Color.Families
import DotAttributes.Proofs.Number.Double
import DotAttributes.Proofs.Record.LongestMatch
import DotAttributes.Proofs.Record.Tiling
import DotAttributes.Proofs.Record.Offender
import DotAttributes.Proofs.Markup.Regions
import DotAttributes.Proofs.Markup.Gaps
import DotAttributes.Proofs.Markup.Modes
import DotAttributes.Proofs.Descent
