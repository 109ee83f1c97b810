import MarkdownPrep.Chart.Display
import MarkdownPrep.Chart.Layout
import MarkdownPrep.Document
import MarkdownPrep.MathCheck
import MarkdownPrep.Prepare
import MarkdownPrep.Proofs.Prepare.Delimited
import MarkdownPrep.Proofs.Prepare.Frame
import MarkdownPrep.Proofs.Verbatim.RoundTrip
import MarkdownPrep.Proofs.Wrap.Pairing
import MarkdownPrep.Proofs.Prepare.Amounts
import MarkdownPrep.Proofs.Streaming.History
import MarkdownPrep.Proofs.Prepare.Settled
import MarkdownPrep.Proofs.Stash.Dress
import MarkdownPrep.Proofs.Stash.Blind
import MarkdownPrep.Proofs.Verbatim.Blind
import MarkdownPrep.Proofs.Amount.Blind
import MarkdownPrep.Proofs.Wrap.Blind
import MarkdownPrep.Proofs.Prepare.Uniform
import MarkdownPrep.Proofs.Prepare.Course
import MarkdownPrep.Proofs.Fence.Blind
import MarkdownPrep.Proofs.Fence.Mask
import MarkdownPrep.Proofs.Prepare.Surroundings
import MarkdownPrep.Proofs.Prepare.FencedBody
import MarkdownPrep.Proofs.Json.Braces
import MarkdownPrep.Proofs.Streaming.Arriving
import MarkdownPrep.Proofs.Chart.WrittenTable
import MarkdownPrep.Proofs.Render.Run
import MarkdownPrep.Proofs.Json.GivesBack
import MarkdownPrep.Proofs.Chart.WrittenFields
import MarkdownPrep.Proofs.Json.Decoded
import MarkdownPrep.Proofs.Chart.Canonical
import MarkdownPrep.Proofs.Chart.RoundTrip
import MarkdownPrep.Proofs.Chart.Reordering
import MarkdownPrep.Proofs.Fence.Exact
import MarkdownPrep.Proofs.Offsets.Prepare
import MarkdownPrep.Proofs.Streaming.Beginnings
import MarkdownPrep.Proofs.Fence.Growing
import MarkdownPrep.Proofs.Amount.Lexeme
import MarkdownPrep.Proofs.Amount.Longest
import MarkdownPrep.Proofs.Offsets.Longest
import MarkdownPrep.Proofs.Amount.RoundTrip
import MarkdownPrep.Proofs.Amount.Exhausted
import MarkdownPrep.Proofs.Offsets.Leftmost
import MarkdownPrep.Proofs.Dollar.Literal
import MarkdownPrep.Proofs.Chart.Columns
import MarkdownPrep.Proofs.Prepare.DollarPair
import MarkdownPrep.Proofs.Chart.ShownDigits
import MarkdownPrep.Proofs.Chart.CompactUnit
import MarkdownPrep.Proofs.Document.CodeBlocks
import MarkdownPrep.Proofs.Chart.Settings
import MarkdownPrep.Proofs.Document.ShownCode
import MarkdownPrep.Proofs.Json.Items
import MarkdownPrep.Proofs.Json.KeyOrder
import MarkdownPrep.Proofs.Chart.DataRows
import MarkdownPrep.Proofs.Json.Opening
import MarkdownPrep.Proofs.Json.ArrayText
import MarkdownPrep.Proofs.Chart.ListSpelling
import MarkdownPrep.Proofs.Json.Shape
import MarkdownPrep.Proofs.Chart.Shape
import MarkdownPrep.Proofs.Chart.Refusal
import MarkdownPrep.Proofs.Chart.Layout
import MarkdownPrep.Proofs.MathCheck.Delimited
import MarkdownPrep.Proofs.Dollar.Hidden
import MarkdownPrep.Proofs.Stash.Nesting
import MarkdownPrep.Proofs.Stash.Siblings
import MarkdownPrep.Proofs.Wrap.Regions
