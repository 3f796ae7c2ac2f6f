import Stencil.Text.Blank
import Stencil.Text.HtmlReference
import Stencil.Text.Quoted
import Stencil.Text.Reference
import Stencil.Cursor
import Stencil.ErrorCode
import Stencil.Legacy
import Stencil.Node
import Stencil.Dom
import Stencil.Tag.Mark
import Stencil.Read.Attribute
import Stencil.Read.Leaf
import Stencil.Read.Tag
import Stencil.Siblings
import Stencil.Read.State
import Stencil.Read.Progress
import Stencil.Json
import Stencil.Json.Printer
import Stencil.Json.Reader
import Stencil.Parse
import Stencil.Json.Tree
import Stencil.Settings.Config
import Stencil.Settings.Dom
import Stencil.Command.Glob
import Stencil.Command.Invocation
import Stencil.Command.Run
import Stencil.Main
import Stencil.Proofs.Spans.State
import Stencil.Proofs.Termination
import Stencil.Proofs.Nesting
import Stencil.Proofs.Bytewise.Safety
import Stencil.Proofs.Containment
import Stencil.Proofs.RoundTrip
import Stencil.Proofs.Locality
import Stencil.Proofs.Isolation
import Stencil.Proofs.Apart
import Stencil.Proofs.Coverage
import Stencil.Proofs.Silence
import Stencil.Proofs.Diagnostics
import Stencil.Proofs.Scoping
import Stencil.Proofs.Depth
import Stencil.Proofs.Spacing
import Stencil.Proofs.Settings
import Stencil.Proofs.Content
import Stencil.Proofs.RawText
import Stencil.Proofs.AttributeList
import Stencil.Proofs.DirectivesOff
import Stencil.Proofs.Settling
import Stencil.Proofs.DirectiveParts
import Stencil.Proofs.Transcript
import Stencil.Proofs.Preformatted
import Stencil.Proofs.CommentEnd
import Stencil.Proofs.Namespaces
import Stencil.Proofs.Outline
import Stencil.Proofs.Batch
import Stencil.Proofs.BrowserSettings
import Stencil.Proofs.Bytewise.Moves
import Stencil.Proofs.Condensing
import Stencil.Proofs.Replacement
import Stencil.Proofs.Recognition
