import Protowire.Binary.Parse
import Protowire.Buffer
import Protowire.Message.Checked
import Protowire.Message.Encode
import Protowire.Message.Equal
import Protowire.Message.Access
import Protowire.Message.Merge
import Protowire.Message.Rounds
import Protowire.Message.Show
import Protowire.Plain.OfMessage
import Protowire.Plain.ToMessage
import Protowire.Registry
import Protowire.Schema.Spelling
import Protowire.Vision.Any
import Protowire.Vision.Operation
import Protowire.Vision.Path
import Protowire.Vision.Property
import Protowire.Vision.Schema
import Protowire.Vision.Service
import Protowire.Vision.Status
import Protowire.Window
import Protowire.Writer
import Protowire.Proofs.Wire.Forms
import Protowire.Proofs.Wire.Groups
import Protowire.Proofs.Wire.Stable
import Protowire.Proofs.Record
import Protowire.Proofs.Schema
import Protowire.Proofs.Schema.Spelling
import Protowire.Proofs.Message.Canonical
import Protowire.Proofs.Message.Merge
import Protowire.Proofs.Message.Concatenation
import Protowire.Proofs.Message.Checked
import Protowire.Proofs.Plain.ToMessage
import Protowire.Proofs.Message.Reachable
import Protowire.Proofs.Message.Names
import Protowire.Proofs.Message.Grammar
import Protowire.Proofs.Wire.Written
import Protowire.Proofs.Message.RoundTrip
import Protowire.Proofs.FieldMap
import Protowire.Proofs.Message.Overlay
import Protowire.Proofs.Message.Older
import Protowire.Proofs.Wire.Shortest
import Protowire.Proofs.Message.Height
import Protowire.Proofs.Message.Normal
import Protowire.Proofs.Binary.Round
import Protowire.Proofs.Text.Base64
import Protowire.Proofs.Plain.RoundTrip
import Protowire.Proofs.Message.Unknown
import Protowire.Proofs.Message.Access
import Protowire.Proofs.Vision.Typed
import Protowire.Proofs.Vision.Lens
import Protowire.Proofs.Registry
import Protowire.Proofs.Vision.Any
import Protowire.Proofs.Vision.Service
import Protowire.Proofs.Message.Local
import Protowire.Proofs.Message.Order
import Protowire.Proofs.Message.Packed
import Protowire.Proofs.Message.Unchecked
import Protowire.Proofs.Message.Interrupted
import Protowire.Proofs.Message.Truncated
import Protowire.Proofs.Message.Encoded
import Protowire.Proofs.Message.Oneof
import Protowire.Proofs.Message.Register
import Protowire.Proofs.Message.Limits
import Protowire.Proofs.Wire.Cursor
import Protowire.Proofs.Registry.Closure
import Protowire.Proofs.Message.Presence
import Protowire.Proofs.Plain.Integer
import Protowire.Proofs.Wire.Varint
import Protowire.Proofs.Wire.ZigZag
import Protowire.Proofs.Buffer
import Protowire.Proofs.Message.Weight
import Protowire.Proofs.Plain.Rewritten
import Protowire.Proofs.Binary.Halfway
import Protowire.Proofs.Plain.Decimal
import Protowire.Proofs.Plain.Overflow
import Protowire.Proofs.Message.Rounds
