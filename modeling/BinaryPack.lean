import BinaryPack.Datum.Conversion
import BinaryPack.Encoder.Layout
import BinaryPack.Item.Wire
import BinaryPack.Proofs.Datum.Agreement
import BinaryPack.Proofs.Datum.Conversion
import BinaryPack.Proofs.Datum.Packing
import BinaryPack.Proofs.Datum.Refusals
import BinaryPack.Proofs.Datum.Reordered
import BinaryPack.Proofs.Datum.Steps
import BinaryPack.Proofs.Datum.Values
import BinaryPack.Proofs.Decoding
import BinaryPack.Proofs.Delimiting
import BinaryPack.Proofs.Encoder.Admission
import BinaryPack.Proofs.Encoder.Bounds
import BinaryPack.Proofs.Encoder.Depth
import BinaryPack.Proofs.Encoder.Form
import BinaryPack.Proofs.Encoder.Order
import BinaryPack.Proofs.Encoder.Stream
import BinaryPack.Proofs.Encoder.Tree
import BinaryPack.Proofs.Encoder.Writing
import BinaryPack.Proofs.Events
import BinaryPack.Proofs.Item.Carrying
import BinaryPack.Proofs.Item.Editing
import BinaryPack.Proofs.Item.Faults
import BinaryPack.Proofs.Item.Inversion
import BinaryPack.Proofs.Item.Losses
import BinaryPack.Proofs.Item.Place
import BinaryPack.Proofs.Item.Resources
import BinaryPack.Proofs.Item.Sizes
import BinaryPack.Proofs.Options
import BinaryPack.Proofs.Reencoding
import BinaryPack.Proofs.RoundTrip
import BinaryPack.Proofs.Schema.Order
import BinaryPack.Proofs.Schema.RoundTrip
import BinaryPack.Proofs.Schema.Typing
import BinaryPack.Proofs.Schema.Visits
import BinaryPack.Proofs.Text.Utf8
import BinaryPack.Proofs.Truncation
import BinaryPack.Proofs.Value.Equality
import BinaryPack.Proofs.Value.Path
import BinaryPack.Proofs.Value.Reordered
import BinaryPack.Proofs.Value.Update
import BinaryPack.Proofs.Wire.Form
import BinaryPack.Schema.Catalogue
import BinaryPack.Value.Conversion
import BinaryPack.Value.Equality
import BinaryPack.Value.Path
import BinaryPack.Value.Text
