import BeaconSsz.Bits
import BeaconSsz.Bytes
import BeaconSsz.Bytes.Hex
import BeaconSsz.Catalogue.Altair
import BeaconSsz.Catalogue.Amendment
import BeaconSsz.Catalogue.Bellatrix
import BeaconSsz.Catalogue.Capella
import BeaconSsz.Catalogue.Definitions
import BeaconSsz.Catalogue.Deneb
import BeaconSsz.Catalogue.Electra
import BeaconSsz.Catalogue.Phase0
import BeaconSsz.Catalogue.Primitive
import BeaconSsz.Command.Arguments
import BeaconSsz.Command.Run
import BeaconSsz.Fork
import BeaconSsz.Hash.Chunk
import BeaconSsz.Hash.Sha256
import BeaconSsz.Hash.Tree
import BeaconSsz.InputFile
import BeaconSsz.Json.Basic
import BeaconSsz.Json.Number
import BeaconSsz.Json.Printer
import BeaconSsz.Json.Reader
import BeaconSsz.Json.Record
import BeaconSsz.Main
import BeaconSsz.NamedBound
import BeaconSsz.Path
import BeaconSsz.Preset
import BeaconSsz.Proofs.Bits
import BeaconSsz.Proofs.Bytes
import BeaconSsz.Proofs.Bytes.Hex
import BeaconSsz.Proofs.Bytewise
import BeaconSsz.Proofs.Command.Formats
import BeaconSsz.Proofs.Command.RawFile
import BeaconSsz.Proofs.Fork
import BeaconSsz.Proofs.Hash.Commitment
import BeaconSsz.Proofs.Hash.Layers
import BeaconSsz.Proofs.Hash.Packing
import BeaconSsz.Proofs.Hash.Padded
import BeaconSsz.Proofs.InputFile
import BeaconSsz.Proofs.Json.Legible
import BeaconSsz.Proofs.Json.Record
import BeaconSsz.Proofs.Json.Spelling
import BeaconSsz.Proofs.Json.Text
import BeaconSsz.Proofs.Named
import BeaconSsz.Proofs.Registry.Building
import BeaconSsz.Proofs.Registry.Cycles
import BeaconSsz.Proofs.Registry.Definitions
import BeaconSsz.Proofs.Registry.Drawn
import BeaconSsz.Proofs.Registry.Plain
import BeaconSsz.Proofs.Registry.Redefinition
import BeaconSsz.Proofs.Registry.Resolution
import BeaconSsz.Proofs.Registry.Sharing
import BeaconSsz.Proofs.Registry.Stages
import BeaconSsz.Proofs.Registry.Standard
import BeaconSsz.Proofs.Registry.Walk
import BeaconSsz.Proofs.Result
import BeaconSsz.Proofs.Root.Checked
import BeaconSsz.Proofs.Root.Commitment
import BeaconSsz.Proofs.Root.Hashable
import BeaconSsz.Proofs.Root.Header
import BeaconSsz.Proofs.Root.Plain
import BeaconSsz.Proofs.Schedule
import BeaconSsz.Proofs.Schema.Bare
import BeaconSsz.Proofs.Schema.Composition
import BeaconSsz.Proofs.Schema.Flaw
import BeaconSsz.Proofs.Schema.Modest
import BeaconSsz.Proofs.Schema.Representable
import BeaconSsz.Proofs.Schema.Resolve
import BeaconSsz.Proofs.Schema.Sound
import BeaconSsz.Proofs.Schema.Variation
import BeaconSsz.Proofs.Schema.ZeroValue
import BeaconSsz.Proofs.Text.Decimal
import BeaconSsz.Proofs.Text.Interface
import BeaconSsz.Proofs.Uniform
import BeaconSsz.Proofs.Widening
import BeaconSsz.Proofs.Wire.Amplification
import BeaconSsz.Proofs.Wire.BitFields
import BeaconSsz.Proofs.Wire.Encode
import BeaconSsz.Proofs.Wire.Fields
import BeaconSsz.Proofs.Wire.Fit
import BeaconSsz.Proofs.Wire.FixedPart
import BeaconSsz.Proofs.Wire.Frame
import BeaconSsz.Proofs.Wire.Layout
import BeaconSsz.Proofs.Wire.Leaf
import BeaconSsz.Proofs.Wire.Misfit
import BeaconSsz.Proofs.Wire.Overflow
import BeaconSsz.Proofs.Wire.Partition
import BeaconSsz.Proofs.Wire.RoundTrip
import BeaconSsz.Proofs.Wire.Sizes
import BeaconSsz.Proofs.Wire.Table
import BeaconSsz.Proofs.Wire.TrapFree
import BeaconSsz.Proofs.Wire.Zero
import BeaconSsz.Registry.Basic
import BeaconSsz.Registry.Build
import BeaconSsz.Registry.Error
import BeaconSsz.Root
import BeaconSsz.Schedule
import BeaconSsz.Schedule.Reader
import BeaconSsz.Schema.Agreement
import BeaconSsz.Schema.Descriptor
import BeaconSsz.Schema.Error
import BeaconSsz.Schema.Make
import BeaconSsz.Schema.Shape
import BeaconSsz.Text.Decimal
import BeaconSsz.Text.Quoted
import BeaconSsz.Text.Shown
import BeaconSsz.Trap
import BeaconSsz.Value
import BeaconSsz.Wire.Decode
import BeaconSsz.Wire.Encode
import BeaconSsz.Wire.Error
import BeaconSsz.Wire.Offset
import BeaconSsz.Wire.Reader
import BeaconSsz.Yaml.Document
import BeaconSsz.Yaml.Layout
import BeaconSsz.Yaml.Node
import BeaconSsz.Yaml.Number
import BeaconSsz.Yaml.Scalar
import BeaconSsz.Yaml.Tag
import BeaconSsz.Yaml.Text
import BeaconSsz.Yaml.Token
