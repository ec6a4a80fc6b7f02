import RoadTraffic.Availability
import RoadTraffic.Bits.Basic
import RoadTraffic.Bits.Error
import RoadTraffic.Bits.Gamma
import RoadTraffic.Bits.Lemmas
import RoadTraffic.Bits.Reader
import RoadTraffic.Bits.Writer
import RoadTraffic.Coloring
import RoadTraffic.CommandLine.Arguments
import RoadTraffic.CommandLine.Config
import RoadTraffic.CommandLine.Inputs
import RoadTraffic.CommandLine.Rehearsal
import RoadTraffic.CommandLine.Run
import RoadTraffic.CommandLine.Summary
import RoadTraffic.CommandLine.Usage
import RoadTraffic.Extraction
import RoadTraffic.Files.Fault
import RoadTraffic.Files.Tree
import RoadTraffic.Http.Client
import RoadTraffic.Http.Message
import RoadTraffic.Http.Status
import RoadTraffic.Http.Url
import RoadTraffic.Http.Wire
import RoadTraffic.Json.Reader
import RoadTraffic.Json.Value
import RoadTraffic.Keys.Codec
import RoadTraffic.Keys.Error
import RoadTraffic.Keys.Run
import RoadTraffic.Log
import RoadTraffic.Main
import RoadTraffic.Proofs.Addresses
import RoadTraffic.Proofs.BitPlaces
import RoadTraffic.Proofs.BitStream
import RoadTraffic.Proofs.CanonicalList
import RoadTraffic.Proofs.CarryOver
import RoadTraffic.Proofs.Coloring
import RoadTraffic.Proofs.CommandLine.Files
import RoadTraffic.Proofs.CommandLine.KeyFiles
import RoadTraffic.Proofs.CommandLine.Synchronization
import RoadTraffic.Proofs.CommandLine.ValueFiles
import RoadTraffic.Proofs.CommandLine.World
import RoadTraffic.Proofs.ExtractedKeys
import RoadTraffic.Proofs.Extraction
import RoadTraffic.Proofs.Failing
import RoadTraffic.Proofs.FieldPlaces
import RoadTraffic.Proofs.FieldStream
import RoadTraffic.Proofs.Gamma
import RoadTraffic.Proofs.GammaReading
import RoadTraffic.Proofs.Headers
import RoadTraffic.Proofs.KeyAcceptance
import RoadTraffic.Proofs.KeyCodec
import RoadTraffic.Proofs.KeyFormat
import RoadTraffic.Proofs.KeyLimit
import RoadTraffic.Proofs.KeyRoundTrip
import RoadTraffic.Proofs.LocalKeys
import RoadTraffic.Proofs.ParallelLists
import RoadTraffic.Proofs.Summary
import RoadTraffic.Proofs.Sync.Conclusions
import RoadTraffic.Proofs.Sync.Events
import RoadTraffic.Proofs.Sync.Failures
import RoadTraffic.Proofs.Sync.History
import RoadTraffic.Proofs.Sync.Interference
import RoadTraffic.Proofs.Sync.Interleaving
import RoadTraffic.Proofs.Sync.MissingData
import RoadTraffic.Proofs.Sync.Operations
import RoadTraffic.Proofs.Sync.Pipeline
import RoadTraffic.Proofs.Sync.Records
import RoadTraffic.Proofs.Sync.Recovery
import RoadTraffic.Proofs.Sync.Refinement
import RoadTraffic.Proofs.Sync.Revalidation
import RoadTraffic.Proofs.Sync.Revisions
import RoadTraffic.Proofs.Sync.Steps
import RoadTraffic.Proofs.Sync.Verdicts
import RoadTraffic.Proofs.Text.Number
import RoadTraffic.Proofs.Text.Percent
import RoadTraffic.Proofs.Text.Slashes
import RoadTraffic.Proofs.Text.Utf8
import RoadTraffic.Proofs.ValueCodec
import RoadTraffic.Proofs.ValueFormat
import RoadTraffic.Proofs.ValueRoundTrip
import RoadTraffic.Proofs.Varint
import RoadTraffic.Proofs.Words.Arithmetic
import RoadTraffic.Proofs.Words.Codecs
import RoadTraffic.Proofs.Words.FieldReading
import RoadTraffic.Proofs.Words.FieldWriting
import RoadTraffic.Proofs.Words.KeyPacking
import RoadTraffic.Proofs.Words.KeyReading
import RoadTraffic.Proofs.Words.Reader
import RoadTraffic.Proofs.Words.ValueReading
import RoadTraffic.Proofs.Words.Writer
import RoadTraffic.Proofs.Zlib.Content
import RoadTraffic.Proofs.Zlib.Inflation
import RoadTraffic.Proofs.Zlib.Limit
import RoadTraffic.Proofs.Zlib.Pieces
import RoadTraffic.Proofs.Zlib.Promise
import RoadTraffic.Proofs.Zlib.RoundTrip
import RoadTraffic.Proofs.Zlib.Streaming
import RoadTraffic.Proofs.Zlib.Tokens
import RoadTraffic.Remote
import RoadTraffic.Report
import RoadTraffic.Section
import RoadTraffic.Segment
import RoadTraffic.SpeedGroup
import RoadTraffic.Sync.Error
import RoadTraffic.Sync.Operations
import RoadTraffic.Sync.Script
import RoadTraffic.Sync.Session
import RoadTraffic.Sync.Source
import RoadTraffic.Telemetry
import RoadTraffic.Text.Blank
import RoadTraffic.Text.Number
import RoadTraffic.Text.Percent
import RoadTraffic.Text.Utf8
import RoadTraffic.Values.Codec
import RoadTraffic.Values.Error
import RoadTraffic.Varint
import RoadTraffic.Varint.Lemmas
import RoadTraffic.Words.Arithmetic
import RoadTraffic.Words.Keys
import RoadTraffic.Words.Stream
import RoadTraffic.Words.Values
import RoadTraffic.Zlib.Adler
import RoadTraffic.Zlib.Decompressor
import RoadTraffic.Zlib.Deflate
import RoadTraffic.Zlib.Huffman
import RoadTraffic.Zlib.Inflate
import RoadTraffic.Zlib.Symbols
