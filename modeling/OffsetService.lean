import OffsetService.AddressMap
import OffsetService.Archive
import OffsetService.Builder
import OffsetService.Builder.Sample
import OffsetService.Bytes
import OffsetService.Cache
import OffsetService.Cache.Crowd
import OffsetService.Cache.Download
import OffsetService.Cache.Locks
import OffsetService.Cache.Machinery
import OffsetService.Client
import OffsetService.Container.Read
import OffsetService.Container.Records
import OffsetService.Container.Write
import OffsetService.Database
import OffsetService.Decimal.Binary64
import OffsetService.Decimal.Shortest
import OffsetService.Decoder
import OffsetService.Delivery
import OffsetService.Directory
import OffsetService.Entries
import OffsetService.Fault
import OffsetService.Gateway
import OffsetService.Gateway.MediaType
import OffsetService.Identity
import OffsetService.Image
import OffsetService.Image.Arithmetic
import OffsetService.Json.Number
import OffsetService.Json.Reader
import OffsetService.Json.Refusal
import OffsetService.Json.Render
import OffsetService.Json.Value
import OffsetService.Launch
import OffsetService.Launch.Trial
import OffsetService.Layout
import OffsetService.LogFilter
import OffsetService.Machine
import OffsetService.Main
import OffsetService.NameMap
import OffsetService.Numeric
import OffsetService.Query
import OffsetService.Record
import OffsetService.Record.Decode
import OffsetService.Remote
import OffsetService.Resolve.Collector
import OffsetService.Resolve.Definitions
import OffsetService.Resolve.FieldList
import OffsetService.Resolve.Types
import OffsetService.Settings
import OffsetService.Settings.Choices
import OffsetService.Settings.CommandLine
import OffsetService.Settings.Parameter
import OffsetService.SymbolStream
import OffsetService.Text.Blank
import OffsetService.Text.Digits
import OffsetService.Text.Fields
import OffsetService.Text.Hex
import OffsetService.Text.Printable
import OffsetService.Text.Quoted
import OffsetService.Text.Utf8
import OffsetService.Traced
import OffsetService.TypeStream
import OffsetService.Web.Address
import OffsetService.Web.Exchange
import OffsetService.Web.IpAddress
import OffsetService.Web.Message
import OffsetService.Web.Uri
import OffsetService.Wire
import OffsetService.Wire.Age
import OffsetService.Wire.Decode
import OffsetService.Proofs.Download
import OffsetService.Proofs.AllOrNothing
import OffsetService.Proofs.Crowd.Downloads
import OffsetService.Proofs.Crowd.OneDownload
import OffsetService.Proofs.Database.Answers
import OffsetService.Proofs.Image.Keys
import OffsetService.Proofs.Client.AsWithoutService
import OffsetService.Proofs.Database.Addresses
import OffsetService.Proofs.Gateway.Refusals
import OffsetService.Proofs.Gateway.History
import OffsetService.Proofs.Crowd.MapLock
import OffsetService.Proofs.Crowd.Turns
import OffsetService.Proofs.Image.Safety
import OffsetService.Proofs.Image.StrictReader
import OffsetService.Proofs.Components
import OffsetService.Proofs.DownloadUrl
import OffsetService.Proofs.Resolve.Asked
import OffsetService.Proofs.Database.Reached
import OffsetService.Proofs.Gateway.Rewriting
import OffsetService.Proofs.Database.Layouts
import OffsetService.Proofs.Widths
import OffsetService.Proofs.Wire.AgeGrammar
import OffsetService.Proofs.Image.Longer
import OffsetService.Proofs.Database.FullScan
import OffsetService.Proofs.Remote.Whole
import OffsetService.Proofs.Database.PageParts
import OffsetService.Proofs.Database.Alignment
import OffsetService.Proofs.Leaves
import OffsetService.Proofs.Resolve.Walks
import OffsetService.Proofs.Image.PathBytes
import OffsetService.Proofs.Database.Sections
import OffsetService.Proofs.Machinery
import OffsetService.Proofs.Digits
import OffsetService.Proofs.Quoted
import OffsetService.Proofs.Decimal.Shortest
import OffsetService.Proofs.Web.IpAddress
import OffsetService.Proofs.Web.Exchange
