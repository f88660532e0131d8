import Depot.Archive.Error
import Depot.Archive.Extract
import Depot.Archive.Format
import Depot.Archive.Member
import Depot.Archive.Open
import Depot.Archive.Pattern
import Depot.Archive.Report
import Depot.Blake3
import Depot.ByteStream
import Depot.Bytes
import Depot.Cache.Basic
import Depot.Cache.Error
import Depot.Cache.Fetch
import Depot.Cache.Http
import Depot.Cache.Index
import Depot.Cache.Origin
import Depot.Cache.Transport
import Depot.Catalog.Basic
import Depot.Catalog.Query
import Depot.Catalog.Rebuild
import Depot.CommandLine.Basic
import Depot.CommandLine.Parser
import Depot.Crc32
import Depot.Deflate
import Depot.FileTree.Basic
import Depot.FileTree.Operations
import Depot.Gzip
import Depot.Instances
import Depot.Json.Node
import Depot.Json.Numeral
import Depot.Json.Printer
import Depot.Json.Token
import Depot.Json.Value
import Depot.Listing
import Depot.Location
import Depot.Main
import Depot.Manifest
import Depot.Number.Binary64
import Depot.Number.Shortest
import Depot.Platform.Architecture
import Depot.Platform.Host
import Depot.Platform.OsRelease
import Depot.Platform.Target
import Depot.Proofs.Archive.Containment
import Depot.Proofs.Archive.DryRun
import Depot.Proofs.Archive.Failure
import Depot.Proofs.Archive.Formats
import Depot.Proofs.Archive.LastFile
import Depot.Proofs.Archive.Names
import Depot.Proofs.Archive.Place
import Depot.Proofs.Archive.Visit
import Depot.Proofs.Blake3
import Depot.Proofs.Bytes
import Depot.Proofs.Cache.Alike
import Depot.Proofs.Cache.Coherence
import Depot.Proofs.Cache.Current
import Depot.Proofs.Cache.Download
import Depot.Proofs.Cache.Exchange
import Depot.Proofs.Cache.Fetch
import Depot.Proofs.Cache.Halt
import Depot.Proofs.Cache.Open
import Depot.Proofs.Cache.Origin
import Depot.Proofs.Cache.Place
import Depot.Proofs.Cache.Reads
import Depot.Proofs.Cache.Refresh
import Depot.Proofs.Cache.Retry
import Depot.Proofs.Cache.Room
import Depot.Proofs.Cache.Run
import Depot.Proofs.Cache.Sharing
import Depot.Proofs.Cache.Staging
import Depot.Proofs.Catalog.Item
import Depot.Proofs.Catalog.Query
import Depot.Proofs.Catalog.Rebuild
import Depot.Proofs.FileTree.Clear
import Depot.Proofs.FileTree.Growth
import Depot.Proofs.FileTree.Operations
import Depot.Proofs.FileTree.Unlinked
import Depot.Proofs.FileTree.Walk
import Depot.Proofs.Json.Numeral
import Depot.Proofs.Json.Reader
import Depot.Proofs.Json.RoundTrip
import Depot.Proofs.Json.Value
import Depot.Proofs.Listing
import Depot.Proofs.Manifest
import Depot.Proofs.Text.Digit
import Depot.Proofs.Text.Utf8
import Depot.Proofs.Url.Path
import Depot.Proofs.Version.Grammar
import Depot.Proofs.Version.Order
import Depot.Retry
import Depot.Session.Download
import Depot.Session.Error
import Depot.Session.Request
import Depot.Session.Run
import Depot.Settings.Basic
import Depot.Settings.Environment
import Depot.Settings.Literal
import Depot.Settings.Load
import Depot.Table
import Depot.Tar
import Depot.Text.Blank
import Depot.Text.CaseTable
import Depot.Text.CodePage
import Depot.Text.Digit
import Depot.Text.Glob
import Depot.Text.Lowercase
import Depot.Text.Quoted
import Depot.Text.Utf8
import Depot.Toml.Basic
import Depot.Toml.Number
import Depot.Toml.Parser
import Depot.Toml.Text
import Depot.Url.Host
import Depot.Url.Parser
import Depot.Url.Path
import Depot.Version.Basic
import Depot.Version.Filter
import Depot.Version.Parser
import Depot.Zip
import Depot.Proofs.Version.RoundTrip
import Depot.Proofs.FileTree.Apart
import Depot.Proofs.Cache.Frame
import Depot.Proofs.Session.Frame
import Depot.Proofs.Archive.Below
import Depot.Proofs.Catalog.Choices
import Depot.Proofs.Session.Answers
import Depot.Proofs.Archive.Hint
import Depot.Proofs.Platform.Target
import Depot.Proofs.Platform.OsRelease
import Depot.Proofs.Cache.Layout
import Depot.Proofs.Archive.Again
import Depot.Proofs.Number.Binary64
import Depot.Proofs.Retry
import Depot.Proofs.Settings.Layers
import Depot.Proofs.Settings.Load
