import Layering.Agreement
import Layering.Archive
import Layering.Catalog.Writer
import Layering.Check
import Layering.Command.Basic
import Layering.Command.Line
import Layering.Json.Basic
import Layering.Deflate
import Layering.Digest
import Layering.Disk.Basic
import Layering.Disk.Workspace
import Layering.Evaluation
import Layering.Explanation
import Layering.Failure
import Layering.Model
import Layering.Json.Number
import Layering.Json.Reader
import Layering.Main
import Layering.Order
import Layering.Report.Annotation
import Layering.Report.Basic
import Layering.Report.Console
import Layering.Report.Decode
import Layering.Report.Encode
import Layering.Report.Markdown
import Layering.Report.Normal
import Layering.Settings.Basic
import Layering.Settings.Reader
import Layering.Text.Basic
import Layering.Text.Quoted
import Layering.Violation
import Layering.Xml.Basic
import Layering.Xml.Document
import Layering.Xml.Markup
import Layering.Zip.Directory
import Layering.Zip.Entry
import Layering.Proofs.Index
import Layering.Proofs.Upward
import Layering.Proofs.Chain
import Layering.Proofs.Order
import Layering.Proofs.Reading
import Layering.Proofs.Json.Number
import Layering.Proofs.Json.Scan
import Layering.Proofs.Json.RoundTrip
import Layering.Proofs.Json.Canonical
import Layering.Proofs.Report.Instant
import Layering.Proofs.Report.RoundTrip
import Layering.Proofs.Disk.Tree
import Layering.Proofs.Disk.Saving
import Layering.Proofs.Evaluation
import Layering.Proofs.Loading
import Layering.Proofs.Gate
import Layering.Proofs.Report.Kept
import Layering.Proofs.Verdict
import Layering.Proofs.Fingerprint
import Layering.Proofs.Groups
import Layering.Proofs.Alike
import Layering.Proofs.Merging
import Layering.Proofs.Growth
import Layering.Proofs.Spelling
import Layering.Proofs.Orderable
import Layering.Proofs.Catalog
import Layering.Proofs.Inventory
import Layering.Proofs.History
import Layering.Proofs.Xml.Literal
import Layering.Proofs.Xml.Tag
import Layering.Proofs.Xml.Layout
import Layering.Proofs.CatalogText
import Layering.Proofs.Stacking
import Layering.Proofs.Partition
import Layering.Proofs.Accounting
import Layering.Proofs.Report.Row
import Layering.Proofs.Report.OrderTable
import Layering.Proofs.Lines
import Layering.Proofs.Report.Annotation
import Layering.Proofs.Report.Console
import Layering.Proofs.Settings
import Layering.Proofs.Symbol
import Layering.Proofs.CatalogModel
import Layering.Proofs.Json.Place
import Layering.Proofs.Report.Normal
