import RootSign.AcceptedEvents
import RootSign.ApprovalGate
import RootSign.AtMostOnce
import RootSign.BufferedLoss
import RootSign.BufferedOrder
import RootSign.BundleChecker
import RootSign.BundleWrites
import RootSign.ChainState
import RootSign.CloudCalls
import RootSign.CloudChain
import RootSign.CloudRecords
import RootSign.Commitment
import RootSign.ConcurrentEvents
import RootSign.ConcurrentSync
import RootSign.ConcurrentWriters
import RootSign.CrossReferences
import RootSign.Crud.Action
import RootSign.Crud.Approval
import RootSign.Delivery
import RootSign.EarlyEnds
import RootSign.ElementFates
import RootSign.ExportedDocuments
import RootSign.ExportedRecords
import RootSign.Fixtures.SyncReceipt
import RootSign.ForwardAnswers
import RootSign.Hashing
import RootSign.HostileFiles
import RootSign.HtmlReport
import RootSign.HumanGate
import RootSign.Ingest.Events
import RootSign.Ingest.Handler
import RootSign.Ingest.Idempotency
import RootSign.Ingest.Schemas
import RootSign.IngestAnswers
import RootSign.JsonlAgreement
import RootSign.Lib.Gaps
import RootSign.Lib.Linked
import RootSign.Lib.Loop
import RootSign.Lib.Markup
import RootSign.Lib.PrefixFree
import RootSign.Lib.Ranges
import RootSign.Lib.Runs
import RootSign.Lib.Shelf
import RootSign.Lib.StableSort
import RootSign.Lib.TextLines
import RootSign.Lib.Walks
import RootSign.Loss
import RootSign.LostReplies
import RootSign.ManagedClient
import RootSign.Markdown
import RootSign.MarkdownReport
import RootSign.Noninterference
import RootSign.PairedReceipts
import RootSign.PostgresAgreement
import RootSign.PreviewsWithheld
import RootSign.Provenance
import RootSign.Python.Datetime
import RootSign.Python.Dumps
import RootSign.Python.Files
import RootSign.Python.Json
import RootSign.Python.JsonText
import RootSign.Python.KeyOrder
import RootSign.Python.Objects
import RootSign.Python.Runtime
import RootSign.Python.Sha256
import RootSign.Python.Str
import RootSign.RangeArithmetic
import RootSign.ReceiptFiles
import RootSign.RedactionExact
import RootSign.Replay
import RootSign.ReportTexts
import RootSign.Resolution
import RootSign.RetriedWrites
import RootSign.Sdk.BufferedClient
import RootSign.Sdk.Bundle
import RootSign.Sdk.BundleFiles
import RootSign.Sdk.Decorator
import RootSign.Sdk.Export
import RootSign.Sdk.ExportRun
import RootSign.Sdk.Hitl
import RootSign.Sdk.HttpClient
import RootSign.Sdk.JsonlBytes
import RootSign.Sdk.JsonlClient
import RootSign.Sdk.LossLedger
import RootSign.Sdk.Receipt
import RootSign.Sdk.Redaction
import RootSign.Sdk.Report
import RootSign.Sdk.Spool
import RootSign.Sdk.Tracing
import RootSign.SealedRecords
import RootSign.SessionTables
import RootSign.ShortWrites
import RootSign.Soundness
import RootSign.SpoolLines
import RootSign.SpoolOrder
import RootSign.SpoolRoundTrip
import RootSign.Store.Columns
import RootSign.SyncReceipts
import RootSign.Transparency
import RootSign.Verdict
import RootSign.VerdictExact
import RootSign.VerifiedExports
import RootSign.VerifiedRecords
import RootSign.VerifierParity
import RootSign.Verify
