import EventLog.Main
import EventLog.Workspace
import EventLog.Primitive
import EventLog.Proofs.Decoding.Journal
import EventLog.Proofs.Decoding.Scan
import EventLog.Proofs.Decoding.LineGrammar
import EventLog.Proofs.Decoding.Offered
import EventLog.Proofs.Decoding.Transcript
import EventLog.Proofs.Decoding.Following
import EventLog.Proofs.Decoding.Tokens
import EventLog.Proofs.Decoding.Positions
import EventLog.Proofs.Conversion.QuotedTokens
import EventLog.Proofs.Conversion.Columns
import EventLog.Proofs.Primitive.Position
import EventLog.Proofs.Primitive.Lookahead
import EventLog.Proofs.Time.Printed
import EventLog.Proofs.Time.Resolved
import EventLog.Proofs.Json.Grammar
import EventLog.Proofs.Json.Encoding
import EventLog.Proofs.Json.Merge
import EventLog.Proofs.Json.RoundTrip
import EventLog.Proofs.Json.SecondPass
import EventLog.Proofs.Json.Leaves
import EventLog.Proofs.Json.TagsName
import EventLog.Proofs.NameList
import EventLog.Proofs.Text.Utf8
import EventLog.Proofs.Text.Lines
import EventLog.Proofs.Text.Backslash
import EventLog.Proofs.Text.Division
import EventLog.Proofs.Text.Broken
import EventLog.Proofs.Text.LineReader
import EventLog.Proofs.Settings.Runnable
import EventLog.Proofs.Settings.Layers
import EventLog.Proofs.Settings.Spelling
import EventLog.Proofs.Settings.Precedence
import EventLog.Proofs.Settings.RoundTrip
import EventLog.Proofs.Encoding.Absent
import EventLog.Proofs.Encoding.Shown
import EventLog.Proofs.Encoding.StructuredData
import EventLog.Proofs.Encoding.Element
import EventLog.Proofs.Encoding.ElementContent
import EventLog.Proofs.Encoding.Row
import EventLog.Proofs.Encoding.Compact
import EventLog.Proofs.Conversion.Written
import EventLog.Proofs.Conversion.Lines
import EventLog.Proofs.Conversion.Bounded
import EventLog.Proofs.Conversion.Joined
import EventLog.Proofs.Conversion.Parallel
import EventLog.Proofs.Sharing.Holders
import EventLog.Proofs.Sharing.Runs
import EventLog.Proofs.Sharing.Walks
import EventLog.Proofs.Fields.Edits
import EventLog.Proofs.Fields.Slots
import EventLog.Proofs.Fields.Added
