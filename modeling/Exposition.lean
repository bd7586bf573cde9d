import Exposition.Decimal.Reader
import Exposition.Document.Reader
import Exposition.Log.Session
import Exposition.MetricsFile
import Exposition.Proofs.Document.Framing
import Exposition.Proofs.Document.Failures
import Exposition.Proofs.Histogram.Totals
import Exposition.Proofs.Family.Groups
import Exposition.Proofs.Document.Composition
import Exposition.Proofs.Document.Blocks
import Exposition.Proofs.Files.Walks
import Exposition.Proofs.MetricsFile.Replacing
import Exposition.Proofs.MetricsFile.Reading
import Exposition.Proofs.Document.Accounting
import Exposition.Proofs.Family.Beginnings
import Exposition.Proofs.Document.Created
import Exposition.Proofs.MetricsFile.Clearing
import Exposition.Proofs.Files.Refusals
import Exposition.Proofs.MetricsFile.Answers
import Exposition.Proofs.Settings.Loading
import Exposition.Proofs.Log.Runs
import Exposition.Proofs.Log.Attempts
import Exposition.Proofs.Binary64.Values
import Exposition.Proofs.Histogram.Lines
import Exposition.Proofs.Binary64.Roundings
import Exposition.Proofs.Decimal.Values
import Exposition.Proofs.Decimal.Grids
import Exposition.Proofs.Decimal.Shortest
import Exposition.Proofs.Decimal.Layout
import Exposition.Proofs.Decimal.Printing
import Exposition.Proofs.Family.Turns
import Exposition.Proofs.Histogram.Conversion
import Exposition.Proofs.Binary64.Exact
import Exposition.Proofs.Histogram.WholeExponents
import Exposition.Proofs.Histogram.TopBuckets
import Exposition.Proofs.Binary64.Doubling
import Exposition.Proofs.Histogram.Resolutions
import Exposition.Proofs.Binary64.Closest
import Exposition.Proofs.WholeNumbers
import Exposition.Proofs.Record.Series
import Exposition.Proofs.Text.Strings
import Exposition.Proofs.Document.Encoding
import Exposition.Proofs.Text.Backslashes
import Exposition.Proofs.Binary64.Millionths
import Exposition.Proofs.Log.Durations
import Exposition.Proofs.Files.Directories
import Exposition.Proofs.Log.Levels
import Exposition.Proofs.Settings.Directories
import Exposition.Proofs.Settings.Choosing
import Exposition.Proofs.Decimal.Canonical
