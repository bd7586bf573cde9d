import Exposition.Binary64.Rounding
import Exposition.Text.Basic
/-!
# Log events — what the library tells about its work

An event has a severity and its own fields.  `δ` is what a caller tells about an error besides the error
itself.
-/
namespace Exposition
namespace Log

inductive Severity
  | debug
  | info
  | warning
  | error
  | critical
  deriving DecidableEq, Repr

namespace Severity

def level : Severity → Nat
  | debug => 10
  | info => 20
  | warning => 30
  | error => 40
  | critical => 50

def word : Severity → Text
  | debug => "debug"
  | info => "info"
  | warning => "warning"
  | error => "error"
  | critical => "critical"

def all : List Severity := [debug, info, warning, error, critical]

end Severity

/-- A log event: a finished document with the number of families written and skipped and the seconds it
took; an error that was met; a metrics file that was written, or was not and why; or a plain message. -/
inductive Event (δ : Type)
  | documentWritten (written skipped : Int) (duration : Binary64)
  | errorMet (kind message : Text) (context : Option δ)
  | metricsFileWritten (path : Text)
  | metricsFileFailed (path error : Text)
  | plain (severity : Severity) (message : Text)
  deriving DecidableEq, Repr

namespace Event

variable {δ : Type}

/-- A finished document, its duration being told in whole millionths of a second. -/
def ofDocument (written skipped : Int) (duration : Binary64) : Event δ :=
  documentWritten written skipped duration.roundToMillionths

def severity : Event δ → Severity
  | documentWritten _ _ _ => .debug
  | errorMet _ _ _ => .error
  | metricsFileWritten _ => .debug
  | metricsFileFailed _ _ => .error
  | plain s _ => s

def title : Event δ → Text
  | documentWritten _ _ _ => "OpenMetrics document written"
  | errorMet _ _ _ => "Error occurred"
  | metricsFileWritten _ => "Wrote metrics file"
  | metricsFileFailed _ _ => "Failed to write metrics file"
  | plain _ m => m

/-- The word that tells events of the library apart; a plain message has none. -/
def kind? : Event δ → Option Text
  | documentWritten _ _ _ => some "exposition_write"
  | errorMet _ _ _ => some "error"
  | metricsFileWritten _ => some "textfile_write"
  | metricsFileFailed _ _ => some "textfile_error"
  | plain _ _ => none

end Event
end Log
end Exposition
