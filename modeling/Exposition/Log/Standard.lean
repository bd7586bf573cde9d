import Exposition.Log.Session
/-!
# A standard package — calls as fields

An entry is a list of fields until it is rendered, as data between braces or as a line to be read.  Only the
fields that every call has are kept here, so what is rendered is all there is of a plain message.
-/
namespace Exposition
namespace Log
namespace Processing

structure Fields where
  fields : List (Text × Text)
  rendered : Option Text
  deriving DecidableEq, Repr

namespace Fields

def add (e : Fields) (name value : Text) : Fields := { e with fields := e.fields ++ [(name, value)] }

def value (e : Fields) (name : Text) : Text := (e.fields.lookup name).getD []

def quoted (t : Text) : Text :=
  let mark : Text := "\""
  mark ++ t.flatMap (fun c => if [c] = mark ∨ [c] = ("\\" : Text) then ("\\" : Text) ++ [c] else [c]) ++ mark

def asData (e : Fields) : Text :=
  ("\x7b" : Text) ++ List.intercalate ", " (e.fields.map fun f => quoted f.1 ++ (": " : Text) ++ quoted f.2) ++
    ("\x7d" : Text)

def padded (n : Nat) (t : Text) : Text := t ++ (List.replicate (n - t.length) (" " : Text)).flatten

def asLine (e : Fields) : Text :=
  e.value "timestamp" ++ (" [" : Text) ++ padded 9 (e.value "level") ++ ("] " : Text) ++ padded 30 (e.value "event") ++
    (" [" : Text) ++ e.value "logger" ++ ("]" : Text)

def render (e : Fields) : Rendering → Text
  | .data => e.asData
  | .development => e.asLine

end Fields

def rootLogger : Text := "root"

variable {δ : Type}

def standard : Processing δ where
  Entry := Fields
  entry c := ⟨[("event", c.event.title)], none⟩
  process p enabled c e :=
    match p with
    | .filterByLevel => if enabled then some e else none
    | .addLoggerName => some (e.add "logger" (if c.logger.isEmpty then rootLogger else c.logger))
    | .addLogLevel => some (e.add "level" c.event.severity.word)
    | .addTime => some (e.add "timestamp" c.time)
    | .addStack => some e
    | .formatException => some e
    | .render r => some { e with rendered := some (e.render r) }
  text? e := e.rendered
  unprocessed c := Fields.asLine ⟨[("timestamp", c.time), ("level", c.event.severity.word), ("event", c.event.title)], none⟩
  contextTexts _ := []

end Processing
end Log
end Exposition
