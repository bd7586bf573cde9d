import Exposition.Emission
import Exposition.Exemplar
/-!
# Records — the lines of a document

A family is written as metadata records followed by samples.  A sample names its series, may add one
label to those of its point, and has a value, a timestamp and an exemplar, the last two if they are
given.  Numbers become text only when the line is written, so a number that has none, be it too large
for a double or of too many digits, breaks the line off where it would stand; the added label is the
exception, as its text is needed before the line begins.
-/
namespace Exposition

inductive MetricType
  | unknown
  | gauge
  | counter
  | stateSet
  | info
  | histogram
  | gaugeHistogram
  | summary
  deriving DecidableEq, Repr

namespace MetricType

def word : MetricType → Text
  | unknown => "unknown"
  | gauge => "gauge"
  | counter => "counter"
  | stateSet => "stateset"
  | info => "info"
  | histogram => "histogram"
  | gaugeHistogram => "gaugehistogram"
  | summary => "summary"

def all : List MetricType :=
  [unknown, gauge, counter, stateSet, info, histogram, gaugeHistogram, summary]

end MetricType

/-- A number as the format writes it: a whole number as the nearest double. -/
def Number.toText (x : Number) : Except Fault Text :=
  match x.toBinary64? with
  | some d => .ok d.toText
  | none => .error .integerTooLarge

/-- A count as the format writes it: as the whole number that it is. -/
def countText (n : Int) : Except Fault Text := orFault .tooManyDigits (Text.ofInt? n)

/-- A time in milliseconds as the format writes it: in seconds. -/
def timeText (t : Int) : Except Fault Text := orFault .tooManyDigits (Text.ofMilliseconds? t)

/-- The value of a sample: a measurement, a count, a time in milliseconds, or a yes or no. -/
inductive SampleValue
  | measurement (x : Number)
  | count (n : Int)
  | time (t : Int)
  | flag (b : Bool)
  deriving DecidableEq, Repr

def SampleValue.toText : SampleValue → Except Fault Text
  | measurement x => x.toText
  | count n => countText n
  | time t => timeText t
  | flag true => .ok "1"
  | flag false => .ok "0"

/-- The label that a sample adds to those of its point: the bound of a bucket, a quantile, or the name
of a state. -/
inductive AddedLabel
  | bound (x : Number)
  | quantile (x : Number)
  | state (family name : Text)
  deriving DecidableEq, Repr

def AddedLabel.toLabel : AddedLabel → Except Fault Label
  | bound x => x.toText.map (⟨"le", ·⟩)
  | quantile x => x.toText.map (⟨"quantile", ·⟩)
  | state family name => .ok ⟨family, name⟩

structure Sample where
  family : Text
  suffix : Option Text
  labels : Labels
  added : Option AddedLabel
  value : SampleValue
  timestamp : Option Int
  exemplar : Option Exemplar
  deriving DecidableEq, Repr

inductive Record
  | type (name : Text) (type : MetricType)
  | unit (name unit : Text)
  | help (name help : Text)
  | sample (s : Sample)
  deriving DecidableEq, Repr

/-- A time behind a space.  The space is written before the time becomes text. -/
def timestampEmission : Option Int → Emission
  | none => .empty
  | some t => .ofPieces [" "] ++ .ofExcept (timeText t)

/-- An exemplar behind a number sign: its labels, always in braces, its value and its time. -/
def Exemplar.emission (e : Exemplar) : Emission :=
  .ofPieces (" # " :: (e.labels.pieces none ++ [(" " : Text)])) ++ .ofExcept e.value.toText ++
    timestampEmission e.timestamp

def lineEnd (timestamp : Option Int) (exemplar : Option Exemplar) : Emission :=
  timestampEmission timestamp ++
    ((match exemplar with
      | none => .empty
      | some e => e.emission) ++ .ofPieces ["\n"])

namespace Sample

def additional (s : Sample) : Except Fault (Option Label) :=
  match s.added with
  | none => .ok none
  | some a => a.toLabel.map some

def emission (s : Sample) : Emission :=
  match s.additional with
  | .error f => .ofFault f
  | .ok l =>
    .ofPieces (seriesPieces s.family s.suffix s.labels l) ++ .ofExcept s.value.toText ++
      lineEnd s.timestamp s.exemplar

end Sample

def Record.emission : Record → Emission
  | type n t => .ofPieces [("# TYPE " : Text) ++ n ++ " " ++ t.word ++ "\n"]
  | unit n u => .ofPieces [("# UNIT " : Text) ++ n ++ " " ++ u.escape ++ "\n"]
  | help n h => .ofPieces [("# HELP " : Text) ++ n ++ " " ++ h.escape ++ "\n"]
  | sample s => s.emission

end Exposition
