import Exposition.Record
import Exposition.Text.Utf8
/-!
# Plain records — a line as its reader sees it

A plain record holds the texts of a record: numbers and times as they are written, the added label at
the end of the others, and all escapes undone.
-/
namespace Exposition

structure PlainExemplar where
  labels : Labels
  value : Text
  timestamp : Option Text
  deriving DecidableEq, Repr

structure PlainSample where
  series : Text
  labels : Labels
  value : Text
  timestamp : Option Text
  exemplar : Option PlainExemplar
  deriving DecidableEq, Repr

inductive PlainRecord
  | type (name word : Text)
  | unit (name unit : Text)
  | help (name help : Text)
  | sample (s : PlainSample)
  deriving DecidableEq, Repr

/-- What may be left out, and otherwise has a plain form of its own. -/
def optionally {α β : Type} (f : α → Except Fault β) : Option α → Except Fault (Option β)
  | none => .ok none
  | some a => (f a).map some

def Exemplar.plain (e : Exemplar) : Except Fault PlainExemplar := do
  let value ← e.value.toText
  let timestamp ← optionally timeText e.timestamp
  return ⟨e.labels, value, timestamp⟩

/-- The texts of a sample, or the first fault on its line. -/
def Sample.plain (s : Sample) : Except Fault PlainSample := do
  let added ← s.additional
  let value ← s.value.toText
  let timestamp ← optionally timeText s.timestamp
  let exemplar ← optionally Exemplar.plain s.exemplar
  return ⟨s.family ++ s.suffix.getD [], s.labels ++ added.toList, value, timestamp, exemplar⟩

def Record.plain : Record → Except Fault PlainRecord
  | type n t => .ok (.type n t.word)
  | unit n u => .ok (.unit n u)
  | help n h => .ok (.help n h)
  | sample s => s.plain.map .sample

/-! ## What is left of a record after it has been written as UTF-8 -/

def Labels.replaceSurrogates (ls : Labels) : Labels :=
  ls.map (fun l => ⟨Utf8.replaceSurrogates l.name, Utf8.replaceSurrogates l.value⟩)

def PlainExemplar.replaceSurrogates (e : PlainExemplar) : PlainExemplar :=
  { e with labels := e.labels.replaceSurrogates }

def PlainSample.replaceSurrogates (s : PlainSample) : PlainSample :=
  { s with series := Utf8.replaceSurrogates s.series, labels := s.labels.replaceSurrogates
           exemplar := s.exemplar.map PlainExemplar.replaceSurrogates }

/-- The record with a question mark for each surrogate. -/
def PlainRecord.replaceSurrogates : PlainRecord → PlainRecord
  | type n w => type (Utf8.replaceSurrogates n) w
  | unit n u => unit (Utf8.replaceSurrogates n) (Utf8.replaceSurrogates u)
  | help n h => help (Utf8.replaceSurrogates n) (Utf8.replaceSurrogates h)
  | sample s => sample s.replaceSurrogates

end Exposition
