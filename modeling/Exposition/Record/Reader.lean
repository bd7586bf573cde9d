import Exposition.Labels.Reader
import Exposition.Record.Plain
/-!
# Reading records — a line without its end

A line of metadata begins with a number sign and a word.  Any other line is a sample: its series ends at
a brace or a space, a label set may follow, and then come, each behind a space, the value, a time, and
behind a number sign an exemplar.
-/
namespace Exposition

def space : CodePoint := .ofChar ' '
def openingBrace : CodePoint := .ofChar '\x7b'

/-- A word up to a space, or to the end of the text. -/
def readWord (t : Text) : Text × Text := t.splitAtFirst (· = space)

/-- A value and a time behind a space, if there is one, up to what begins with `" # "` or to the end. -/
def readValue (t : Text) : Text × Option Text × Text :=
  let value := readWord t
  match Text.after? " # " value.2, Text.after? " " value.2 with
  | some _, _ => (value.1, none, value.2)
  | none, some r => (value.1, some (readWord r).1, (readWord r).2)
  | none, none => (value.1, none, value.2)

def readExemplar? (t : Text) : Option (Option PlainExemplar) :=
  if t = [] then some none
  else
    match Text.after? " # " t with
    | none => none
    | some r =>
      match Labels.read? r with
      | none => none
      | some (labels, r) =>
        match Text.after? " " r with
        | none => none
        | some r =>
          let (value, timestamp, rest) := readValue r
          if rest = [] then some (some ⟨labels, value, timestamp⟩) else none

def readOptionalLabels? (t : Text) : Option (Labels × Text) :=
  match t with
  | c :: _ => if c = openingBrace then Labels.read? t else some ([], t)
  | [] => some ([], t)

def PlainSample.read? (t : Text) : Option PlainSample :=
  let series := t.splitAtFirst (fun c => c = space || c = openingBrace)
  match readOptionalLabels? series.2 with
  | none => none
  | some (labels, r) =>
    match Text.after? " " r with
    | none => none
    | some r =>
      let (value, timestamp, rest) := readValue r
      (readExemplar? rest).map (⟨series.1, labels, value, timestamp, ·⟩)

def readNameAndText? (make : Text → Text → PlainRecord) (t : Text) : Option PlainRecord :=
  let name := readWord t
  match Text.after? " " name.2 with
  | none => none
  | some r => (Text.unescape? r).map (make name.1)

def PlainRecord.read? (t : Text) : Option PlainRecord :=
  match Text.after? "# TYPE " t, Text.after? "# UNIT " t, Text.after? "# HELP " t with
  | some r, _, _ => readNameAndText? .type r
  | none, some r, _ => readNameAndText? .unit r
  | none, none, some r => readNameAndText? .help r
  | none, none, none => (PlainSample.read? t).map .sample

end Exposition
