import Exposition.Document
import Exposition.Record.Reader
/-!
# Reading documents — the records of a text

Each line of a document is a record, up to the one that marks its end; nothing follows that.
-/
namespace Exposition
namespace Document

/-- The lines of a text; what stands behind the last line feed is a line only if there is something. -/
def lines : Text → List Text
  | [] => []
  | c :: cs =>
    if c = Text.lineFeed then [] :: lines cs
    else
      match lines cs with
      | [] => [[c]]
      | l :: ls => (c :: l) :: ls

def endMark : Text := "# EOF"

def readLines? : List Text → Option (List PlainRecord)
  | [] => none
  | [l] => if l = endMark then some [] else none
  | l :: l' :: ls =>
    match PlainRecord.read? l, readLines? (l' :: ls) with
    | some r, some rs => some (r :: rs)
    | _, _ => none

def read? (t : Text) : Option (List PlainRecord) :=
  if t.getLast? = some Text.lineFeed then readLines? (lines t) else none

/-- The records that are meant to be written for snapshots that are not empty, one after the other. -/
def records (withCreated : Bool) : List Snapshot → Except Fault (List Record)
  | [] => .ok []
  | s :: ss =>
    if s.isEmpty then records withCreated ss
    else
      match s.family? with
      | none => .error (.unsupported s.className)
      | some f =>
        match f.records withCreated, records withCreated ss with
        | .error e, _ => .error e
        | _, .error e => .error e
        | .ok rs, .ok rs' => .ok (rs ++ rs')

end Document
end Exposition
