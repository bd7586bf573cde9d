import Exposition.Log.Event
import Exposition.Sink
import Exposition.Snapshot
/-!
# Documents — families one after the other

A document is the text of each snapshot in order, those without data points being skipped, and a last
line that marks its end.  It is streamed to a sink and flushed; what was written before a failure stays
written.  A document that is finished and a sink that fails are logged, the former with the time it took,
a document that cannot be produced is not.
-/
namespace Exposition
namespace Document

def contentType : Text := "application/openmetrics-text; version=1.0.0; charset=utf-8"

def endLine : Text := "# EOF\n"

/-- The whole document, up to its first fault. -/
def emission (withCreated : Bool) (ss : List Snapshot) : Emission :=
  .concat (ss.map (·.emission withCreated)) ++ .ofPieces [endLine]

inductive WriteFault
  | document (f : Fault)
  | sink (reason : Text)
  deriving DecidableEq, Repr

/-- What writing a document leaves: the sink, the fault if there was one, and the log, whose errors tell
how many families were written. -/
structure Written where
  sink : Sink
  fault : Option WriteFault
  log : List (Log.Event Nat)

def sinkErrorKind : Text := "OSError"

def sinkFailed (sink : Sink) (written : Nat) (reason : Text) : Written :=
  ⟨sink, some (.sink reason), [.errorMet sinkErrorKind reason (some written)]⟩

/-- Writes the last line and flushes, `elapsed` being the seconds that all of it took. -/
def finish (elapsed : Binary64) (sink : Sink) (written skipped : Nat) : Written :=
  match sink.writeAll [endLine] with
  | (sink, false) => sinkFailed sink written sink.writeError
  | (sink, true) =>
    match sink.flush with
    | (sink, some reason) => sinkFailed sink written reason
    | (sink, none) => ⟨sink, none, [.ofDocument written skipped elapsed]⟩

/-- Writes the snapshots and the end, so many families having been written and skipped before. -/
def writeFrom (withCreated : Bool) (elapsed : Binary64) (sink : Sink) (written skipped : Nat) :
    List Snapshot → Written
  | [] => finish elapsed sink written skipped
  | s :: ss =>
    if s.isEmpty then writeFrom withCreated elapsed sink written (skipped + 1) ss
    else
      let e := s.emission withCreated
      match sink.writeAll e.pieces with
      | (sink, false) => sinkFailed sink written sink.writeError
      | (sink, true) =>
        match e.fault with
        | some f => ⟨sink, some (.document f), []⟩
        | none => writeFrom withCreated elapsed sink (written + 1) skipped ss

def write (withCreated : Bool) (elapsed : Binary64) (sink : Sink) (ss : List Snapshot) : Written :=
  writeFrom withCreated elapsed sink 0 0 ss

/-- One document after the other to the same sink, each taking its own time. -/
def writeEach (withCreated : Bool) (elapsed : Nat → Binary64) (sink : Sink) : List (List Snapshot) → List Written
  | [] => []
  | ss :: rest =>
    let w := write withCreated (elapsed 0) sink ss
    w :: writeEach withCreated (fun i => elapsed (i + 1)) w.sink rest

/-- A document in memory: its bytes, or why it cannot be produced.  The time it takes is told to the log
alone. -/
def encode (withCreated : Bool) (ss : List Snapshot) : Except Fault Bytes :=
  let w := write withCreated .zero .unlimited ss
  match w.fault with
  | some (.document f) => .error f
  | _ => .ok w.sink.bytes

end Document
end Exposition
