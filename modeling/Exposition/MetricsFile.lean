import Exposition.Document
import Exposition.Settings
import Exposition.Text.Newlines
/-!
# Metrics files — a document on disk, whole or not at all

A document is first written to a temporary file beside the metrics file, which then takes its place in
one step.  Failures of the file system are logged and told as a plain no; a document that cannot be
produced is a fault, and so is a path that nothing can have.  However the attempt ends, a temporary file
that is left is removed.
-/
namespace Exposition

structure MetricsFile where
  path : Path
  withCreated : Bool
  deriving DecidableEq, Repr

namespace MetricsFile

def missingPathMessage : Text := "TEXTFILE_PATH must be set to use the textfile exporter"

def ofSettings? (s : Settings) : Option MetricsFile := s.textfilePath.map (⟨·, s.createdTimestamps⟩)

def temporaryEnding : Text := ".tmp"

/-- The temporary file, if the path has a last component to name it after. -/
def temporary? (f : MetricsFile) : Option Path :=
  f.path.name?.map (fun n => f.path.withName (n ++ temporaryEnding))

def mode : Nat := 0o644

/-- A step of writing at which the system may fail: making the directory of the metrics file, some of those
that lead to it having been made before, or one of those that follow; writing may fail once it has taken
some bytes. -/
inductive Obstacle
  | parent (made : Nat)
  | opening
  | writing (room : Nat)
  | flushing
  | closing
  | replacing
  | permission
  deriving DecidableEq, Repr

/-- What a call meets besides the tree: the step at which the system fails, if it does, and how it tells of
that, how it tells of an error about files, and the seconds that writing the document takes. -/
structure Circumstances where
  obstacle : Option Obstacle
  reason : Text
  wording : FileError → Text
  elapsed : Binary64

inductive Attempt
  | done
  | failed (error : Text)
  | broken (f : Fault)
  | refused (f : Path.Fault)
  deriving DecidableEq, Repr

namespace Circumstances

/-- Nothing fails but what the tree is to blame for. -/
def undisturbed : Circumstances := ⟨none, [], fun _ => [], .zero⟩

def obstructed (o : Obstacle) : Circumstances := { undisturbed with obstacle := some o }

/-- How an attempt ends at an error: a path that nothing can have is refused, all else is a failure of the
system. -/
def ending (c : Circumstances) : FileError → Attempt
  | .faultyPath f => .refused f
  | e => .failed (c.wording e)

/-- How an attempt ends at the step at which the system fails. -/
def failure (c : Circumstances) : Attempt := .failed c.reason

/-- What a document that is written to the temporary file meets. -/
def sink (c : Circumstances) : Sink :=
  match c.obstacle with
  | some (.writing room) => { Sink.unlimited with room := some room, writeError := c.reason }
  | some .flushing => { Sink.unlimited with flushErrors := fun _ => some c.reason }
  | _ => .unlimited

end Circumstances

/-- Why a call ended in an error: the path has no last component, the document cannot be produced, or an
operation on files failed where that is not caught. -/
inductive WriteError
  | emptyName
  | document (f : Fault)
  | file (e : FileError)
  deriving DecidableEq, Repr

def emptyNameMessage (p : Path) : Text :=
  ("PosixPath('" : Text) ++ p.toText ++ "') has an empty name"

structure Result where
  tree : Tree
  outcome : Except WriteError Bool
  log : List (Log.Event Nat)

/-- Makes the directory of the metrics file; the answer is why that failed, if it did. -/
def makeParent (f : MetricsFile) (c : Circumstances) (t : Tree) : Tree × Option Attempt :=
  match c.obstacle with
  | some (.parent made) =>
    ((t.ensureDirectory ⟨f.path.anchor, f.path.parent.components.take made⟩).1, some c.failure)
  | _ =>
    match t.ensureDirectory f.path.parent with
    | (t, some e) => (t, some (c.ending e))
    | (t, none) => (t, none)

/-- Puts the finished temporary file in place and lets everyone read it. -/
def install (f : MetricsFile) (c : Circumstances) (t : Tree) (temporary : Path) : Tree × Attempt :=
  if c.obstacle = some .closing ∨ c.obstacle = some .replacing then (t, c.failure)
  else
    match t.moveFile temporary f.path with
    | .error e => (t, c.ending e)
    | .ok t =>
      if c.obstacle = some .permission then (t, c.failure)
      else
        match t.setMode f.path mode with
        | .error e => (t, c.ending e)
        | .ok t => (t, .done)

def fill (f : MetricsFile) (c : Circumstances) (t : Tree) (temporary : Path) (ss : List Snapshot) :
    Tree × Attempt × List (Log.Event Nat) :=
  if c.obstacle = some .opening then (t, c.failure, [])
  else
    match t.truncate temporary with
    | .error e => (t, c.ending e, [])
    | .ok (t, l) =>
      let w := Document.write f.withCreated c.elapsed c.sink ss
      let t := t.setBytes l w.sink.bytes
      match w.fault with
      | some (.document fault) => (t, .broken fault, w.log)
      | some (.sink reason) => (t, .failed reason, w.log)
      | none =>
        let (t, attempt) := f.install c t temporary
        (t, attempt, w.log)

/-- All that comes before the temporary file is removed. -/
def attempt (f : MetricsFile) (c : Circumstances) (t : Tree) (temporary : Path) (ss : List Snapshot) :
    Tree × Attempt × List (Log.Event Nat) :=
  match f.makeParent c t with
  | (t, some attempt) => (t, attempt, [])
  | (t, none) => f.fill c t temporary ss

def cleanUp (t : Tree) (temporary : Path) : Except FileError Tree :=
  match t.contains temporary with
  | .error e => .error e
  | .ok false => .ok t
  | .ok true => t.removeFile temporary

def attemptLog (f : MetricsFile) : Attempt → List (Log.Event Nat)
  | .done => [.metricsFileWritten f.path.toText]
  | .failed error => [.metricsFileFailed f.path.toText error]
  | .broken _ => []
  | .refused _ => []

def attemptOutcome : Attempt → Except WriteError Bool
  | .done => .ok true
  | .failed _ => .ok false
  | .broken fault => .error (.document fault)
  | .refused fault => .error (.file (.faultyPath fault))

/-- Writes a document to the metrics file; the answer is whether that was possible. -/
def writeAgainst (f : MetricsFile) (c : Circumstances) (t : Tree) (ss : List Snapshot) : Result :=
  match f.temporary? with
  | none => ⟨t, .error .emptyName, []⟩
  | some temporary =>
    let (t, attempt, log) := f.attempt c t temporary ss
    let log := log ++ f.attemptLog attempt
    match cleanUp t temporary with
    | .error e => ⟨t, .error (.file e), log⟩
    | .ok t => ⟨t, attemptOutcome attempt, log⟩

def write (f : MetricsFile) (t : Tree) (ss : List Snapshot) : Result := f.writeAgainst .undisturbed t ss

inductive ReadError
  | file (e : FileError)
  | encoding (e : Utf8.Fault)
  deriving DecidableEq, Repr

/-- Reads the metrics file, if there is one; its line ends are read as line feeds. -/
def read (f : MetricsFile) (t : Tree) : Except ReadError (Option Text) :=
  match t.contains f.path with
  | .error e => .error (.file e)
  | .ok false => .ok none
  | .ok true =>
    match t.readFile f.path with
    | .error e => .error (.file e)
    | .ok b =>
      match Utf8.decode b with
      | .error e => .error (.encoding e)
      | .ok t => .ok (some t.unifyLineEnds)

end MetricsFile
end Exposition
