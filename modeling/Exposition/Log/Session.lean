import Exposition.Settings
/-!
# Log sessions — from a call to the console and the log file

A call goes through a chain of processors, each of which may drop it, and the last of which makes it a text.
The text is a record for the root logger, which passes it on to its handlers if its level allows that, and a
handler writes it down if its own level does.  What the processors do is up to a package for structured
logging; what is relied on is that only the first one drops calls, and only those for which the logger is not
enabled, and that the last one makes a text (`Processing.Documented`).

A setup first configures the chain, then opens the log file, and only then replaces the handlers of the root
logger and sets its level, so one that fails at its log file has already changed how records are rendered.
-/
namespace Exposition
namespace Log

/-- How records are rendered: as data, or to be read in the course of development. -/
inductive Rendering
  | data
  | development
  deriving DecidableEq, Repr

def renderingVariable : Text := "ENVIRONMENT"

def developmentWord : Text := "development"

def Rendering.ofEnvironment (env : Settings.Environment) : Rendering :=
  match env.get? renderingVariable with
  | some v => if v.lower = developmentWord then .development else .data
  | none => .data

inductive Processor
  | filterByLevel
  | addLoggerName
  | addLogLevel
  | addTime
  | addStack
  | formatException
  | render (r : Rendering)
  deriving DecidableEq, Repr

/-- The chain that a setup configures. -/
def processors (r : Rendering) : List Processor :=
  [.filterByLevel, .addLoggerName, .addLogLevel, .addTime, .addStack, .formatException, .render r]

/-- A call of a logger, and what the clock shows then. -/
structure Call (δ : Type) where
  logger : Text
  event : Event δ
  time : Text
  deriving DecidableEq, Repr

/-- Whether a text can be written to a console or a file; a surrogate has no bytes. -/
def encodable (t : Text) : Bool := !t.any CodePoint.isSurrogate

/-! ## The chain -/

/-- What a package for structured logging does with a call: the entry that it makes of it goes through the
processors, which are told whether the logger is enabled, and may be a text in the end.  As long as no chain
is configured, a call is a text at once. -/
structure Processing (δ : Type) where
  Entry : Type
  entry : Call δ → Entry
  process : Processor → Bool → Call δ → Entry → Option Entry
  text? : Entry → Option Text
  unprocessed : Call δ → Text
  contextTexts : δ → List Text

namespace Processing

variable {δ : Type}

/-- An entry that processors may come to from a call. -/
inductive Reaches (P : Processing δ) (c : Call δ) : P.Entry → Prop
  | entry : Reaches P c (P.entry c)
  | process {p : Processor} {enabled : Bool} {e e' : P.Entry} :
    Reaches P c e → P.process p enabled c e = some e' → Reaches P c e'

/-- The texts that a call is made with. -/
def texts (P : Processing δ) (c : Call δ) : List Text :=
  c.logger :: c.time ::
    match c.event with
    | .documentWritten _ _ _ => []
    | .errorMet kind message context => kind :: message :: (context.map P.contextTexts).getD []
    | .metricsFileWritten path => [path]
    | .metricsFileFailed path error => [path, error]
    | .plain _ message => [message]

/-- What the documentation of the package says. -/
structure Documented (P : Processing δ) : Prop where
  passes {c : Call δ} {e : P.Entry} : P.process .filterByLevel true c e = some e
  drops {c : Call δ} {e : P.Entry} : P.process .filterByLevel false c e = none
  /-- No other processor drops a call, or minds whether the logger is enabled. -/
  keeps {p : Processor} {c : Call δ} {e : P.Entry} :
    p ≠ .filterByLevel → ∃ e', ∀ enabled, P.process p enabled c e = some e'
  renders {r : Rendering} {enabled : Bool} {c : Call δ} {e e' : P.Entry} :
    P.process (.render r) enabled c e = some e' → ∃ t, P.text? e' = some t
  /-- Texts that can be written down are rendered as one that can. -/
  encodes {c : Call δ} {e : P.Entry} {t : Text} :
    (∀ t ∈ P.texts c, encodable t = true) → P.Reaches c e → P.text? e = some t → encodable t = true

/-- Sends an entry through a chain; none is left if one of the processors drops it. -/
def run (P : Processing δ) (enabled : Bool) (c : Call δ) : List Processor → P.Entry → Option P.Entry
  | [], e => some e
  | p :: ps, e => (P.process p enabled c e).bind (P.run enabled c ps)

/-- The record that a chain makes of a call, unless it drops it. -/
def record? (P : Processing δ) (enabled : Bool) (c : Call δ) (ps : List Processor) : Option Text :=
  (P.run enabled c ps (P.entry c)).bind P.text?

end Processing

/-! ## Handlers -/

inductive Target
  | console
  | file (l : Location)
  deriving DecidableEq, Repr

structure Handler where
  target : Target
  level : Nat
  deriving DecidableEq, Repr

/-- The state of logging: the files, what was written to the console, the chain if one is configured, and the
level and the handlers of the root logger.  No other logger has a level or handlers of its own. -/
structure Session where
  tree : Tree
  console : List Text
  chain : Option (List Processor)
  rootLevel : Nat
  handlers : List Handler
  deriving DecidableEq

inductive SetupError
  | settings (e : Settings.LoadError)
  | noSuchLevel
  | file (e : FileError)
  deriving DecidableEq, Repr

def terminator : Text := "\n"

/-- Adds bytes at the end of a file. -/
def append (t : Tree) (l : Location) (b : Bytes) : Tree :=
  match t.entryAt? l with
  | some (.file mode old) => t.put l (.file mode (old ++ b))
  | _ => t

namespace Session

/-- A program that has not set logging up: the root logger is at the level of warnings, and nobody handles
its records. -/
def start (t : Tree) : Session := ⟨t, [], none, Severity.warning.level, []⟩

/-- What a handler does with a record. -/
def emit (v : Severity) (record : Text) (s : Session) (h : Handler) : Session :=
  if h.level ≤ v.level ∧ encodable record = true then
    match h.target with
    | .console => { s with console := s.console ++ [record ++ terminator] }
    | .file l => { s with tree := append s.tree l (Utf8.encode (record ++ terminator)) }
  else s

def isEnabledFor (s : Session) (v : Severity) : Bool := s.rootLevel ≤ v.level

/-- Passes a record on to the handlers of the root logger. -/
def handle (s : Session) (v : Severity) (record : Text) : Session :=
  if s.isEnabledFor v then s.handlers.foldl (emit v record) s else s

/-- Replaces the handlers of the root logger and sets its level; without `force` this is done only if it has
no handlers. -/
def basicConfig (s : Session) (level : Nat) (handlers : List Handler) (force : Bool) : Session :=
  let s := if force then { s with handlers := [] } else s
  if s.handlers.isEmpty then { s with rootLevel := level, handlers := handlers } else s

/-- Opens the log file, if there is one, for a handler. -/
def openLogFile (t : Tree) (level : Nat) : Option Path → Except FileError (Tree × List Handler)
  | none => .ok (t, [])
  | some p =>
    match t.openAtEnd p with
    | .error e => .error e
    | .ok (t, l) => .ok (t, [⟨.file l, level⟩])

/-- Sets logging up from settings. -/
def apply (s : Session) (env : Settings.Environment) (x : Settings) : Session × Option SetupError :=
  let s := { s with chain := some (processors (.ofEnvironment env)) }
  match Severity.ofName? x.logLevel.upper with
  | none => (s, some .noSuchLevel)
  | some v =>
    match openLogFile s.tree v.level x.logFile with
    | .error e => (s, some (.file e))
    | .ok (t, handlers) => (basicConfig { s with tree := t } v.level (handlers ++ [⟨.console, v.level⟩]) true, none)

def configure (S : Settings.Package) (s : Session) (env : Settings.Environment) (args : Settings.Arguments) :
    Session × Option SetupError :=
  match Settings.load S s.tree env args with
  | (t, .error e) => ({ s with tree := t }, some (.settings e))
  | (t, .ok x) => apply { s with tree := t } env x

/-- Logs a call of a logger that was not used before, so that the chain is the one that is configured now. -/
def log {δ : Type} (P : Processing δ) (s : Session) (c : Call δ) : Session :=
  match s.chain with
  | none => { s with console := s.console ++ [P.unprocessed c ++ terminator] }
  | some ps =>
    match P.record? (s.isEnabledFor c.event.severity) c ps with
    | none => s
    | some record => s.handle c.event.severity record

end Session
end Log
end Exposition
