import Exposition.Files.Tree
import Exposition.Log.Event
import Exposition.Number
import Exposition.Text.Casing
/-!
# Settings — a record of fields, filled by a package

A record of settings is declared field by field: what a field is called, what it may hold and what it is
given by default, and what is done to a value before it is read and once it was.  The rest is up to a
package for such records, which matches names, reads values and gathers what is wrong.  What is relied on of
it is what its documentation says (`Package.Documented`): arguments go before the environment, names are
matched without regard to case, fields are checked in the order in which they are declared, and all that is
wrong is told, unless a field fails for a reason that is none of its value.
-/
namespace Exposition

namespace Log

namespace Severity

def name (s : Severity) : Text := Text.upper s.word

def ofName? (t : Text) : Option Severity := all.find? (fun s => s.name = t)

end Severity

/-- The names that levels go by. -/
def levelNames : List Text := ["DEBUG", "INFO", "WARNING", "ERROR", "CRITICAL"]

end Log

/-! ## Fields -/

/-- A value as it is given, before it is read. -/
inductive RawValue
  | text (t : Text)
  | number (x : Number)
  | boolean (b : Bool)
  | absent
  | other
  deriving DecidableEq, Repr

/-- What a field may hold; a path need not be given. -/
inductive Kind
  | boolean
  | oneOf (words : List Text)
  | path
  | text
  deriving DecidableEq, Repr

/-- A value as it was read. -/
inductive Value
  | boolean (b : Bool)
  | text (t : Text)
  | path (p : Path)
  | nothing
  deriving DecidableEq, Repr

inductive Problem
  | notABooleanWord
  | notABoolean
  | notOneOf
  | notAPath
  | unusablePath
  | notAText
  | notUnicode
  | unknownName
  deriving DecidableEq, Repr

def Problem.word : Problem → Text
  | .notABooleanWord => "bool_parsing"
  | .notABoolean => "bool_type"
  | .notOneOf => "literal_error"
  | .notAPath => "path_type"
  | .unusablePath => "value_error"
  | .notAText => "string_type"
  | .notUnicode => "string_unicode"
  | .unknownName => "extra_forbidden"

structure Complaint where
  name : Text
  problem : Problem
  deriving DecidableEq, Repr

/-- A field of a record: what a value is turned into before it is read, and what is done with the value
once it was, which may change the tree and fail. -/
structure Field where
  name : Text
  kind : Kind
  default : RawValue
  before : RawValue → RawValue
  after : Tree → Value → Tree × Except FileError Value

namespace Field

/-- A field whose values are taken as they are. -/
def plain (name : Text) (kind : Kind) (default : RawValue) : Field :=
  ⟨name, kind, default, id, fun t v => (t, .ok v)⟩

/-- What the field is given, or else its default. -/
def chosen (f : Field) (given : Text → Option RawValue) : RawValue := (given f.name).getD f.default

end Field

/-- Makes the directory of a path, with all that lead to it. -/
def ensureParent (t : Tree) : Value → Tree × Except FileError Value
  | .path p =>
    match t.ensureDirectory p.parent with
    | (t, none) => (t, .ok (.path p))
    | (t, some e) => (t, .error e)
  | v => (t, .ok v)

/-- Takes a level in any case. -/
def normalizeLevel : RawValue → RawValue
  | .text t => .text t.upper
  | v => v

/-! ## The record -/

inductive Setting
  | createdTimestamps
  | textfilePath
  | logLevel
  | logFile
  | serviceName
  | serviceVersion
  deriving DecidableEq, Repr

namespace Setting

def all : List Setting :=
  [createdTimestamps, textfilePath, logLevel, logFile, serviceName, serviceVersion]

def field : Setting → Field
  | createdTimestamps => .plain "created_timestamps_enabled" .boolean (.boolean false)
  | textfilePath => { Field.plain "textfile_path" .path .absent with after := ensureParent }
  | logLevel => { Field.plain "log_level" (.oneOf Log.levelNames) (.text "INFO") with before := normalizeLevel }
  | logFile => { Field.plain "log_file" .path .absent with after := ensureParent }
  | serviceName => .plain "service_name" .text (.text "openmetrics-exporter")
  | serviceVersion => .plain "service_version" .text (.text "1.0.0")

def name (s : Setting) : Text := s.field.name

end Setting

def Value.ofPath? : Option Path → Value
  | some p => .path p
  | none => .nothing

structure Settings where
  createdTimestamps : Bool
  textfilePath : Option Path
  logLevel : Text
  logFile : Option Path
  serviceName : Text
  serviceVersion : Text
  deriving DecidableEq, Repr

namespace Settings

def value (x : Settings) : Setting → Value
  | .createdTimestamps => .boolean x.createdTimestamps
  | .textfilePath => .ofPath? x.textfilePath
  | .logLevel => .text x.logLevel
  | .logFile => .ofPath? x.logFile
  | .serviceName => .text x.serviceName
  | .serviceVersion => .text x.serviceVersion

abbrev Environment := Mapping Text Text
abbrev Arguments := Mapping Text RawValue

def fields : List Field := Setting.all.map Setting.field

def names : List Text := fields.map Field.name

/-- Why there are no settings: the complaints about what was given, or a failure of the system. -/
inductive LoadError
  | invalid (complaints : List Complaint)
  | file (e : FileError)
  deriving DecidableEq, Repr

def complaints (rs : List (Except Complaint Value)) : List Complaint :=
  rs.filterMap fun
    | .ok _ => none
    | .error c => some c

/-- What was found for fields one after the other, or the failure that ended this, and the tree then. -/
abbrev Checks := Tree × Except FileError (List (Except Complaint Value))

def Checks.behind (r : Except Complaint Value) (c : Checks) : Checks := (c.1, c.2.map (r :: ·))

/-! ## The package -/

/-- What a package for records does: it takes the values for names from the arguments and from the
environment, joins them, and tells which arguments are for no name; it reads values by their kind, checks
fields, and makes the record. -/
structure Package where
  fromArguments? : List Text → Arguments → Text → Option RawValue
  fromEnvironment? : List Text → Environment → Text → Option RawValue
  given? : List Text → Environment → Arguments → Text → Option RawValue
  strangers : List Text → Arguments → List Text
  read : Kind → RawValue → Except Problem Value
  check : List Field → (Text → Option RawValue) → Tree → Checks
  construct : (Text → Option RawValue) → List Text → Tree → Tree × Except LoadError Settings

end Settings

namespace RawValue

def trueWords : List Text := ["1", "t", "y", "on", "yes", "true"]

def falseWords : List Text := ["0", "f", "n", "no", "off", "false"]

/-- What counts as a truth value: one of the words for it in any case, or the whole number for it. -/
def Means : RawValue → Bool → Prop
  | boolean b', b => b' = b
  | text t, b => t.any CodePoint.isSurrogate = false ∧ t.lower ∈ if b then trueWords else falseWords
  | number x, b => x.word? = some (if b then 1 else 0)
  | absent, _ => False
  | other, _ => False

end RawValue

namespace Settings
namespace Package

/-- How a field reads what it is given, its own part coming first. -/
def readField (P : Package) (f : Field) (given : Text → Option RawValue) : Except Problem Value :=
  P.read f.kind (f.before (f.chosen given))

def unknown (strangers : List Text) : List Complaint := strangers.map (⟨·, .unknownName⟩)

/-- What the documentation of the package says. -/
structure Documented (P : Package) : Prop where
  /-- Of several arguments for a name the first counts. -/
  argument {names : List Text} {args : Arguments} {n : Text} : n ∈ names →
    P.fromArguments? names args n = (args.entries.find? fun e => e.1.lower = n.lower).map Prod.snd
  stranger {names : List Text} {args : Arguments} :
    P.strangers names args = (args.entries.map Prod.fst).filter fun m => !(names.map Text.lower).contains m.lower
  /-- The environment is looked at as a mapping of names in lower case. -/
  environment {names : List Text} {env : Environment} {n : Text} : n ∈ names →
    P.fromEnvironment? names env n =
      ((Mapping.ofList (env.entries.map fun e => (e.1.lower, e.2))).get? n.lower).map .text
  argumentsFirst {names : List Text} {env : Environment} {args : Arguments} {n : Text} :
    P.given? names env args n = (P.fromArguments? names args n).or (P.fromEnvironment? names env n)
  boolean {v : RawValue} {x : Value} : P.read .boolean v = .ok x ↔ ∃ b, v.Means b ∧ x = .boolean b
  oneOf {words : List Text} {v : RawValue} {x : Value} :
    P.read (.oneOf words) v = .ok x ↔ ∃ t ∈ words, v = .text t ∧ x = .text t
  path {v : RawValue} {x : Value} :
    P.read .path v = .ok x ↔ (v = .absent ∧ x = .nothing) ∨ ∃ t, v = .text t ∧ x = .path (.ofText t)
  text {v : RawValue} {x : Value} : P.read .text v = .ok x ↔ ∃ t, v = .text t ∧ x = .text t
  noField {given : Text → Option RawValue} {t : Tree} : P.check [] given t = (t, .ok [])
  /-- A value that is accepted takes its place, and the next field is checked. -/
  accepted {f : Field} {fs : List Field} {given : Text → Option RawValue} {t t' : Tree} {x y : Value} :
    P.readField f given = .ok x → f.after t x = (t', .ok y) →
      P.check (f :: fs) given t = (P.check fs given t').behind (.ok y)
  /-- A value that cannot be read is complained about, and the next field is checked. -/
  unreadable {f : Field} {fs : List Field} {given : Text → Option RawValue} {t : Tree} {p : Problem} :
    P.readField f given = .error p →
      P.check (f :: fs) given t = (P.check fs given t).behind (.error ⟨f.name, p⟩)
  /-- So is one that the field finds to be at fault itself, -/
  unusable {f : Field} {fs : List Field} {given : Text → Option RawValue} {t t' : Tree} {x : Value}
      {fault : Path.Fault} :
    P.readField f given = .ok x → f.after t x = (t', .error (.faultyPath fault)) →
      P.check (f :: fs) given t = (P.check fs given t').behind (.error ⟨f.name, .unusablePath⟩)
  /-- but any other failure of a field is let through. -/
  escaped {f : Field} {fs : List Field} {given : Text → Option RawValue} {t t' : Tree} {x : Value}
      {e : FileError} :
    P.readField f given = .ok x → f.after t x = (t', .error e) → e.IsSystem →
      P.check (f :: fs) given t = (t', .error e)
  letThrough {given : Text → Option RawValue} {strangers : List Text} {t t' : Tree} {e : FileError} :
    P.check fields given t = (t', .error e) → P.construct given strangers t = (t', .error (.file e))
  valid {given : Text → Option RawValue} {t t' : Tree} {x : Settings} :
    P.check fields given t = (t', .ok (Setting.all.map fun s => .ok (x.value s))) →
      P.construct given [] t = (t', .ok x)
  /-- The complaints about fields come before those about arguments that are for none. -/
  invalid {given : Text → Option RawValue} {strangers : List Text} {t t' : Tree}
      {rs : List (Except Complaint Value)} :
    P.check fields given t = (t', .ok rs) → complaints rs ++ unknown strangers ≠ [] →
      P.construct given strangers t = (t', .error (.invalid (complaints rs ++ unknown strangers)))

end Package

/-- The settings that are given, and the tree with the directories of their paths. -/
def load (P : Package) (t : Tree) (env : Environment) (args : Arguments) : Tree × Except LoadError Settings :=
  P.construct (P.given? names env args) (P.strangers names args) t

def writesTextfile (x : Settings) : Bool := x.textfilePath.isSome

end Settings
end Exposition
