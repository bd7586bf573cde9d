import Exposition.Settings
/-!
# A standard package — what the documentation leaves no choice about, written out

All that a package does follows from how it reads values: names are looked up, fields are checked one after
the other, and the record is put together if there is nothing to complain about (`reading`).  The standard
package reads truth values, words, paths and texts, and it does what the documentation says
(`standard_documented`).
-/
namespace Exposition
namespace Settings

/-- The record with these values, if they are of the right kinds. -/
def ofValues? : List Value → Option Settings
  | [.boolean c, t, .text l, f, .text n, .text v] =>
    match t, f with
    | .path t, .path f => some ⟨c, some t, l, some f, n, v⟩
    | .path t, .nothing => some ⟨c, some t, l, none, n, v⟩
    | .nothing, .path f => some ⟨c, none, l, some f, n, v⟩
    | .nothing, .nothing => some ⟨c, none, l, none, n, v⟩
    | _, _ => none
  | _ => none

theorem ofValues?_values (x : Settings) : ofValues? (Setting.all.map x.value) = some x := by
  obtain ⟨c, t, l, f, n, v⟩ := x
  cases t <;> cases f <;> rfl

def accepted (rs : List (Except Complaint Value)) : List Value :=
  rs.filterMap fun
    | .ok v => some v
    | .error _ => none

/-- The record, if there is nothing to complain about. -/
def assemble (rs : List (Except Complaint Value)) (strangers : List Text) : Except LoadError Settings :=
  match complaints rs ++ Package.unknown strangers, ofValues? (accepted rs) with
  | [], some x => .ok x
  | cs, _ => .error (.invalid cs)

/-- What comes of a value that was read when the field has done its part, which complains of values that are
at fault themselves. -/
def finish (f : Field) (t : Tree) : Except Problem Value → Tree × Except FileError (Except Complaint Value)
  | .error p => (t, .ok (.error ⟨f.name, p⟩))
  | .ok x =>
    match f.after t x with
    | (t, .ok y) => (t, .ok (.ok y))
    | (t, .error (.faultyPath _)) => (t, .ok (.error ⟨f.name, .unusablePath⟩))
    | (t, .error e) => (t, .error e)

/-- How loading ends after checks, with these arguments left over. -/
def Checks.conclude (strangers : List Text) : Checks → Tree × Except LoadError Settings
  | (t, .error e) => (t, .error (.file e))
  | (t, .ok rs) => (t, assemble rs strangers)

namespace Package

/-- Checks fields one after the other. -/
def checkAll (read : Kind → RawValue → Except Problem Value) : List Field → (Text → Option RawValue) → Tree → Checks
  | [], _, t => (t, .ok [])
  | f :: fs, given, t =>
    match finish f t (read f.kind (f.before (f.chosen given))) with
    | (t, .error e) => (t, .error e)
    | (t, .ok r) => (checkAll read fs given t).behind r

/-- The package that reads values in this way. -/
def reading (read : Kind → RawValue → Except Problem Value) : Package where
  fromArguments? names args n :=
    if n ∈ names then (args.entries.find? fun e => e.1.lower = n.lower).map Prod.snd else none
  fromEnvironment? names env n :=
    if n ∈ names then (env.entries.reverse.find? fun e => e.1.lower = n.lower).map fun e => .text e.2 else none
  given? names env args n :=
    if n ∈ names then
      ((args.entries.find? fun e => e.1.lower = n.lower).map Prod.snd).or
        ((env.entries.reverse.find? fun e => e.1.lower = n.lower).map fun e => .text e.2)
    else none
  strangers names args := (args.entries.map Prod.fst).filter fun m => !(names.map Text.lower).contains m.lower
  read := read
  check := checkAll read
  construct given strangers t := (checkAll read fields given t).conclude strangers

end Package
end Settings

namespace RawValue

open Settings

/-- A word or a whole number for a truth value; a number beyond 64 bits, or one that is not whole, is of
another type. -/
def toBoolean : RawValue → Except Problem Bool
  | boolean b => .ok b
  | text t =>
    if t.any CodePoint.isSurrogate then .error .notUnicode
    else if t.lower ∈ trueWords then .ok true
    else if t.lower ∈ falseWords then .ok false
    else .error .notABooleanWord
  | number x =>
    match x.word? with
    | some n => if n = 1 then .ok true else if n = 0 then .ok false else .error .notABooleanWord
    | none => .error .notABoolean
  | absent => .error .notABoolean
  | other => .error .notABoolean

def toWord (words : List Text) : RawValue → Except Problem Text
  | text t => if t ∈ words then .ok t else if t.any CodePoint.isSurrogate then .error .notUnicode else .error .notOneOf
  | _ => .error .notOneOf

def toPath : RawValue → Except Problem Value
  | text t => .ok (.path (.ofText t))
  | absent => .ok .nothing
  | _ => .error .notAPath

def toText : RawValue → Except Problem Text
  | text t => .ok t
  | _ => .error .notAText

def toValue : Kind → RawValue → Except Problem Value
  | .boolean, v => v.toBoolean.map .boolean
  | .oneOf words, v => (v.toWord words).map .text
  | .path, v => v.toPath
  | .text, v => v.toText.map .text

end RawValue

namespace Settings
namespace Package

def standard : Package := reading RawValue.toValue

end Package
end Settings
end Exposition
