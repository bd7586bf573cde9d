import Exposition.Text.Utf8
/-!
# Sinks — where a document goes

A sink keeps bytes until it is full.  A write that does not fit leaves as many bytes as do and fails.  Each
flush may fail or not, whatever the one before it did; it is counted as an attempt, and if it does not fail
as a flush.
-/
namespace Exposition

/-- A sink with room for so many more bytes, or without a limit.  `flushErrors` tells of each flush to come
why it will fail, if it will; `kept` holds what was written, the latest first. -/
structure Sink where
  room : Option Nat
  writeError : Text
  flushErrors : Nat → Option Text
  kept : List Bytes
  flushes : Nat
  attempts : Nat := 0

namespace Sink

def defaultError : Text := "disk full"

/-- A flush that never fails. -/
def neverFails : Nat → Option Text := fun _ => none

def unlimited : Sink := ⟨none, defaultError, neverFails, [], 0, 0⟩

/-- Why the next flush will fail, if it will. -/
def flushError (s : Sink) : Option Text := s.flushErrors 0

def bytes (s : Sink) : Bytes := s.kept.reverse.flatten

/-- Writes `b`, or the part of it that fits; the answer is whether all of it did. -/
def write (s : Sink) (b : Bytes) : Sink × Bool :=
  match s.room with
  | none => ({ s with kept := b :: s.kept }, true)
  | some n =>
    ({ s with room := some (n - b.length), kept := b.take n :: s.kept }, b.length ≤ n)

theorem bytes_write (s : Sink) (b : Bytes) :
    (s.write b).1.bytes = s.bytes ++ (match s.room with | none => b | some n => b.take n) := by
  unfold write
  split <;> simp [bytes]

/-- Writes texts as UTF-8, one after the other, up to the first that does not fit. -/
def writeAll (s : Sink) : List Text → Sink × Bool
  | [] => (s, true)
  | t :: ts =>
    match s.write (Utf8.encode t) with
    | (s', true) => s'.writeAll ts
    | (s', false) => (s', false)

/-- Flushes; the answer is why it failed, if it did. -/
def flush (s : Sink) : Sink × Option Text :=
  let after := { s with flushErrors := fun i => s.flushErrors (i + 1), attempts := s.attempts + 1 }
  match s.flushError with
  | some e => (after, some e)
  | none => ({ after with flushes := s.flushes + 1 }, none)

end Sink
end Exposition
