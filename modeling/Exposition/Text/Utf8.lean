import Exposition.Text.Digits
/-!
# UTF-8 — text as bytes

Encoding is total: a surrogate has no encoding and is written as a question mark.  Decoding is strict
and says where and why the bytes are not UTF-8.  The fault covers the bytes that could still have
begun a character: one for a byte that starts nothing, and otherwise the start byte with the
continuation bytes that were in order.
-/
namespace Exposition

abbrev Bytes := List UInt8

namespace Utf8

def questionMark : UInt8 := 63

/-- The bytes of a code point, by its size; a surrogate becomes a question mark. -/
def encodeCodePoint (c : CodePoint) : Bytes :=
  let n := c.val
  if n < 0x80 then [n.toUInt8]
  else if n < 0x800 then [(0xC0 + n / 0x40).toUInt8, (0x80 + n % 0x40).toUInt8]
  else if c.isSurrogate then [questionMark]
  else if n < 0x10000 then
    [(0xE0 + n / 0x1000).toUInt8, (0x80 + n / 0x40 % 0x40).toUInt8, (0x80 + n % 0x40).toUInt8]
  else
    [(0xF0 + n / 0x40000).toUInt8, (0x80 + n / 0x1000 % 0x40).toUInt8,
      (0x80 + n / 0x40 % 0x40).toUInt8, (0x80 + n % 0x40).toUInt8]

def encode (t : Text) : Bytes := t.flatMap encodeCodePoint

/-- What is left of a text after it has been written as UTF-8 and read back. -/
def replaceSurrogates (t : Text) : Text := t.map (fun c => if c.isSurrogate then .ofChar '?' else c)

theorem encode_append (s t : Text) : encode (s ++ t) = encode s ++ encode t := by
  simp [encode]

inductive Reason
  | invalidStart
  | invalidContinuation
  | unexpectedEnd
  deriving DecidableEq, Repr

def Reason.message : Reason → Text
  | .invalidStart => "invalid start byte"
  | .invalidContinuation => "invalid continuation byte"
  | .unexpectedEnd => "unexpected end of data"

/-- The first place where bytes are not UTF-8: `size` bytes from `start` on, the first being `byte`. -/
structure Fault where
  reason : Reason
  start : Nat
  size : Nat
  byte : UInt8
  deriving DecidableEq, Repr

def hexDigit (n : Nat) : CodePoint := if n < 10 then Text.digit n else .ofNat (87 + n % 16)

def hexByte (b : UInt8) : Text :=
  ("0x" : Text) ++ [hexDigit (b.toNat / 16), hexDigit (b.toNat % 16)]

/-- One byte is told by its value, several by where the first and the last of them stand. -/
def Fault.message (f : Fault) : Text :=
  ("'utf-8' codec can't decode byte" : Text) ++
    ((if f.size = 1 then (" " : Text) ++ hexByte f.byte ++ " in position " ++ Text.ofNat f.start
      else ("s in position " : Text) ++ Text.ofNat f.start ++ "-" ++
        Text.ofNat (f.start + f.size - 1)) ++
      ((": " : Text) ++ f.reason.message))

/-- The second byte of a character, which the first one may narrow: no overlong forms, no surrogates,
nothing above the last code point. -/
def secondByteOk (first second : Nat) : Bool :=
  (if first = 0xE0 then 0xA0 else if first = 0xF0 then 0x90 else 0x80) ≤ second &&
    second ≤ (if first = 0xED then 0x9F else if first = 0xF4 then 0x8F else 0xBF)

def isContinuation (b : Nat) : Bool := 0x80 ≤ b && b < 0xC0

/-- The number of continuation bytes that a start byte announces. -/
def announced? (b : Nat) : Option Nat :=
  if b < 0x80 then some 0
  else if b < 0xC2 then none
  else if b < 0xE0 then some 1
  else if b < 0xF0 then some 2
  else if b < 0xF5 then some 3
  else none

def leadingBits (b : Nat) : Nat → Nat
  | 0 => b
  | 1 => b % 0x20
  | 2 => b % 0x10
  | _ => b % 0x08

/-- Takes `n` further continuation bytes, the value so far being `acc` and `seen` bytes being in order. -/
def continueWith (acc seen : Nat) : Nat → Bytes → Except (Reason × Nat) Nat
  | 0, _ => .ok acc
  | _ + 1, [] => .error (.unexpectedEnd, seen)
  | n + 1, b :: r =>
    if isContinuation b.toNat then continueWith (acc * 0x40 + b.toNat % 0x40) (seen + 1) n r
    else .error (.invalidContinuation, seen)

/-- The value of the character that `b` starts, and how many of the bytes `r` behind it belong to it. -/
def decodeFirst (b : UInt8) (r : Bytes) : Except (Reason × Nat) (Nat × Nat) :=
  match announced? b.toNat with
  | none => .error (.invalidStart, 1)
  | some 0 => .ok (b.toNat, 0)
  | some (n + 1) =>
    match r with
    | [] => .error (.unexpectedEnd, 1)
    | c :: r =>
      if secondByteOk b.toNat c.toNat then
        (continueWith (leadingBits b.toNat (n + 1) * 0x40 + c.toNat % 0x40) 2 n r).map (·, n + 1)
      else .error (.invalidContinuation, 1)

/-- Decodes from byte `offset` on, the next `skip` bytes being part of the last character. -/
def decodeFrom : Nat → Nat → Bytes → Except Fault Text
  | _, _, [] => .ok []
  | skip + 1, offset, _ :: r => decodeFrom skip (offset + 1) r
  | 0, offset, b :: r =>
    match decodeFirst b r with
    | .error (reason, size) => .error ⟨reason, offset, size, b⟩
    | .ok (n, k) => (decodeFrom k (offset + 1) r).map (CodePoint.ofNat n :: ·)

def decode (bytes : Bytes) : Except Fault Text := decodeFrom 0 0 bytes

end Utf8
end Exposition
