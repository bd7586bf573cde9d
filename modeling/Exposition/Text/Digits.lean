import Exposition.Text.Basic
/-!
# Digits — whole numbers and timestamps

Whole numbers are written in base ten without superfluous zeros; a timestamp, held in milliseconds, is
written in seconds with exactly three places, and its sign belongs to the whole.  The texts `ofInt` and
`ofMilliseconds` are there for numbers of any size, but numbers of very many digits are not written: the
conversion of an `int` to text, which both kinds of text are made with, has a limit.
-/
namespace Exposition
namespace Text

def zero : CodePoint := .ofChar '0'
def minus : CodePoint := .ofChar '-'
def point : CodePoint := .ofChar '.'

def digit (d : Nat) : CodePoint := ⟨48 + d % 10, by omega⟩

def isDigit (c : CodePoint) : Bool := 48 ≤ c.val && c.val ≤ 57

theorem val_digit (d : Nat) : (digit d).val = 48 + d % 10 := rfl

theorem digit_congr {m n : Nat} (h : m % 10 = n % 10) : digit m = digit n := Fin.ext (congrArg (48 + ·) h)

theorem isDigit_iff {c : CodePoint} : isDigit c = true ↔ 48 ≤ c.val ∧ c.val ≤ 57 := by simp [isDigit]

theorem isDigit_digit (d : Nat) : isDigit (digit d) = true := by
  rw [isDigit_iff, val_digit]
  omega

theorem digit_val_sub {c : CodePoint} (hc : isDigit c = true) : digit (c.val - 48) = c := by
  rw [isDigit_iff] at hc
  apply Fin.ext
  rw [val_digit]
  omega

/-- The digits of `n`, most significant first; zero has one. -/
def ofNat (n : Nat) : Text :=
  if n < 10 then [digit n] else ofNat (n / 10) ++ [digit n]

theorem ofNat_ne_nil (n : Nat) : ofNat n ≠ [] := by
  rw [ofNat]
  split
  · exact List.cons_ne_nil _ _
  · exact List.append_ne_nil_of_right_ne_nil _ (List.cons_ne_nil _ _)

def ofInt (n : Int) : Text :=
  if n < 0 then minus :: ofNat n.natAbs else ofNat n.natAbs

def threeDigits (n : Nat) : Text := [digit (n / 100), digit (n / 10), digit n]

def ofMilliseconds (t : Int) : Text :=
  (if t < 0 then [minus] else []) ++
    (ofNat (t.natAbs / 1000) ++ point :: threeDigits (t.natAbs % 1000))

/-- The digits that a whole number has room for when it becomes text, its sign not among them. -/
def digitLimit : Nat := 4300

/-- Whether a magnitude has no more digits than may be written. -/
def isWritable (n : Nat) : Bool := (ofNat n).length ≤ digitLimit

def ofInt? (n : Int) : Option Text := if isWritable n.natAbs then some (ofInt n) else none

/-- Only the seconds are a whole number that is written; the places behind the point are three figures. -/
def ofMilliseconds? (t : Int) : Option Text :=
  if isWritable (t.natAbs / 1000) then some (ofMilliseconds t) else none

def tooManyDigitsMessage : Text :=
  ("Exceeds the limit (" : Text) ++ ofNat digitLimit ++
    (" digits) for integer string conversion; use sys.set_int_max_str_digits() to increase the limit" : Text)

end Text
end Exposition
