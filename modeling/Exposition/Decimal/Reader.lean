import Exposition.Decimal.Layout
import Exposition.Text.Scan
/-!
# Reading decimals — a text as an exact number

A decimal has a sign if it is negative, digits, perhaps a point and more digits, and perhaps an
exponent.  Its value is exact, and the double nearest to it is found by the same rounding as for every
other exact number.
-/
namespace Exposition

/-- A decimal with a sign; zero has two. -/
structure SignedDecimal where
  negative : Bool
  magnitude : Decimal
  deriving DecidableEq, Repr

namespace Decimal

def digitsValue (t : Text) : Nat := t.foldl (fun n c => 10 * n + (c.val - 48)) 0

def readDigits? (t : Text) : Option Nat :=
  if t ≠ [] ∧ t.all Text.isDigit then some (digitsValue t) else none

def readExponent? : Text → Option Int
  | [] => some 0
  | c :: r =>
    if c ≠ letterE then none
    else
      match r with
      | [] => none
      | s :: ds =>
        if s = Text.minus then (readDigits? ds).map (fun n => -(n : Int))
        else if s = plus then (readDigits? ds).map (fun n => (n : Int))
        else none

def read? (t : Text) : Option Decimal :=
  let whole := t.splitAtFirst (fun c => !Text.isDigit c)
  if whole.1 = [] then none
  else
    match whole.2 with
    | [] => some ⟨digitsValue whole.1, 0⟩
    | c :: r =>
      if c = Text.point then
        let places := Text.splitAtFirst (fun c => !Text.isDigit c) r
        if places.1 = [] then none
        else (readExponent? places.2).map
          (fun e => ⟨digitsValue (whole.1 ++ places.1), e - places.1.length⟩)
      else (readExponent? whole.2).map (fun e => ⟨digitsValue whole.1, e⟩)

def compareUnits (d : Decimal) (t : Nat) : Ordering :=
  if 0 ≤ d.exponent then
    Binary64.compareQuotient (d.significand * Nat.pow 10 d.exponent.toNat) 1 t
  else Binary64.compareQuotient d.significand (Nat.pow 10 (-d.exponent).toNat) t

end Decimal

namespace SignedDecimal

def read? (t : Text) : Option SignedDecimal :=
  match Text.after? [Text.minus] t with
  | some r => (Decimal.read? r).map (⟨true, ·⟩)
  | none => (Decimal.read? t).map (⟨false, ·⟩)

def toBinary64? (d : SignedDecimal) : Option Binary64 :=
  Binary64.nearest? d.negative d.magnitude.compareUnits

end SignedDecimal
end Exposition
