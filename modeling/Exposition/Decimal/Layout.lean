import Exposition.Decimal.Shortest
import Exposition.Number
import Exposition.Text.Digits
/-!
# Layout — how a double is written

A double is written with the fewest digits that read back.  From a ten-thousandth up to, but not
including, ten to the sixteenth power the point stands in its place, with at least one digit on either
side of it; beyond that the first digit stands before the point and the exponent, signed and of at
least two digits, follows.
-/
namespace Exposition

namespace Decimal

def zeros (n : Nat) : Text := List.replicate n Text.zero

def leadingExponent (d : Decimal) : Int := ((Text.ofNat d.significand).length : Int) - 1 + d.exponent

/-- Exponents of the first digit from this one on are written positionally. -/
def positionalFrom : Int := -4

def positionalBelow : Int := 16

/-- The digits with the point in its place, `e` being the exponent of the first one. -/
def positional (digits : Text) (e : Int) : Text :=
  if e < 0 then Text.zero :: Text.point :: (zeros (-e - 1).toNat ++ digits)
  else
    let whole := e.toNat + 1
    if digits.length ≤ whole then digits ++ zeros (whole - digits.length) ++ [Text.point, Text.zero]
    else digits.take whole ++ Text.point :: digits.drop whole

def letterE : CodePoint := .ofChar 'e'
def plus : CodePoint := .ofChar '+'

def exponentText (e : Int) : Text :=
  (if e < 0 then Text.minus else plus) ::
    ((if e.natAbs < 10 then [Text.zero] else []) ++ Text.ofNat e.natAbs)

def scientific (digits : Text) (e : Int) : Text :=
  (match digits with
    | [] => []
    | [c] => [c]
    | c :: cs => c :: Text.point :: cs) ++ letterE :: exponentText e

def toText (d : Decimal) : Text :=
  let digits := Text.ofNat d.significand
  let e := d.leadingExponent
  if positionalFrom ≤ e ∧ e < positionalBelow then positional digits e else scientific digits e

end Decimal

structure NonFiniteWords where
  nan : Text
  positive : Text
  negative : Text

def NonFiniteWords.exposition : NonFiniteWords := ⟨"NaN", "+Inf", "-Inf"⟩

/-- The words used when a double becomes the value of a label. -/
def NonFiniteWords.plain : NonFiniteWords := ⟨"nan", "inf", "-inf"⟩

namespace Binary64

def magnitudeText (r : Nat) : Text :=
  if r = 0 then [Text.zero, Text.point, Text.zero] else (Decimal.shortest r).toText

def toTextWith (words : NonFiniteWords) : Binary64 → Text
  | nan => words.nan
  | infinite false => words.positive
  | infinite true => words.negative
  | finite negative r => (if negative then [Text.minus] else []) ++ magnitudeText r.val

def toText (x : Binary64) : Text := x.toTextWith .exposition

end Binary64
end Exposition
