import Exposition.Binary64.Rounding
/-!
# Numbers — doubles, and whole numbers in their place

Where a measurement is expected a program may hand over a whole number of any size.  It is converted
to the nearest double when it is written, and compared as what it is: an order between two numbers
never rounds either of them.
-/
namespace Exposition

inductive Number
  | float (x : Binary64)
  | int (n : Int)
  deriving DecidableEq, Repr

inductive Extended
  | bottom
  | units (n : Int)
  | top
  deriving DecidableEq, Repr

namespace Extended

def lt : Extended → Extended → Bool
  | bottom, bottom => false
  | bottom, _ => true
  | units m, units n => m < n
  | units _, top => true
  | _, _ => false

def le (a b : Extended) : Bool := !lt b a

end Extended

def Binary64.place? : Binary64 → Option Extended
  | .nan => none
  | .infinite true => some .bottom
  | .infinite false => some .top
  | .finite true r => some (.units (-(unitsOfRank r.val : Int)))
  | .finite false r => some (.units (unitsOfRank r.val : Int))

namespace Number

def place? : Number → Option Extended
  | float x => x.place?
  | int n => some (.units (n * (Binary64.unitsInOne : Int)))

/-- Less than; what is no number is not less than anything. -/
def lt (a b : Number) : Bool :=
  match a.place?, b.place? with
  | some x, some y => x.lt y
  | _, _ => false

def le (a b : Number) : Bool :=
  match a.place?, b.place? with
  | some x, some y => x.le y
  | _, _ => false

def toBinary64? : Number → Option Binary64
  | float x => some x
  | int n => Binary64.ofInt? n

def whole? (x : Number) : Option Int :=
  match x with
  | int n => some n
  | float x =>
    match x.place? with
    | some (.units n) =>
      if n % (Binary64.unitsInOne : Int) = 0 then some (n / (Binary64.unitsInOne : Int)) else none
    | _ => none

/-- A signed word of 64 bits holds the whole numbers from its negative up to it, itself excluded. -/
def wordLimit : Int := (Nat.pow 2 63 : Nat)

/-- The number as a signed word of 64 bits, if it is whole and has room there.  The least word is not taken
from a double, for it is also what lesser numbers round to. -/
def word? (x : Number) : Option Int :=
  match x, x.whole? with
  | int _, some n => if -wordLimit ≤ n ∧ n < wordLimit then some n else none
  | float _, some n => if -wordLimit < n ∧ n < wordLimit then some n else none
  | _, none => none

end Number
end Exposition
