import Exposition.Labels
/-!
# Exemplars — single observations beside a sample

A histogram line takes the first exemplar that lies in the range of its bucket; a summary takes
exemplars by position.
-/
namespace Exposition

structure Exemplar where
  value : Number
  labels : Labels
  timestamp : Option Int
  deriving DecidableEq, Repr

abbrev Exemplars := List Exemplar

def Number.within (lower upper x : Number) : Bool := lower.lt x && x.le upper

/-- Why there is no element at a position: there are not so many, or the position is not a signed 64-bit
number. -/
inductive PositionFault
  | outOfRange
  | notAPosition
  deriving DecidableEq, Repr

def PositionFault.message : PositionFault → Text
  | .outOfRange => "tuple index out of range"
  | .notAPosition => "cannot fit 'int' into an index-sized integer"

/-- The element at a position, a negative one counting from the end. -/
def elementAt {α : Type} (l : List α) (i : Int) : Except PositionFault α :=
  if i < -0x8000000000000000 ∨ 0x8000000000000000 ≤ i then .error .notAPosition
  else
    let fromStart := if 0 ≤ i then i else i + l.length
    if fromStart < 0 then .error .outOfRange
    else
      match l[fromStart.toNat]? with
      | some a => .ok a
      | none => .error .outOfRange

namespace Exemplars

def within? (es : Exemplars) (lower upper : Number) : Option Exemplar :=
  es.find? (fun e => Number.within lower upper e.value)

end Exemplars
end Exposition
