import Exposition.Binary64.Rounding
/-!
# Shortest decimals — the fewest digits that read back

The decimals with a given last place form a grid.  A decimal reads back as the double of rank `r` if it
lies between the two boundaries of `r`, which themselves belong to it if `r` is even.  The grids are
tried from the coarsest on; on each only the two neighbours of the exact value can be best.  On the
last grid, of the places of the unit itself, the exact value lies, so the search ends.
-/
namespace Exposition

structure Decimal where
  significand : Nat
  exponent : Int
  deriving DecidableEq, Repr

namespace Decimal

/-- The multiple of `step` nearest to `value` among its two neighbours that lie between `low` and
`high`, as a factor of `step`.  The ends count if `ends` is set, and of two equally near neighbours the
even one is taken. -/
def nearestNeighbour? (ends : Bool) (step low value high : Nat) : Option Nat :=
  let q := value / step
  let rest := 2 * (value % step)
  let below : Bool := low < q * step || (ends && q * step == low)
  let above : Bool := (q + 1) * step < high || (ends && (q + 1) * step == high)
  match below, above with
  | true, true =>
    some (if rest < step then q else if step < rest then q + 1 else q + q % 2)
  | true, false => some q
  | false, true => some (q + 1)
  | false, false => none

/-- The coarsest grid that is tried has steps of `10 ^ coarsest`; no finite double reaches one. -/
def coarsest : Nat := 309

/-- The finest grid has steps of `10 ^ -finest`; every finite double lies on it. -/
def finest : Nat := 1074

def coarsestStep : Nat := Nat.pow 10 coarsest * (2 * Binary64.unitsInOne)

/-- Tries the grid `n` above the finest and then those below it.  Instead of a finer step the three
numbers are taken tenfold. -/
def scan (ends : Bool) (step : Nat) : Nat → Nat → Nat → Nat → Decimal
  | 0, _, value, _ => ⟨value / step, -(finest : Int)⟩
  | n + 1, low, value, high =>
    match nearestNeighbour? ends step low value high with
    | some d => ⟨d, (n : Int) + 1 - finest⟩
    | none => scan ends step n (10 * low) (10 * value) (10 * high)

/-- The decimal with the fewest digits that reads back as the magnitude of rank `r`, and the nearest to
it of those; `r` is not zero. -/
def shortest (r : Nat) : Decimal :=
  scan (r % 2 == 0) coarsestStep (coarsest + finest) (Binary64.lowerBoundary r)
    (2 * Binary64.unitsOfRank r) (Binary64.lowerBoundary (r + 1))

end Decimal
end Exposition
