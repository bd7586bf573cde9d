import Exposition.Binary64.Basic
/-!
# Rounding — the nearest double to an exact number

A non-negative number is given by how it compares with a number of half units; that suits a quotient
as well as an irrational power.  Two neighbouring ranks meet at the *boundary* halfway between their
magnitudes, and the nearest rank is the last one whose lower boundary the number reaches.  A number on
a boundary belongs to the even rank.  What reaches the boundary of `rankLimit` is too large.
-/
namespace Exposition
namespace Binary64

/-- Halfway between the magnitudes of the ranks `r - 1` and `r`, in half units. -/
def lowerBoundary (r : Nat) : Nat := unitsOfRank (r - 1) + unitsOfRank r

/-- Whether a number lies at rank `r` or above, `against t` being the comparison of `t` half units
with it. -/
def reaches (against : Nat → Ordering) (r : Nat) : Bool :=
  match against (lowerBoundary r) with
  | .lt => true
  | .eq => r % 2 == 0
  | .gt => false

/-- The last number below `base + 2 ^ k` at which `p` holds, if it holds at `base` and, once it fails,
fails from there on. -/
def searchLast (p : Nat → Bool) : Nat → Nat → Nat
  | 0, base => base
  | k + 1, base => if p (base + Nat.pow 2 k) then searchLast p k (base + Nat.pow 2 k) else searchLast p k base

def nearestRank (against : Nat → Ordering) : Nat := searchLast (reaches against) 63 0

/-- The nearest double, or nothing if the number is too large. -/
def nearest? (negative : Bool) (against : Nat → Ordering) : Option Binary64 :=
  if h : nearestRank against < rankLimit then some (finite negative ⟨nearestRank against, h⟩) else none

def nearest (negative : Bool) (against : Nat → Ordering) : Binary64 :=
  (nearest? negative against).getD (infinite negative)

def compareQuotient (num den t : Nat) : Ordering := compare (t * den) (num * (2 * unitsInOne))

def ofInt? (n : Int) : Option Binary64 := nearest? (n < 0) (compareQuotient n.natAbs 1)

def mul : Binary64 → Binary64 → Binary64
  | finite s q, finite t r =>
    nearest (s != t)
      (compareQuotient (unitsOfRank q.val * unitsOfRank r.val) (unitsInOne * unitsInOne))
  | nan, _ => nan
  | _, nan => nan
  | infinite s, infinite t => infinite (s != t)
  | infinite s, finite t r => if r.val = 0 then nan else infinite (s != t)
  | finite s q, infinite t => if q.val = 0 then nan else infinite (s != t)

/-- The whole number nearest to `num / den`, the even one if there are two. -/
def roundQuotient (num den : Nat) : Nat :=
  let q := num / den
  let rest := 2 * (num % den)
  if rest < den then q else if den < rest then q + 1 else q + q % 2

/-- Rounded to six decimal places: first the exact value to whole millionths, then these to a double.
A zero keeps the sign. -/
def roundToMillionths : Binary64 → Binary64
  | finite s r =>
    nearest s (compareQuotient (roundQuotient (unitsOfRank r.val * 1000000) unitsInOne) 1000000)
  | x => x

end Binary64
end Exposition
