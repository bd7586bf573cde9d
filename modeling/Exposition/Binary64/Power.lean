import Exposition.Binary64.Rounding
/-!
# Powers of two — the double nearest to `2 ^ x`

For a double `x` that is no whole number `2 ^ x` is irrational, and all that rounding asks is how it
compares with rationals.  The whole part of `x` settles that unless both lie in the same interval from
one power of two to the next.  Scaled to `[1, 2)` the rational `c` is then compared with
`2 ^ 0.b₁b₂b₃…` by squaring: if `c ^ 2` lies on one side of 2 and `b₁` says that the power's square
lies on the other, the question is settled; otherwise it is the same question about the squares.
The squares are enclosed between two numbers of limited length.  Should an enclosure become too wide to
tell, the exact powers are compared, so that the answer never hangs on that length.
-/
namespace Exposition
namespace Binary64

def places : Nat := 256

def scaledOne : Nat := Nat.pow 2 places

/-- Compares a number of `[1, 2)`, enclosed by `lo` and `hi` over `scaledOne`, with the power of two
whose exponent is given by the last `k` binary digits of `f`; nothing if the enclosure is too wide. -/
def compareFraction? (f : Nat) : Nat → Nat → Nat → Option Ordering
  | 0, lo, hi =>
    if scaledOne < lo then some .gt else if hi ≤ scaledOne then some .eq else none
  | k + 1, lo, hi =>
    let lo' := lo * lo / scaledOne
    let hi' := (hi * hi + (scaledOne - 1)) / scaledOne
    if hi' < 2 * scaledOne then
      if f.testBit k then some .lt else compareFraction? f k lo' hi'
    else if 2 * scaledOne ≤ lo' then
      if f.testBit k then compareFraction? f k (lo' / 2) ((hi' + 1) / 2) else some .gt
    else none

def compareExactly (t p f : Nat) : Ordering :=
  compare (Nat.pow t unitsInOne) (Nat.pow 2 (p * unitsInOne + f))

/-- Compares `t` half units with 2 to the power of `x` units. -/
def compareTwoPow (x : Int) (t : Nat) : Ordering :=
  let e := x / (unitsInOne : Int) + 1075
  let f := (x % (unitsInOne : Int)).toNat
  let p := t.log2
  let scale := Nat.pow 2 p
  if t = 0 then .lt
  else if (p : Int) < e then .lt
  else if e < (p : Int) then .gt
  else
    (compareFraction? f 1074 (t * scaledOne / scale) ((t * scaledOne + (scale - 1)) / scale)).getD
      (compareExactly t p f)

/-- Two to the power of `x`, or nothing if `x` is finite and the power is too large. -/
def twoPow? : Binary64 → Option Binary64
  | nan => some nan
  | infinite false => some (infinite false)
  | infinite true => some zero
  | finite true r => nearest? false (compareTwoPow (-(unitsOfRank r.val : Int)))
  | finite false r => nearest? false (compareTwoPow (unitsOfRank r.val : Int))

end Binary64
end Exposition
