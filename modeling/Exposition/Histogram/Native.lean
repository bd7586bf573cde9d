import Exposition.Binary64.Power
import Exposition.Histogram.Buckets
/-!
# Native histograms — exponential buckets as classic ones

A native histogram of schema `s` counts by index: with base `b = 2 ^ (2 ^ -s)` the positive bucket `i`
covers what lies above `b ^ (i - 1)` and not above `b ^ i`, and the negative buckets are its mirror
images.  As classic buckets these are, from the lowest bound up: the negative ones from the highest
index down, the zero bucket if it counts anything, the positive ones from the lowest index up, and a
last one without a bound for the rest of the total.
-/
namespace Exposition

structure NativePoint where
  schema : Int
  zeroThreshold : Number
  zeroCount : Int
  positive : Mapping Int Int
  negative : Mapping Int Int
  labels : Labels
  count : Option Int
  sum : Option Number
  exemplars : Exemplars
  created : Option Int
  scrape : Option Int
  deriving DecidableEq

namespace Native

def toDouble (n : Int) : Except Fault Binary64 := orFault .integerTooLarge (Binary64.ofInt? n)

def twoPow (x : Binary64) : Except Fault Binary64 := orFault .powerTooLarge x.twoPow?

/-- The upper bound of the positive bucket `index`: two to the power of `index * 2 ^ -schema`, each step
being rounded to a double. -/
def upperBound (schema index : Int) : Except Fault Binary64 := do
  let scale ← twoPow (← toDouble (-schema))
  let i ← toDouble index
  twoPow (i.mul scale)

def ascending (m : Mapping Int Int) : List (Int × Int) := m.entries.mergeSort (fun a b => a.1 ≤ b.1)

def descending (m : Mapping Int Int) : List (Int × Int) := m.entries.mergeSort (fun a b => b.1 ≤ a.1)

/-- The mirror image of a positive bucket ends where that bucket begins. -/
def negativeBucket (schema : Int) (e : Int × Int) : Except Fault Bucket :=
  (upperBound schema (e.1 - 1)).map (fun b => ⟨.float b.negate, e.2⟩)

def positiveBucket (schema : Int) (e : Int × Int) : Except Fault Bucket :=
  (upperBound schema e.1).map (fun b => ⟨.float b, e.2⟩)

end Native

namespace NativePoint

open Native

def zeroBucket (p : NativePoint) : Except Fault (List Bucket) :=
  if 0 < p.zeroCount then
    match p.zeroThreshold.toBinary64? with
    | some x => .ok [⟨.float x, p.zeroCount⟩]
    | none => .error .integerTooLarge
  else .ok []

/-- The buckets that count something of their own, by ascending bounds.  The threshold becomes a double
only after all bounds are known. -/
def observedBuckets (p : NativePoint) : Except Fault (List Bucket) := do
  let negative ← (descending p.negative).mapM (negativeBucket p.schema)
  let positive ← (ascending p.positive).mapM (positiveBucket p.schema)
  let zero ← p.zeroBucket
  return negative ++ zero ++ positive

/-- The bucket without a bound takes what is left of the total. -/
def lastBucket (p : NativePoint) (observed : List Bucket) : Bucket :=
  ⟨.float (.infinite false), max (p.count.getD (Bucket.total observed) - Bucket.total observed) 0⟩

def toClassic (p : NativePoint) : Except Fault HistogramPoint := do
  let observed ← p.observedBuckets
  return { buckets := observed ++ [p.lastBucket observed], labels := p.labels, count := p.count
           sum := p.sum, exemplars := p.exemplars, created := p.created, scrape := p.scrape }

end NativePoint
end Exposition
