import Exposition.Record
/-!
# Buckets — classic histograms

A classic histogram has ascending upper bounds, each with the number of observations of its own bucket.
A whole number that is given as a bound stays one, unless the buckets are made from lists, where all bounds
become doubles.  The lines show running totals, and the line of a bucket carries the first exemplar between
the bound before it and its own.
-/
namespace Exposition

structure Bucket where
  upperBound : Number
  count : Int
  deriving DecidableEq, Repr

inductive BucketFault
  | integerTooLarge
  | lengthMismatch
  deriving DecidableEq, Repr

def BucketFault.message : BucketFault → Text
  | .integerTooLarge => Fault.integerTooLarge.message
  | .lengthMismatch => "upper_bounds and counts must have the same length"

namespace Bucket

def bounds? : List Number → Option (List Binary64)
  | [] => some []
  | x :: xs =>
    match x.toBinary64?, bounds? xs with
    | some d, some ds => some (d :: ds)
    | _, _ => none

/-- Buckets from bounds and counts.  The bounds are converted before the lengths are compared. -/
def ofLists (bounds : List Number) (counts : List Int) : Except BucketFault (List Bucket) :=
  match bounds? bounds with
  | none => .error .integerTooLarge
  | some ds =>
    if ds.length = counts.length then .ok (List.zipWith (fun d n => ⟨.float d, n⟩) ds counts)
    else .error .lengthMismatch

def total : List Bucket → Int
  | [] => 0
  | b :: bs => b.count + total bs

end Bucket

structure HistogramPoint where
  buckets : List Bucket
  labels : Labels
  count : Option Int
  sum : Option Number
  exemplars : Exemplars
  created : Option Int
  scrape : Option Int
  deriving DecidableEq, Repr

namespace HistogramPoint

/-- The lines of the buckets `bs`, `below` observations being in the buckets before them and `lower`
being the bound before them. -/
def bucketSamples (family : Text) (p : HistogramPoint) (below : Int) (lower : Number) :
    List Bucket → List Sample
  | [] => []
  | b :: bs =>
    { family, suffix := some "_bucket", labels := p.labels, added := some (.bound b.upperBound)
      value := .count (below + b.count), timestamp := p.scrape
      exemplar := p.exemplars.within? lower b.upperBound } ::
        bucketSamples family p (below + b.count) b.upperBound bs

end HistogramPoint
end Exposition
