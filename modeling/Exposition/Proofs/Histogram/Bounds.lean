import Exposition.Histogram.Native
import Exposition.Proofs.Binary64.Power
import Exposition.Proofs.Faults
/-!
# Bounds — the classic buckets of a native histogram ascend

The bound of a bucket never falls as its index grows, whatever the two roundings on the way do (`Native.upperBound_mono`).
So the negative buckets, from the highest index down, ascend to zero, the positive ones ascend from there, and a zero
bucket between them keeps the order if its threshold does (`NativePoint.toClassic_ascending`).
-/
namespace Exposition

namespace Native

theorem toDouble_eq_ok {n : Int} {x : Binary64} (h : toDouble n = .ok x) : Binary64.ofInt? n = some x :=
  orFault_eq_ok_iff.1 h

theorem twoPow_eq_ok {x y : Binary64} (h : twoPow x = .ok y) : x.twoPow? = some y := orFault_eq_ok_iff.1 h

def scale (schema : Int) : Except Fault Binary64 := toDouble (-schema) >>= twoPow

theorem upperBound_eq_bind (schema index : Int) :
    upperBound schema index = scale schema >>= fun c => toDouble index >>= fun i => twoPow (i.mul c) := by
  rw [upperBound, scale, bind_assoc]

/-- How a bound comes about: the finite double of the index is scaled, and the power of that is taken. -/
theorem upperBound_eq_ok {schema index : Int} {x : Binary64} (h : upperBound schema index = .ok x) :
    ∃ c s i, scale schema = .ok (.finite false c) ∧ Binary64.ofInt? index = some (.finite s i) ∧
      ((Binary64.finite s i).mul (.finite false c)).twoPow? = some x := by
  rw [upperBound_eq_bind] at h
  obtain ⟨c, hc, h⟩ := bind_eq_ok_iff.1 h
  obtain ⟨i, hi, h⟩ := bind_eq_ok_iff.1 h
  obtain ⟨d, hd, hpow⟩ := bind_eq_ok_iff.1 hc
  obtain ⟨sd, qd, rfl⟩ := Binary64.exists_finite_of_ofInt? (toDouble_eq_ok hd)
  obtain ⟨qc, rfl⟩ := Binary64.exists_finite_of_twoPow? (twoPow_eq_ok hpow)
  obtain ⟨si, qi, rfl⟩ := Binary64.exists_finite_of_ofInt? (toDouble_eq_ok hi)
  exact ⟨qc, si, qi, hc, toDouble_eq_ok hi, twoPow_eq_ok h⟩

theorem upperBound_ne_nan {schema index : Int} {x : Binary64} (h : upperBound schema index = .ok x) : x ≠ .nan := by
  obtain ⟨c, s, i, -, -, hx⟩ := upperBound_eq_ok h
  exact Binary64.twoPow?_ne_nan (Binary64.mul_finite_ne_nan s false i c) hx

theorem upperBound_nonneg {schema index : Int} {x : Binary64} (h : upperBound schema index = .ok x) :
    0 ≤ x.position := by
  obtain ⟨c, s, i, -, -, hx⟩ := upperBound_eq_ok h
  exact Binary64.twoPow?_nonneg hx

/-- **Bounds never fall as the index grows.** -/
theorem upperBound_mono {schema i j : Int} {x y : Binary64} (hx : upperBound schema i = .ok x)
    (hy : upperBound schema j = .ok y) (hij : i ≤ j) : x.position ≤ y.position := by
  obtain ⟨c, s, q, hc, hi, hpx⟩ := upperBound_eq_ok hx
  obtain ⟨c', t, r, hc', hj, hpy⟩ := upperBound_eq_ok hy
  rw [hc] at hc'
  cases hc'
  have hpos : (Binary64.finite s q).position ≤ (Binary64.finite t r).position := Binary64.ofInt?_mono hi hj hij
  exact Binary64.twoPow?_mono (Binary64.mul_finite_ne_nan s false q c) (Binary64.mul_finite_ne_nan t false r c) hpx hpy
    (Binary64.mul_mono hpos)

/-! ## Entries in order -/

theorem ascending_perm (m : Mapping Int Int) : (ascending m).Perm m.entries := List.mergeSort_perm _ _

theorem descending_perm (m : Mapping Int Int) : (descending m).Perm m.entries := List.mergeSort_perm _ _

theorem ascending_pairwise (m : Mapping Int Int) : (ascending m).Pairwise (fun a b => a.1 ≤ b.1) := by
  have h : (ascending m).Pairwise (fun a b => decide (a.1 ≤ b.1) = true) := by
    refine List.pairwise_mergeSort (fun a b c hab hbc => ?_) (fun a b => ?_) m.entries
    · exact decide_eq_true (le_trans (of_decide_eq_true hab) (of_decide_eq_true hbc))
    · simpa using le_total a.1 b.1
  exact h.imp of_decide_eq_true

theorem descending_pairwise (m : Mapping Int Int) : (descending m).Pairwise (fun a b => b.1 ≤ a.1) := by
  have h : (descending m).Pairwise (fun a b => decide (b.1 ≤ a.1) = true) := by
    refine List.pairwise_mergeSort (fun a b c hab hbc => ?_) (fun a b => ?_) m.entries
    · exact decide_eq_true (le_trans (of_decide_eq_true hbc) (of_decide_eq_true hab))
    · simpa using le_total b.1 a.1
  exact h.imp of_decide_eq_true

end Native

namespace Bucket

/-- A bucket ends no higher than another one. -/
def EndsBy (a b : Bucket) : Prop := a.upperBound.le b.upperBound = true

theorem endsBy_float_iff {x y : Binary64} {m n : Int} :
    EndsBy ⟨.float x, m⟩ ⟨.float y, n⟩ ↔ x ≠ .nan ∧ y ≠ .nan ∧ x.position ≤ y.position :=
  Number.le_float_iff

end Bucket

open Native

theorem negativeBucket_eq_ok {schema : Int} {e : Int × Int} {b : Bucket} (h : negativeBucket schema e = .ok b) :
    ∃ x, upperBound schema (e.1 - 1) = .ok x ∧ b = ⟨.float x.negate, e.2⟩ := by
  obtain ⟨x, hx, hb⟩ := map_eq_ok_iff.1 h
  exact ⟨x, hx, hb.symm⟩

theorem positiveBucket_eq_ok {schema : Int} {e : Int × Int} {b : Bucket} (h : positiveBucket schema e = .ok b) :
    ∃ x, upperBound schema e.1 = .ok x ∧ b = ⟨.float x, e.2⟩ := by
  obtain ⟨x, hx, hb⟩ := map_eq_ok_iff.1 h
  exact ⟨x, hx, hb.symm⟩

theorem negativeBuckets_ascend {p : NativePoint} {bs : List Bucket}
    (h : (descending p.negative).mapM (negativeBucket p.schema) = .ok bs) : bs.Pairwise Bucket.EndsBy := by
  apply pairwise_of_mapM ?_ h (descending_pairwise p.negative)
  intro e e' b b' hle hb hb'
  obtain ⟨x, hx, rfl⟩ := negativeBucket_eq_ok hb
  obtain ⟨y, hy, rfl⟩ := negativeBucket_eq_ok hb'
  have hmono := upperBound_mono hy hx (by omega)
  refine Bucket.endsBy_float_iff.2
    ⟨Binary64.negate_ne_nan (upperBound_ne_nan hx), Binary64.negate_ne_nan (upperBound_ne_nan hy), ?_⟩
  rw [Binary64.position_negate, Binary64.position_negate]
  omega

theorem positiveBuckets_ascend {p : NativePoint} {bs : List Bucket}
    (h : (ascending p.positive).mapM (positiveBucket p.schema) = .ok bs) : bs.Pairwise Bucket.EndsBy := by
  apply pairwise_of_mapM ?_ h (ascending_pairwise p.positive)
  intro e e' b b' hle hb hb'
  obtain ⟨x, hx, rfl⟩ := positiveBucket_eq_ok hb
  obtain ⟨y, hy, rfl⟩ := positiveBucket_eq_ok hb'
  exact Bucket.endsBy_float_iff.2 ⟨upperBound_ne_nan hx, upperBound_ne_nan hy, upperBound_mono hx hy hle⟩

namespace NativePoint

variable {p : NativePoint} {bs : List Bucket}

theorem observedBuckets_eq_ok (h : p.observedBuckets = .ok bs) :
    ∃ negative zero positive, (descending p.negative).mapM (negativeBucket p.schema) = .ok negative ∧
      p.zeroBucket = .ok zero ∧ (ascending p.positive).mapM (positiveBucket p.schema) = .ok positive ∧
      bs = negative ++ zero ++ positive := by
  unfold observedBuckets at h
  obtain ⟨negative, hn, h⟩ := bind_eq_ok_iff.1 h
  obtain ⟨positive, hp, h⟩ := bind_eq_ok_iff.1 h
  obtain ⟨zero, hz, h⟩ := bind_eq_ok_iff.1 h
  cases h
  exact ⟨negative, zero, positive, hn, hz, hp, rfl⟩

theorem zeroBucket_eq_ok (h : p.zeroBucket = .ok bs) :
    (¬0 < p.zeroCount ∧ bs = []) ∨
      (0 < p.zeroCount ∧ ∃ z, p.zeroThreshold.toBinary64? = some z ∧ bs = [⟨.float z, p.zeroCount⟩]) := by
  unfold zeroBucket at h
  split at h
  · rename_i hpos
    cases hz : p.zeroThreshold.toBinary64? with
    | none => rw [hz] at h; cases h
    | some z =>
      rw [hz] at h
      cases h
      exact .inr ⟨hpos, z, rfl, rfl⟩
  · rename_i hneg
    cases h
    exact .inl ⟨hneg, rfl⟩

theorem toClassic_eq_ok {q : HistogramPoint} (h : p.toClassic = .ok q) :
    ∃ bs, p.observedBuckets = .ok bs ∧ q =
      { buckets := bs ++ [p.lastBucket bs], labels := p.labels, count := p.count, sum := p.sum, exemplars := p.exemplars
        created := p.created, scrape := p.scrape } := by
  unfold toClassic at h
  obtain ⟨bs, hbs, h⟩ := bind_eq_ok_iff.1 h
  cases h
  exact ⟨bs, hbs, rfl⟩

/-- If the zero bucket counts anything, its threshold is a number and lies among the bounds of the other buckets: not below
a negative one and not above a positive one. -/
def ThresholdInOrder (p : NativePoint) : Prop :=
  0 < p.zeroCount → ∀ z, p.zeroThreshold.toBinary64? = some z →
    z ≠ .nan ∧
    (∀ e ∈ p.negative.entries, ∀ b, negativeBucket p.schema e = .ok b →
      b.upperBound.le (.float z) = true) ∧
    (∀ e ∈ p.positive.entries, ∀ b, positiveBucket p.schema e = .ok b →
      Number.le (.float z) b.upperBound = true)

theorem ascend_observedBuckets (h : p.observedBuckets = .ok bs) (hz : p.ThresholdInOrder) :
    bs.Pairwise Bucket.EndsBy := by
  obtain ⟨negative, zero, positive, hn, hzero, hp, rfl⟩ := observedBuckets_eq_ok h
  -- the negative bounds lie at or below zero, the positive ones at or above it
  have hnp : ∀ a ∈ negative, ∀ b ∈ positive, a.EndsBy b := by
    intro a ha b hb
    obtain ⟨e, -, hea⟩ := exists_of_mem_of_mapM hn a ha
    obtain ⟨e', -, heb⟩ := exists_of_mem_of_mapM hp b hb
    obtain ⟨x, hx, rfl⟩ := negativeBucket_eq_ok hea
    obtain ⟨y, hy, rfl⟩ := positiveBucket_eq_ok heb
    have hx0 := upperBound_nonneg hx
    have hy0 := upperBound_nonneg hy
    refine Bucket.endsBy_float_iff.2 ⟨Binary64.negate_ne_nan (upperBound_ne_nan hx), upperBound_ne_nan hy, ?_⟩
    rw [Binary64.position_negate]
    exact le_trans (neg_nonpos.2 hx0) hy0
  rcases zeroBucket_eq_ok hzero with ⟨-, rfl⟩ | ⟨hpos, z, hthreshold, rfl⟩
  · rw [List.append_nil]
    exact List.pairwise_append.2 ⟨negativeBuckets_ascend hn, positiveBuckets_ascend hp, hnp⟩
  · obtain ⟨-, habove, hbelow⟩ := hz hpos z hthreshold
    have hnz : ∀ a ∈ negative, a.EndsBy ⟨.float z, p.zeroCount⟩ := by
      intro a ha
      obtain ⟨e, he, hea⟩ := exists_of_mem_of_mapM hn a ha
      exact habove e ((descending_perm p.negative).mem_iff.1 he) a hea
    have hzp : ∀ b ∈ positive, Bucket.EndsBy ⟨.float z, p.zeroCount⟩ b := by
      intro b hb
      obtain ⟨e, he, heb⟩ := exists_of_mem_of_mapM hp b hb
      exact hbelow e ((ascending_perm p.positive).mem_iff.1 he) b heb
    rw [List.append_assoc, List.singleton_append]
    refine List.pairwise_append.2 ⟨negativeBuckets_ascend hn, List.pairwise_cons.2 ⟨hzp, positiveBuckets_ascend hp⟩, ?_⟩
    intro a ha b hb
    rcases List.mem_cons.1 hb with rfl | hb
    · exact hnz a ha
    · exact hnp a ha b hb

/-- The bounds of the buckets that count something of their own are doubles, and numbers. -/
theorem observedBuckets_float (h : p.observedBuckets = .ok bs) (hz : p.ThresholdInOrder) :
    ∀ b ∈ bs, ∃ x, b.upperBound = .float x ∧ x ≠ .nan := by
  obtain ⟨negative, zero, positive, hn, hzero, hp, rfl⟩ := observedBuckets_eq_ok h
  intro b hb
  rcases List.mem_append.1 hb with hb | hb
  · rcases List.mem_append.1 hb with hb | hb
    · obtain ⟨e, -, heb⟩ := exists_of_mem_of_mapM hn b hb
      obtain ⟨x, hx, rfl⟩ := negativeBucket_eq_ok heb
      exact ⟨_, rfl, Binary64.negate_ne_nan (upperBound_ne_nan hx)⟩
    · rcases zeroBucket_eq_ok hzero with ⟨-, rfl⟩ | ⟨hpos, z, hthreshold, rfl⟩
      · cases hb
      · rw [List.mem_singleton] at hb
        subst hb
        exact ⟨z, rfl, (hz hpos z hthreshold).1⟩
  · obtain ⟨e, -, heb⟩ := exists_of_mem_of_mapM hp b hb
    obtain ⟨x, hx, rfl⟩ := positiveBucket_eq_ok heb
    exact ⟨x, rfl, upperBound_ne_nan hx⟩

/-- **The bounds of a converted histogram never descend**, and the last one is infinite. -/
theorem toClassic_ascending {q : HistogramPoint} (hq : p.toClassic = .ok q) (hz : p.ThresholdInOrder) :
    q.buckets.Pairwise Bucket.EndsBy := by
  obtain ⟨bs, hbs, rfl⟩ := toClassic_eq_ok hq
  refine List.pairwise_append.2 ⟨ascend_observedBuckets hbs hz, List.pairwise_singleton _ _, ?_⟩
  intro a ha b hb
  rw [List.mem_singleton] at hb
  subst hb
  obtain ⟨x, hx, hnan⟩ := observedBuckets_float hbs hz a ha
  obtain ⟨upper, count⟩ := a
  cases hx
  refine Bucket.endsBy_float_iff.2 ⟨hnan, ?_, (Binary64.position_bounds _).2⟩
  intro h
  cases h

end NativePoint
end Exposition
