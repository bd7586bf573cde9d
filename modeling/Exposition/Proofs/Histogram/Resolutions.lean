import Exposition.Proofs.Binary64.Doubling
import Exposition.Proofs.Histogram.WholeExponents
/-!
# Resolutions — the bounds of a coarser histogram are bounds of a finer one

The next finer schema has half the scale and its bucket `2 i` ends where bucket `i` of the coarser one does.  Both roundings
on the way to the exponent commute with that, the one of the index because it lies far from the first binade, the one of the
product because it is the same product (`exponent_finer`).  So the two powers are taken of one and the same double, and the
outcomes are equal, faults included (`upperBound_resolutions`).
-/
namespace Exposition
namespace Native

open Binary64

variable {schema index : Int}

/-- The finer scale is half the coarser one, subnormal or not. -/
theorem exists_scale_finer (hl : -1023 ≤ schema) (hu : schema ≤ 1073) :
    ∃ c d : Fin rankLimit, scale schema = .ok (finite false c) ∧ scale (schema + 1) = .ok (finite false d) ∧
      2 * magnitude d.val = magnitude c.val := by
  obtain ⟨c, hscale, hc⟩ := exists_scale hl (hu.trans (by decide))
  obtain ⟨d, hfiner, hd⟩ := exists_scale (Int.le_add_one hl) (Int.add_le_add_right hu 1)
  refine ⟨c, d, hscale, hfiner, ?_⟩
  have hexponent : -schema = -(schema + 1) + 1 := by omega
  rw [hd, hc, hexponent, zpow_add_one₀ two_ne_zero, mul_comm]

/-- **Twice the index in the next finer schema has the same exponent.** -/
theorem exponent_finer (hl : -1023 ≤ schema) (hu : schema ≤ 1073) (hindex : (2 * index).natAbs < integerLimit) :
    exponent (schema + 1) (2 * index) = exponent schema index := by
  obtain ⟨c, d, hscale, hfiner, hhalf⟩ := exists_scale_finer hl hu
  obtain ⟨i, j, hi, hj, htwice⟩ := exists_ofInt?_double hindex
  have hsize : magnitude j.val * magnitude d.val = magnitude i.val * magnitude c.val := by
    rw [htwice, ← hhalf]
    ring
  rw [exponent, exponent, hscale, hfiner, toDouble_of_ofInt? hi, toDouble_of_ofInt? hj]
  exact congrArg Except.ok (mul_congr_magnitude (index < 0) false hsize)

theorem upperBound_finer (hl : -1023 ≤ schema) (hu : schema ≤ 1073) (hindex : (2 * index).natAbs < integerLimit) :
    upperBound (schema + 1) (2 * index) = upperBound schema index := by
  rw [upperBound_eq_exponent, upperBound_eq_exponent, exponent_finer hl hu hindex]

/-- The same any number of schemas further. -/
theorem upperBound_muchFiner (hl : -1023 ≤ schema) : ∀ (levels : Nat), schema + levels ≤ 1074 →
    (2 ^ levels * index).natAbs < integerLimit →
      upperBound (schema + levels) (2 ^ levels * index) = upperBound schema index
  | 0, _, _ => by rw [Nat.cast_zero, add_zero, pow_zero, one_mul]
  | levels + 1, hu, hindex => by
    rw [Nat.cast_succ, ← add_assoc] at hu ⊢
    rw [pow_succ', mul_assoc] at hindex ⊢
    rw [upperBound_finer (by omega) (by omega) hindex, upperBound_muchFiner hl levels (by omega) (by omega)]

/-- **A finer resolution keeps the bounds.**  For a schema from −1023 to 1073 and an index that still has a double when it is
taken twice, the bound at twice the index in the next finer schema is the bound at the index: the same double, or the same
fault.  So each bound of a histogram is one of every finer histogram, at the index taken twice for each schema between. -/
theorem upperBound_resolutions :
    (∀ schema index : Int, -1023 ≤ schema → schema ≤ 1073 → (2 * index).natAbs < integerLimit →
      upperBound (schema + 1) (2 * index) = upperBound schema index) ∧
    ∀ (schema index : Int) (levels : Nat), -1023 ≤ schema → schema + levels ≤ 1074 →
      (2 ^ levels * index).natAbs < integerLimit →
        upperBound (schema + levels) (2 ^ levels * index) = upperBound schema index :=
  ⟨fun _ _ hl hu hindex => upperBound_finer hl hu hindex,
    fun _ _ levels hl hu hindex => upperBound_muchFiner hl levels hu hindex⟩

/-- An index that is rounded and whose finer scale is subnormal, a power that is too large in both schemas, and a bound that
is found again three schemas further. -/
theorem upperBound_resolutions_edges :
    upperBound (1073 + 1) (2 * (2 ^ 1022 + 1)) = upperBound 1073 (2 ^ 1022 + 1) ∧
      upperBound 0 1024 = .error .powerTooLarge ∧ upperBound (0 + 1) (2 * 1024) = .error .powerTooLarge ∧
      ∃ bound, upperBound 0 5 = .ok bound ∧ upperBound (0 + (3 : Nat)) (2 ^ 3 * 5) = .ok bound := by
  obtain ⟨hfiner, hmuchFiner⟩ := upperBound_resolutions
  obtain ⟨k, hk⟩ := exists_rank_natCast (n := 1024) (by decide)
  have hexponent : exponent 0 1024 = .ok (finite false k) :=
    exponent_exact (by decide) (by decide) hk (hk.trans (by norm_num))
  have hlarge : upperBound 0 1024 = .error .powerTooLarge := by
    rw [upperBound_of_exponent hexponent]
    exact twoPow_of_none (twoPow?_eq_none hk.ge)
  have hexact : ∃ r : Fin rankLimit, upperBound 0 5 = .ok (finite false r) ∧ magnitude r.val = 2 ^ (5 : Int) :=
    upperBound_exact (by decide) (by decide) (by decide +kernel) (by norm_num) (by decide) (by decide)
  obtain ⟨r, hbound, -⟩ := hexact
  refine ⟨?_, hlarge, ?_, finite false r, hbound, ?_⟩
  · exact hfiner 1073 (2 ^ 1022 + 1) (by decide) (by decide) (by decide +kernel)
  · exact (hfiner 0 1024 (by decide) (by decide) (by decide +kernel)).trans hlarge
  · exact (hmuchFiner 0 5 3 (by decide) (by decide) (by decide +kernel)).trans hbound

end Native
end Exposition
