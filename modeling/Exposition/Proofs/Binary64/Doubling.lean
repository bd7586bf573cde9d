import Exposition.Proofs.Binary64.Exact
/-!
# Doubling — a rank and the one a binade above it

From `binade` on the magnitude a binade above a rank is twice as large, so what is rounded to a rank beyond that is, taken
twice, rounded a binade higher (`roundsTo_double_iff`).  A whole number is zero or lies far beyond the first binade, so the
double of twice a whole number is twice its double however many digits are rounded away (`exists_ofInt?_double`).
-/
namespace Exposition
namespace Binary64

theorem unitsOfRank_add_binade {r : Nat} (h : binade ≤ r) : unitsOfRank (r + binade) = 2 * unitsOfRank r := by
  obtain ⟨e, m, hm, rfl⟩ := exists_binade h
  have hnext : (e + 1) * binade + m + binade = (e + 1 + 1) * binade + m := by
    rw [Nat.succ_mul (e + 1), Nat.add_right_comm]
  rw [hnext, unitsOfRank_binade hm, unitsOfRank_binade hm, Nat.pow_succ']
  ring

theorem magnitude_add_binade {r : Nat} (h : binade ≤ r) : magnitude (r + binade) = 2 * magnitude r := by
  rw [magnitude, magnitude, unitsOfRank_add_binade h, Nat.cast_mul, Nat.cast_ofNat, mul_div_assoc]

/-- A boundary is twice as far out if the rank before it is no longer in the first binade either. -/
theorem boundary_add_binade {r : Nat} (h : binade < r) : boundary (r + binade) = 2 * boundary r := by
  have hbefore : r + binade - 1 = r - 1 + binade := by omega
  rw [boundary, boundary, hbefore, magnitude_add_binade (Nat.le_sub_one_of_lt h), magnitude_add_binade h.le]
  ring

/-- **Rounding commutes with doubling** beyond the first binade, ties included, since a binade has an even number of
ranks. -/
theorem roundsTo_double_iff {r : Nat} {q : ℚ} (hr : binade < r) (hq : 0 ≤ q) :
    RoundsTo (2 * q) (r + binade) ↔ RoundsTo q r := by
  have hnext : r + binade + 1 = r + 1 + binade := Nat.add_right_comm r binade 1
  have hparity : (r + binade) % 2 = r % 2 := Nat.add_mul_mod_self_left r 2 (2 ^ 51)
  rw [roundsTo_iff (mul_nonneg zero_le_two hq), roundsTo_iff hq, hnext, boundary_add_binade hr,
    boundary_add_binade (Nat.lt_succ_of_lt hr), mul_le_mul_iff_right₀ two_pos, mul_le_mul_iff_right₀ two_pos,
    mul_right_inj' two_ne_zero, mul_right_inj' two_ne_zero, hparity]

/-! ## Whole numbers -/

theorem magnitude_succ_binade_le_one : magnitude (binade + 1) ≤ 1 := by
  have h : unitsOfRank (binade + 1) ≤ unitsInOne := by decide +kernel
  rw [magnitude, div_le_one unitsInOne_cast_pos]
  exact_mod_cast h

/-- **The double of twice a whole number is twice its double**, as long as that number has one. -/
theorem exists_ofInt?_double {n : Int} (h : (2 * n).natAbs < integerLimit) :
    ∃ r k : Fin rankLimit, ofInt? n = some (finite (n < 0) r) ∧ ofInt? (2 * n) = some (finite (n < 0) k) ∧
      magnitude k.val = 2 * magnitude r.val := by
  rcases eq_or_ne n 0 with rfl | hn
  · have hzero : magnitude (⟨0, by decide⟩ : Fin rankLimit).val = (0 : Int).natAbs := by
      rw [magnitude_zero, Int.natAbs_zero, Nat.cast_zero]
    refine ⟨_, _, ofInt?_exact hzero, ofInt?_exact hzero, ?_⟩
    rw [magnitude_zero, mul_zero]
  · have hone : (1 : ℚ) ≤ n.natAbs := by exact_mod_cast Nat.one_le_iff_ne_zero.2 (Int.natAbs_ne_zero.2 hn)
    have hsign : decide (2 * n < 0) = decide (n < 0) := decide_eq_decide.2 (by omega)
    have hcast : ((2 * n).natAbs : ℚ) = 2 * n.natAbs := by
      rw [Int.natAbs_mul, Nat.cast_mul]
      rfl
    obtain ⟨k, hk, hround⟩ := exists_ofInt? h
    rw [hcast] at hround
    rw [hsign] at hk
    -- the rank is so high that there is one a binade below it, beyond the first binade again
    have hlarge : binade + 1 + binade ≤ k.val := by
      apply hround.le_rank
      rw [magnitude_add_binade (Nat.le_succ binade)]
      exact mul_le_mul_of_nonneg_left (magnitude_succ_binade_le_one.trans hone) zero_le_two
    obtain ⟨r, hr⟩ := Nat.exists_eq_add_of_le' ((Nat.le_add_left binade (binade + 1)).trans hlarge)
    have hbeyond : binade < r := by omega
    rw [hr, roundsTo_double_iff hbeyond (zero_le_one.trans hone)] at hround
    have hlimit : r < rankLimit := by omega
    exact ⟨⟨r, hlimit⟩, k, ofInt?_eq_some_iff.2 ⟨⟨r, hlimit⟩, rfl, hround⟩, hk, hr ▸ magnitude_add_binade hbeyond.le⟩

/-! ## Products -/

/-- Products of the same size are rounded to the same double. -/
theorem mul_congr_magnitude (s t : Bool) {q r q' r' : Fin rankLimit}
    (h : magnitude q'.val * magnitude r'.val = magnitude q.val * magnitude r.val) :
    (finite s q').mul (finite t r') = (finite s q).mul (finite t r) := by
  have hpos : ((unitsInOne * unitsInOne : Nat) : ℚ) ≠ 0 := Nat.cast_ne_zero.2 unitsInOne_sq_pos.ne'
  rw [← units_mul_div, ← units_mul_div, div_left_inj' hpos, Nat.cast_inj] at h
  rw [mul, mul, h]

end Binary64
end Exposition
