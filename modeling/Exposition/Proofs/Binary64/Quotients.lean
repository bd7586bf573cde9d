import Exposition.Proofs.Binary64.Nearest
import Mathlib.Algebra.Order.Ring.Cast
import Mathlib.Tactic.FieldSimp
import Mathlib.Tactic.NormNum
/-!
# Quotients — whole numbers and products as doubles

A whole number has a double unless it lies at or beyond `integerLimit` (`ofInt?_eq_none_iff`).  The double of a whole number
and the product of two doubles are the nearest ones, so both keep the order of what they round.
-/
namespace Exposition
namespace Binary64

/-- The least whole number that is too large for a double: halfway between the largest double and `2 ^ 1024`. -/
def integerLimit : Nat := Nat.pow 2 1024 - Nat.pow 2 970

theorem lowerBoundary_rankLimit : lowerBoundary rankLimit = integerLimit * (2 * unitsInOne) := by decide +kernel

theorem cmp_natCast (m n : Nat) : compare m n = cmp (m : ℝ) (n : ℝ) := by
  rw [Nat.strictMono_cast.cmp_map_eq, cmp_eq_compare]

theorem halfUnits_pos : (0 : ℝ) < 2 * unitsInOne := by
  have h : (0 : ℝ) < unitsInOne := by exact_mod_cast unitsInOne_pos
  positivity

theorem measures_compareQuotient (num : Nat) {den : Nat} (hd : 0 < den) :
    Measures (compareQuotient num den) (num * (2 * unitsInOne) / den) := by
  intro t
  have hd' : (0 : ℝ) < den := by exact_mod_cast hd
  have hcancel : ((num * (2 * unitsInOne) : Nat) : ℝ) = num * (2 * unitsInOne) / den * den := by
    rw [div_mul_cancel₀ _ (ne_of_gt hd')]
    push_cast
    rfl
  unfold compareQuotient
  rw [cmp_natCast, Nat.cast_mul, hcancel, cmp_mul_pos_right hd']

theorem abs_signed (s : Bool) (n : Nat) : |signed s n| = n := by
  cases s <;> simp [signed]

theorem sign_signed (s : Bool) (n : Nat) : if s = true then signed s n ≤ 0 else 0 ≤ signed s n := by
  cases s <;> simp [signed]

theorem isNearest_quotient (s : Bool) (num : Nat) {den : Nat} (hd : 0 < den) :
    IsNearest (signed s num * (2 * unitsInOne) / den) (nearest s (compareQuotient num den)) := by
  have hd' : (0 : ℝ) < den := by exact_mod_cast hd
  have hsign := sign_signed s num
  refine ⟨s, _, ?_, ?_, rfl⟩
  · rw [abs_div, abs_mul, abs_of_pos halfUnits_pos, abs_of_pos hd', ← Int.cast_abs, abs_signed, Int.cast_natCast]
    exact measures_compareQuotient num hd
  · split
    · rename_i hs
      rw [if_pos hs] at hsign
      have hle : (signed s num : ℝ) ≤ 0 := by exact_mod_cast hsign
      exact div_nonpos_of_nonpos_of_nonneg (mul_nonpos_of_nonpos_of_nonneg hle (le_of_lt halfUnits_pos)) (le_of_lt hd')
    · rename_i hs
      rw [if_neg hs] at hsign
      have hle : 0 ≤ (signed s num : ℝ) := by exact_mod_cast hsign
      exact div_nonneg (mul_nonneg hle (le_of_lt halfUnits_pos)) (le_of_lt hd')

/-! ## Whole numbers -/

/-- **A whole number is too large for a double from the limit on**, on either side of zero. -/
theorem ofInt?_eq_none_iff (n : Int) : ofInt? n = none ↔ integerLimit ≤ n.natAbs := by
  have hm := measures_compareQuotient n.natAbs Nat.one_pos
  rw [Nat.cast_one, div_one] at hm
  unfold ofInt?
  rw [nearest?_eq_none_iff hm (mul_nonneg (Nat.cast_nonneg _) (le_of_lt halfUnits_pos)), lowerBoundary_rankLimit]
  push_cast
  rw [mul_le_mul_iff_of_pos_right halfUnits_pos]
  exact Nat.cast_le

theorem signed_natAbs (n : Int) : signed (n < 0) n.natAbs = n := by
  unfold signed
  split
  · rename_i h
    have hn : n < 0 := of_decide_eq_true h
    omega
  · rename_i h
    have hn : ¬n < 0 := by
      intro hn
      exact h (decide_eq_true hn)
    omega

theorem isNearest_ofInt? {n : Int} {x : Binary64} (h : ofInt? n = some x) : IsNearest (n * (2 * unitsInOne)) x := by
  have hq := isNearest_quotient (n < 0) n.natAbs Nat.one_pos
  rw [nearest_of_nearest? h, signed_natAbs, Nat.cast_one, div_one] at hq
  exact hq

theorem exists_finite_of_nearest? {s : Bool} {against : Nat → Ordering} {x : Binary64} (h : nearest? s against = some x) :
    ∃ r, x = finite s r := by
  unfold nearest? at h
  split at h
  · cases h
    exact ⟨_, rfl⟩
  · cases h

theorem exists_finite_of_ofInt? {n : Int} {x : Binary64} (h : ofInt? n = some x) : ∃ s r, x = finite s r := by
  unfold ofInt? at h
  obtain ⟨r, hr⟩ := exists_finite_of_nearest? h
  exact ⟨_, r, hr⟩

theorem ofInt?_mono {m n : Int} {x y : Binary64} (hx : ofInt? m = some x) (hy : ofInt? n = some y) (hmn : m ≤ n) :
    x.position ≤ y.position := by
  refine (isNearest_ofInt? hx).position_mono (isNearest_ofInt? hy) ?_
  exact mul_le_mul_of_nonneg_right (by exact_mod_cast hmn) (le_of_lt halfUnits_pos)

/-! ## Products -/

theorem signed_mul (s t : Bool) (m n : Nat) : signed s m * signed t n = signed (s != t) (m * n) := by
  cases s <;> cases t <;> simp [signed]

/-- **A finite double scaled by one that is not negative keeps its place among others.** -/
theorem mul_mono {s t : Bool} {q r c : Fin rankLimit} (h : (finite s q).position ≤ (finite t r).position) :
    ((finite s q).mul (finite false c)).position ≤ ((finite t r).mul (finite false c)).position := by
  have hd : 0 < unitsInOne * unitsInOne := Nat.mul_pos unitsInOne_pos unitsInOne_pos
  have hx := isNearest_quotient (s != false) (unitsOfRank q.val * unitsOfRank c.val) hd
  have hy := isNearest_quotient (t != false) (unitsOfRank r.val * unitsOfRank c.val) hd
  refine hx.position_mono hy ?_
  have hle : signed s (unitsOfRank q.val) * signed false (unitsOfRank c.val) ≤
      signed t (unitsOfRank r.val) * signed false (unitsOfRank c.val) := by
    refine mul_le_mul_of_nonneg_right ?_ (Int.natCast_nonneg _)
    exact (signed_le_signed_iff unitsOfRank_strictMono units_zero).2 h
  rw [signed_mul, signed_mul] at hle
  have hcast : (signed (s != false) (unitsOfRank q.val * unitsOfRank c.val) : ℝ) ≤
      signed (t != false) (unitsOfRank r.val * unitsOfRank c.val) := by exact_mod_cast hle
  have hd' : (0 : ℝ) ≤ (unitsInOne * unitsInOne : Nat) := Nat.cast_nonneg _
  exact div_le_div_of_nonneg_right (mul_le_mul_of_nonneg_right hcast (le_of_lt halfUnits_pos)) hd'

theorem mul_finite_ne_nan (s t : Bool) (q r : Fin rankLimit) : (finite s q).mul (finite t r) ≠ nan :=
  nearest_ne_nan _ _

end Binary64
end Exposition
