import Exposition.Proofs.Decimal.Grids
/-!
# Shortest — no decimal with fewer digits reads back

The shortest decimal of a rank lies on the coarsest grid that has one.  A decimal on a finer grid lies strictly between two
neighbours there, so it has more digits than one of them; and of those on the grid itself all have the same number, as
otherwise a power of ten between them would lie on a coarser one.  Only where the shortest decimal is a power of ten, a
decimal with one digit may come from a finer grid, from below; the power is nearer, for magnitudes are dense enough there
(`ten_zpow_near`).
-/
namespace Exposition
namespace Decimal

open Binary64 (RoundsTo magnitude boundary unitsOfRank unitsInOne binade)

/-- The number of digits. -/
def length (n : Nat) : Nat := (Nat.digits 10 n).length

theorem length_le_iff {n k : Nat} : length n ≤ k ↔ n < 10 ^ k := Nat.digits_length_le_iff (by decide) n

theorem lt_length_iff {n k : Nat} : k < length n ↔ 10 ^ k ≤ n := Nat.lt_digits_length_iff (by decide) n

theorem length_pos {n : Nat} (h : n ≠ 0) : 0 < length n := lt_length_iff.2 (Nat.one_le_iff_ne_zero.2 h)

theorem length_succ {n : Nat} (h0 : n ≠ 0) (h : (n + 1) % 10 ≠ 0) : length (n + 1) = length n := by
  have hdiv : (n + 1) / 10 = n / 10 := by omega
  rw [length, length, Nat.digits_def' (by decide) (Nat.succ_pos n), Nat.digits_def' (by decide) (Nat.pos_of_ne_zero h0),
    hdiv, List.length_cons, List.length_cons]

theorem length_div_lt {n k : Nat} (hk : 0 < k) (h : n / 10 ^ k ≠ 0) : length (n / 10 ^ k) < length n := by
  rw [lt_length_iff]
  have hpos := length_pos h
  have hle : 10 ^ (length (n / 10 ^ k) - 1) ≤ n / 10 ^ k := lt_length_iff.1 (by omega)
  calc 10 ^ length (n / 10 ^ k) ≤ 10 ^ (length (n / 10 ^ k) - 1 + k) := Nat.pow_le_pow_right (by decide) (by omega)
    _ = 10 ^ (length (n / 10 ^ k) - 1) * 10 ^ k := Nat.pow_add ..
    _ ≤ n / 10 ^ k * 10 ^ k := Nat.mul_le_mul_right _ hle
    _ ≤ n := Nat.div_mul_le_self n (10 ^ k)

/-! ## Powers of ten -/

theorem units_succ_le {r : Nat} (hr : 10 ≤ r) : 10 * unitsOfRank (r + 1) ≤ 11 * unitsOfRank r := by
  have hbinade : 10 ≤ binade := by decide
  rcases Nat.lt_or_ge r binade with h | h
  · rw [Binary64.unitsOfRank_of_lt h]
    rcases Nat.lt_or_ge (r + 1) binade with h' | h'
    · rw [Binary64.unitsOfRank_of_lt h']
      omega
    · have h0 : r + 1 = (0 + 1) * binade + 0 := by omega
      rw [h0, Binary64.unitsOfRank_binade Binary64.binade_pos]
      omega
  · obtain ⟨e, m, hm, rfl⟩ := Binary64.exists_binade h
    rw [Binary64.unitsOfRank_binade hm, Binary64.unitsOfRank_binade_succ hm, ← Nat.mul_assoc, ← Nat.mul_assoc]
    exact Nat.mul_le_mul_right _ (by omega)

theorem power_bounds {k u : Nat} (hlower : 2 * 10 ^ k < u) (hupper : 10 * u < 21 * 10 ^ k) :
    2 < (10 : ℚ) ^ (-(k : ℤ)) * u ∧ (10 : ℚ) ^ (-(k : ℤ)) * u < 21 / 10 := by
  have hpos : (0 : ℚ) < 10 ^ k := by positivity
  have hlower' : (2 : ℚ) * 10 ^ k < u := by exact_mod_cast hlower
  have hupper' : (10 : ℚ) * u < 21 * 10 ^ k := by exact_mod_cast hupper
  rw [zpow_neg, zpow_natCast, inv_mul_eq_div, lt_div_iff₀ hpos, div_lt_iff₀ hpos]
  constructor <;> linarith

/-- The least power of ten beyond the least magnitude is a little more than two units. -/
theorem exists_least_power : ∃ k : ℤ, 2 < (10 : ℚ) ^ k * unitsInOne ∧ (10 : ℚ) ^ k * unitsInOne < 21 / 10 :=
  ⟨_, power_bounds (k := 323) (by decide +kernel) (by decide +kernel)⟩

theorem ten_mul_zpow_mul_le {i j : ℤ} (h : i < j) {q : ℚ} (hq : 0 ≤ q) : 10 * ((10 : ℚ) ^ i * q) ≤ 10 ^ j * q := by
  have hpow : (10 : ℚ) * 10 ^ i ≤ 10 ^ j := by
    rw [mul_comm, ← zpow_add_one₀ (by norm_num)]
    exact zpow_le_zpow_right₀ (by norm_num) h
  rw [← mul_assoc]
  exact mul_le_mul_of_nonneg_right hpow hq

section Powers

variable {r : Nat} {i : ℤ}

/-- Among the least magnitudes the only power of ten that is rounded down is the one at two units. -/
theorem ten_zpow_near_of_lt (hr : 0 < r) (hsmall : r < 10) (hupper : (10 : ℚ) ^ i ≤ boundary (r + 1))
    (hlt : magnitude r < 10 ^ i) : 19 * 10 ^ i ≤ 20 * magnitude r := by
  obtain ⟨k, hlow, hhigh⟩ := exists_least_power
  have hunit := Binary64.unitsInOne_cast_pos
  have hr1 : (1 : ℚ) ≤ r := by exact_mod_cast hr
  have hr9 : (r : ℚ) ≤ 9 := by exact_mod_cast (show r ≤ 9 by omega)
  have hbinade : 10 < binade := by decide
  rw [magnitude, Binary64.unitsOfRank_of_lt (by omega), div_lt_iff₀ hunit] at hlt
  rw [Binary64.boundary_succ, magnitude, magnitude, Binary64.unitsOfRank_of_lt (by omega),
    Binary64.unitsOfRank_of_lt (by omega), ← add_div, div_div, le_div_iff₀ (mul_pos hunit two_pos), ← mul_assoc] at hupper
  push_cast at hupper
  rw [magnitude, Binary64.unitsOfRank_of_lt (by omega), ← mul_div_assoc, le_div_iff₀ hunit, mul_assoc]
  rcases lt_trichotomy i k with hi | rfl | hi
  · have hle := ten_mul_zpow_mul_le hi hunit.le
    linarith
  · have hr3 : r < 3 := by
      have hlt3 : (r : ℚ) < 3 := by linarith
      exact_mod_cast hlt3
    have hr2 : 1 < r := by
      have hlt1 : (1 : ℚ) < r := by linarith
      exact_mod_cast hlt1
    obtain rfl : r = 2 := by omega
    push_cast
    linarith
  · have hle := ten_mul_zpow_mul_le hi hunit.le
    linarith

/-- Any other magnitudes are dense. -/
theorem ten_zpow_near_of_le (hlarge : 10 ≤ r) (hupper : (10 : ℚ) ^ i ≤ boundary (r + 1)) :
    19 * 10 ^ i ≤ 20 * magnitude r := by
  have hunit := Binary64.unitsInOne_cast_pos
  have hdense : (10 : ℚ) * magnitude (r + 1) ≤ 11 * magnitude r := by
    have h := units_succ_le hlarge
    rw [magnitude, magnitude, ← mul_div_assoc, ← mul_div_assoc]
    exact div_le_div_of_nonneg_right (by exact_mod_cast h) hunit.le
  have hnonneg := Binary64.magnitude_nonneg r
  rw [Binary64.boundary_succ] at hupper
  linarith

/-- A power of ten that is rounded down to a rank is close to it. -/
theorem ten_zpow_near (hr : 0 < r) (h : RoundsTo (10 ^ i) r) (hlt : magnitude r < 10 ^ i) :
    19 * 10 ^ i ≤ 20 * magnitude r := by
  obtain ⟨-, hupper, -⟩ := (Binary64.roundsTo_iff (ten_zpow_pos i).le).1 h
  rcases Nat.lt_or_ge r 10 with hsmall | hlarge
  · exact ten_zpow_near_of_lt hr hsmall hupper hlt
  · exact ten_zpow_near_of_le hlarge hupper

end Powers

/-! ## Other decimals -/

theorem grid_mono {m n : Nat} (h : m ≤ n) (i : ℤ) : (m : ℚ) * 10 ^ i ≤ n * 10 ^ i :=
  mul_le_mul_of_nonneg_right (Nat.cast_le.2 h) (ten_zpow_pos i).le

theorem grid_nonneg (n : Nat) (i : ℤ) : (0 : ℚ) ≤ n * 10 ^ i := mul_nonneg (Nat.cast_nonneg n) (ten_zpow_pos i).le

theorem significand_ne_zero {r n : Nat} {i : ℤ} (hr : 0 < r) (h : RoundsTo (n * 10 ^ i) r) : n ≠ 0 := by
  rintro rfl
  obtain ⟨hlower, -⟩ := (Binary64.roundsTo_iff (grid_nonneg 0 i)).1 h
  rw [Nat.cast_zero, zero_mul] at hlower
  exact absurd (Binary64.boundary_pos hr) (not_lt.2 hlower)

namespace IsShortest

variable {d : Decimal} {r : Nat}

/-- No decimal of the rank on the grid of the shortest one ends with a zero. -/
theorem mod_ne (hd : IsShortest d r) {n : Nat} (hn : RoundsTo (n * 10 ^ d.exponent) r) : n % 10 ≠ 0 := by
  intro h
  refine hd.coarsest (d.exponent + 1) (n / 10) (by omega) ?_
  have hten : n = n / 10 * 10 := by omega
  have hvalue : ((n / 10 : Nat) : ℚ) * 10 ^ (d.exponent + 1) = n * 10 ^ d.exponent := by
    rw [zpow_add_one₀ (by norm_num)]
    conv_rhs => rw [hten]
    push_cast
    ring
  exact hvalue ▸ hn

/-- All decimals of the rank on the grid of the shortest one have as many digits: a power of ten between two of them would
lie on a coarser grid. -/
theorem length_le (hd : IsShortest d r) {m n : Nat} (hm0 : m ≠ 0) (hm : RoundsTo (m * 10 ^ d.exponent) r)
    (hn : RoundsTo (n * 10 ^ d.exponent) r) : length n ≤ length m := by
  by_contra hlt
  have hpow : 10 ^ length m ≤ n := lt_length_iff.1 (not_le.1 hlt)
  have hbetween : RoundsTo ((10 ^ length m : Nat) * 10 ^ d.exponent) r :=
    hm.of_between hn (grid_nonneg m _) (grid_mono (length_le_iff.1 le_rfl).le _) (grid_mono hpow _)
  rw [← ten_zpow_add] at hbetween
  refine hd.coarsest (length m + d.exponent) 1 ?_ ?_
  · have := length_pos hm0
    omega
  · rwa [Nat.cast_one, one_mul]

theorem length_eq (hd : IsShortest d r) (hr : 0 < r) {n : Nat} (hn : RoundsTo (n * 10 ^ d.exponent) r) :
    length n = length d.significand :=
  le_antisymm (hd.length_le (significand_ne_zero hr hd.rounds) hd.rounds hn)
    (hd.length_le (significand_ne_zero hr hn) hn hd.rounds)

/-- A decimal with one digit from below the grid is not nearer than the shortest one, if that has one digit as well. -/
theorem closest_of_lt_ten (hd : IsShortest d r) (hr : 0 < r) (hone : RoundsTo (10 ^ d.exponent) r) {f : Nat} {b : ℤ}
    (hf : f < 10) (hb : b < d.exponent) (hlt : f * (10 : ℚ) ^ b < 10 ^ d.exponent) :
    |d.value - magnitude r| ≤ |f * 10 ^ b - magnitude r| := by
  have hclosest := hd.closest 1
  rw [Nat.cast_one, one_mul] at hclosest
  refine (hclosest hone).trans ?_
  rcases le_or_gt (10 ^ d.exponent) (magnitude r) with hle | hgt
  · rw [abs_of_nonpos (by linarith), abs_of_nonpos (by linarith)]
    linarith
  · have hnear := ten_zpow_near hr hone hgt
    have hstep := ten_mul_zpow_mul_le hb zero_le_one
    have hf9 : (f : ℚ) ≤ 9 := by exact_mod_cast (show f ≤ 9 by omega)
    have hfb : (f : ℚ) * 10 ^ b ≤ 9 * 10 ^ b := mul_le_mul_of_nonneg_right hf9 (ten_zpow_pos b).le
    rw [abs_of_pos (by linarith)]
    refine le_trans ?_ (neg_le_abs _)
    linarith

/-- A decimal from a finer grid lies between two neighbours on the grid of the shortest one.  One of them is rounded to the
rank as well, and has fewer digits than it, unless there is nothing but zero below. -/
theorem length_lt_of_finer (hd : IsShortest d r) (hr : 0 < r) {f k : Nat} {b : ℤ} (hk : d.exponent = (k + 1 : Nat) + b)
    (h : RoundsTo (f * 10 ^ b) r) (hq : f / 10 ^ (k + 1) ≠ 0) : length d.significand < length f := by
  have hgrid : ∀ q : Nat, (q : ℚ) * 10 ^ d.exponent = (q * 10 ^ (k + 1) : Nat) * 10 ^ b := by
    intro q
    rw [hk, ten_zpow_add, ← mul_assoc, Nat.cast_mul]
  have hshorter : length (f / 10 ^ (k + 1)) < length f := length_div_lt (Nat.succ_pos k) hq
  generalize hn : f / 10 ^ (k + 1) = q at hq hshorter
  rcases Nat.lt_or_ge q d.significand with hlt | hge
  · -- then the neighbour above does not lie beyond the shortest one
    have habove : f ≤ (q + 1) * 10 ^ (k + 1) := by
      rw [← hn, Nat.mul_comm]
      exact (Nat.lt_mul_div_succ f (Nat.pow_pos (by decide))).le
    have hnext : RoundsTo ((q + 1 : Nat) * 10 ^ d.exponent) r := by
      refine h.of_between hd.rounds (grid_nonneg f b) ?_ (grid_mono hlt _)
      rw [hgrid]
      exact grid_mono habove b
    rw [← hd.length_eq hr hnext, length_succ hq (hd.mod_ne hnext)]
    exact hshorter
  · have hbelow : q * 10 ^ (k + 1) ≤ f := hn ▸ Nat.div_mul_le_self f (10 ^ (k + 1))
    have hself : RoundsTo (q * 10 ^ d.exponent) r := by
      refine hd.rounds.of_between h d.value_nonneg (grid_mono hge _) ?_
      rw [hgrid]
      exact grid_mono hbelow b
    rw [← hd.length_eq hr hself]
    exact hshorter

/-- **Another decimal of the rank has no fewer digits**, and if it has as many, it is not nearer to the magnitude. -/
theorem length_le_and_closest (hd : IsShortest d r) (hr : 0 < r) {f : Nat} {b : ℤ} (h : RoundsTo (f * 10 ^ b) r) :
    length d.significand ≤ length f ∧
      (length f = length d.significand → |d.value - magnitude r| ≤ |f * 10 ^ b - magnitude r|) := by
  rcases lt_trichotomy b d.exponent with hb | rfl | hb
  · obtain ⟨k, hk⟩ : ∃ k : Nat, d.exponent = (k + 1 : Nat) + b := ⟨(d.exponent - b - 1).toNat, by omega⟩
    by_cases hq : f / 10 ^ (k + 1) = 0
    · have hf : f < 10 ^ (k + 1) := (Nat.div_eq_zero_iff_lt (Nat.pow_pos (by decide))).1 hq
      have hlt : (f : ℚ) * 10 ^ b < 10 ^ d.exponent := by
        rw [hk, ten_zpow_add]
        exact mul_lt_mul_of_pos_right (Nat.cast_lt.2 hf) (ten_zpow_pos b)
      have hself : (10 : ℚ) ^ d.exponent ≤ d.value :=
        le_mul_of_one_le_left (ten_zpow_pos _).le
          (by exact_mod_cast Nat.one_le_iff_ne_zero.2 (significand_ne_zero hr hd.rounds))
      have hone : RoundsTo (10 ^ d.exponent) r := h.of_between hd.rounds (grid_nonneg f b) hlt.le hself
      have hlength : length d.significand = 1 :=
        (hd.length_eq hr (n := 1) (by rwa [Nat.cast_one, one_mul])).symm.trans (by decide)
      refine ⟨hlength ▸ length_pos (significand_ne_zero hr h), fun heq => ?_⟩
      exact hd.closest_of_lt_ten hr hone (length_le_iff.1 (heq.trans hlength).le) hb hlt
    · have hlt := hd.length_lt_of_finer hr hk h hq
      exact ⟨hlt.le, fun heq => absurd heq hlt.ne'⟩
  · exact ⟨(hd.length_eq hr h).ge, fun _ => hd.closest f h⟩
  · exact absurd h (hd.coarsest b f hb)

/-- **The shortest decimal has the least precision of those that are rounded to the rank, and of those with this precision
none is nearer to the magnitude.** -/
theorem precision_le_and_closest (hd : IsShortest d r) (hr : 0 < r) {e : Decimal} (he : RoundsTo e.value r) :
    d.precision ≤ e.precision ∧
      (e.precision = d.precision → |d.value - magnitude r| ≤ |e.value - magnitude r|) := by
  obtain ⟨f, b, hvalue, -, hprecision⟩ := exists_trimmed_value e (significand_ne_zero hr he)
  rw [precision_of_mod_ne (e := d.exponent) (hd.mod_ne hd.rounds), hprecision, hvalue]
  exact hd.length_le_and_closest hr (hvalue ▸ he)

end IsShortest

end Decimal
end Exposition
