import Exposition.Decimal.Reader
import Exposition.Proofs.Binary64.Roundings
import Mathlib.Data.Nat.Digits.Lemmas
/-!
# Decimal values — what a decimal stands for, and how many digits it takes

A decimal stands for a rational, and its precision is the number of its digits without the zeros at its end.  That depends
on the rational alone: it is the least number of digits with which it can be written (`precision_le_iff`).  A decimal with
a sign becomes the double that its value is rounded to (`SignedDecimal.toBinary64?_eq_some_iff`).
-/
namespace Exposition

namespace Decimal

def value (d : Decimal) : ℚ := d.significand * 10 ^ d.exponent

/-- The significant digits of a decimal, the zeros at its end not counted. -/
def precision (d : Decimal) : Nat := ((Nat.digits 10 d.significand).dropWhile (· = 0)).length

theorem ten_zpow_pos (e : ℤ) : (0 : ℚ) < 10 ^ e := zpow_pos (by norm_num) e

theorem ten_zpow_add (m : Nat) (e : ℤ) : (10 : ℚ) ^ (m + e) = (10 ^ m : Nat) * 10 ^ e := by
  rw [zpow_add₀ (by norm_num), zpow_natCast, Nat.cast_pow, Nat.cast_ofNat]

theorem value_nonneg (d : Decimal) : 0 ≤ d.value := mul_nonneg (Nat.cast_nonneg _) (ten_zpow_pos _).le

/-! ## Precision -/

theorem dropWhile_digits_of_mod_ne {n : Nat} (h : n % 10 ≠ 0) : (Nat.digits 10 n).dropWhile (· = 0) = Nat.digits 10 n := by
  have hn : 0 < n := by omega
  rw [Nat.digits_def' (by decide) hn, List.dropWhile_cons_of_neg]
  simpa using h

/-- A whole number without the zeros at its end. -/
theorem exists_trimmed (n : Nat) (hn : n ≠ 0) :
    ∃ f k, n = f * 10 ^ k ∧ f % 10 ≠ 0 ∧ (Nat.digits 10 n).dropWhile (· = 0) = Nat.digits 10 f := by
  by_cases h : n % 10 = 0
  · obtain ⟨f, k, hf, hf10, hdigits⟩ := exists_trimmed (n / 10) (by omega)
    refine ⟨f, k + 1, ?_, hf10, ?_⟩
    · rw [Nat.pow_succ, ← Nat.mul_assoc, ← hf]
      omega
    · rw [Nat.digits_def' (by decide) (Nat.pos_of_ne_zero hn), List.dropWhile_cons_of_pos (by simpa using h), hdigits]
  · exact ⟨n, 0, (Nat.mul_one n).symm, h, dropWhile_digits_of_mod_ne h⟩
termination_by n
decreasing_by omega

theorem precision_of_mod_ne {n : Nat} (h : n % 10 ≠ 0) (e : ℤ) :
    (Decimal.mk n e).precision = (Nat.digits 10 n).length := by
  rw [precision, dropWhile_digits_of_mod_ne h]

theorem exists_trimmed_value (d : Decimal) (h : d.significand ≠ 0) :
    ∃ (f : Nat) (b : ℤ), d.value = f * 10 ^ b ∧ f % 10 ≠ 0 ∧ d.precision = (Nat.digits 10 f).length := by
  obtain ⟨f, k, hf, hf10, hdigits⟩ := exists_trimmed d.significand h
  refine ⟨f, k + d.exponent, ?_, hf10, congrArg List.length hdigits⟩
  rw [value, ten_zpow_add, hf]
  push_cast
  ring

/-- Without zeros at its end a significand is not greater than another one for the same number. -/
theorem le_of_value_eq {f m : Nat} {b e : ℤ} (hf : f % 10 ≠ 0) (h : (f : ℚ) * 10 ^ b = m * 10 ^ e) : f ≤ m := by
  rcases lt_or_ge b e with hbe | hbe
  · -- then ten would divide it
    obtain ⟨k, rfl⟩ : ∃ k : Nat, e = (k + 1 : Nat) + b := ⟨(e - b - 1).toNat, by omega⟩
    rw [ten_zpow_add, ← mul_assoc, mul_left_inj' (ten_zpow_pos b).ne'] at h
    have hnat : f = m * 10 ^ (k + 1) := by exact_mod_cast h
    rw [Nat.pow_succ, ← Nat.mul_assoc] at hnat
    omega
  · obtain ⟨k, rfl⟩ : ∃ k : Nat, b = k + e := ⟨(b - e).toNat, by omega⟩
    rw [ten_zpow_add, ← mul_assoc, mul_left_inj' (ten_zpow_pos e).ne'] at h
    have hnat : f * 10 ^ k = m := by exact_mod_cast h
    exact hnat ▸ Nat.le_mul_of_pos_right f (by positivity)

/-- **The precision is the least number of digits that a decimal of this value has.** -/
theorem precision_le_iff {d : Decimal} {k : Nat} :
    d.precision ≤ k ↔ ∃ (m : Nat) (e : ℤ), m < 10 ^ k ∧ d.value = m * 10 ^ e := by
  by_cases h : d.significand = 0
  · refine iff_of_true ?_ ⟨0, 0, by positivity, ?_⟩
    · rw [precision, h]
      exact Nat.zero_le k
    · rw [value, h, Nat.cast_zero, zero_mul, zero_mul]
  · obtain ⟨f, b, hvalue, hf, hprecision⟩ := exists_trimmed_value d h
    rw [hprecision, Nat.digits_length_le_iff (by decide)]
    constructor
    · exact fun hlt => ⟨f, b, hlt, hvalue⟩
    · rintro ⟨m, e, hm, he⟩
      exact (le_of_value_eq hf (hvalue.symm.trans he)).trans_lt hm

theorem precision_congr {d e : Decimal} (h : d.value = e.value) : d.precision = e.precision := by
  apply le_antisymm <;> rw [precision_le_iff]
  · exact h ▸ precision_le_iff.1 le_rfl
  · exact h ▸ precision_le_iff.1 le_rfl

/-! ## Doubles -/

theorem measures_compareUnits (d : Decimal) :
    Binary64.Measures d.compareUnits ((d.value : ℝ) * (2 * Binary64.unitsInOne)) := by
  intro t
  by_cases h : 0 ≤ d.exponent
  · obtain ⟨k, hk⟩ := Int.eq_ofNat_of_zero_le h
    have hvalue : (d.value : ℝ) = (d.significand * 10 ^ k : Nat) / (1 : Nat) := by
      rw [value, hk]
      push_cast
      rw [zpow_natCast, div_one]
    rw [compareUnits, if_pos h, hk, Int.toNat_natCast, Nat.pow_eq, Binary64.measures_compareQuotient _ Nat.one_pos t,
      hvalue, mul_div_right_comm]
  · obtain ⟨k, hk⟩ := Int.eq_ofNat_of_zero_le (show 0 ≤ -d.exponent by omega)
    have hvalue : (d.value : ℝ) = d.significand / (10 ^ k : Nat) := by
      rw [value, show d.exponent = -(k : ℤ) by omega]
      push_cast
      rw [zpow_neg, zpow_natCast, div_eq_mul_inv]
    rw [compareUnits, if_neg h, hk, Int.toNat_natCast, Nat.pow_eq,
      Binary64.measures_compareQuotient _ (Nat.pow_pos (by decide)) t, hvalue, mul_div_right_comm]

end Decimal

namespace SignedDecimal

def value (d : SignedDecimal) : ℚ := Binary64.signedValue d.negative d.magnitude.value

/-- Rounding to the nearest double, and to the one of even rank if two are equally near; a zero keeps its sign. -/
def RoundsTo (d : SignedDecimal) (x : Binary64) : Prop :=
  ∃ k : Fin Binary64.rankLimit, x = .finite d.negative k ∧ Binary64.RoundsTo d.magnitude.value k.val

/-- **A decimal becomes the double that its exact value is rounded to.** -/
theorem toBinary64?_eq_some_iff {d : SignedDecimal} {x : Binary64} : d.toBinary64? = some x ↔ d.RoundsTo x :=
  Binary64.nearest?_eq_some_iff d.magnitude.measures_compareUnits d.magnitude.value_nonneg

end SignedDecimal
end Exposition
