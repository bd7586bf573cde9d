import Exposition.Text.Digits
import Mathlib.Algebra.Ring.Nat
/-!
# Digits — how many there are

A whole number has as many digits as powers of ten that it reaches (`length_ofNat_le_iff`), so the numbers that are written
are those below one power of ten.
-/
namespace Exposition
namespace Text

theorem length_ofNat_le_iff {n k : Nat} (hk : 0 < k) : (ofNat n).length ≤ k ↔ n < 10 ^ k := by
  induction k generalizing n with
  | zero => cases hk
  | succ k ih =>
    rw [ofNat]
    split
    · rename_i hn
      have hten : 10 ≤ 10 ^ (k + 1) := Nat.le_self_pow (Nat.succ_ne_zero k) 10
      exact iff_of_true (Nat.succ_le_succ (Nat.zero_le k)) (by omega)
    · rename_i hn
      rw [List.length_append, List.length_singleton, Nat.add_le_add_iff_right, Nat.pow_succ]
      cases k with
      | zero =>
        have hpos : 0 < (ofNat (n / 10)).length := List.length_pos_iff.2 (ofNat_ne_nil _)
        exact iff_of_false (by omega) (by omega)
      | succ k =>
        rw [ih (Nat.succ_pos k)]
        exact Nat.div_lt_iff_lt_mul (by decide)

theorem isWritable_iff {n : Nat} : isWritable n = true ↔ n < 10 ^ digitLimit := by
  rw [isWritable, decide_eq_true_iff]
  exact length_ofNat_le_iff (by decide)

theorem ofInt?_eq_some_iff {n : Int} {t : Text} : ofInt? n = some t ↔ n.natAbs < 10 ^ digitLimit ∧ ofInt n = t := by
  rw [ofInt?, Option.ite_none_right_eq_some, isWritable_iff, Option.some.injEq]

theorem ofInt?_eq_none_iff {n : Int} : ofInt? n = none ↔ 10 ^ digitLimit ≤ n.natAbs := by
  rw [ofInt?, ite_eq_right_iff, isWritable_iff, ← Nat.not_lt]
  simp

theorem ofMilliseconds?_eq_some_iff {n : Int} {t : Text} :
    ofMilliseconds? n = some t ↔ n.natAbs / 1000 < 10 ^ digitLimit ∧ ofMilliseconds n = t := by
  rw [ofMilliseconds?, Option.ite_none_right_eq_some, isWritable_iff, Option.some.injEq]

theorem ofMilliseconds?_eq_none_iff {n : Int} :
    ofMilliseconds? n = none ↔ 10 ^ digitLimit ≤ n.natAbs / 1000 := by
  rw [ofMilliseconds?, ite_eq_right_iff, isWritable_iff, ← Nat.not_lt]
  simp

end Text
end Exposition
