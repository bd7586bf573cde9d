import Exposition.Proofs.Binary64.Exact
/-!
# Closest — the double of a number with a sign

Ranks are rounded to without regard to signs.  Among all finite doubles, those of the other sign and the largest ones
included, the outcome is the closest one as well, and the even one of two that are as close (`RoundsTo.isClosest`); a whole
number that has a double has that one (`exists_closest`).
-/
namespace Exposition
namespace Binary64

/-- The finite double of sign `s` and rank `r` is the one that `q` is rounded to: it has the sign of `q`, no finite double
is closer, and if one of another value is as close, the rank is even. -/
structure IsClosest (q : ℚ) (s : Bool) (r : Fin rankLimit) : Prop where
  sign : s = true ↔ q < 0
  closest : ∀ t (k : Fin rankLimit), |q - signedValue s (magnitude r.val)| ≤ |q - signedValue t (magnitude k.val)|
  even : ∀ t (k : Fin rankLimit), signedValue t (magnitude k.val) ≠ signedValue s (magnitude r.val) →
    |q - signedValue t (magnitude k.val)| = |q - signedValue s (magnitude r.val)| → r.val % 2 = 0

variable {q m : ℚ} {r : Nat}

theorem magnitude_eq_zero (h : magnitude r = 0) : r = 0 := magnitude_strictMono.injective (h.trans magnitude_zero.symm)

theorem signedValue_zero (s : Bool) : signedValue s 0 = 0 := by
  cases s with
  | true => exact neg_zero
  | false => rfl

theorem abs_signedValue_sub_not (s : Bool) (hq : 0 ≤ q) (hm : 0 ≤ m) : |signedValue s q - signedValue (!s) m| = q + m := by
  cases s with
  | true =>
    show |-q - m| = q + m
    rw [← neg_add', abs_neg, abs_of_nonneg (add_nonneg hq hm)]
  | false =>
    show |q - -m| = q + m
    rw [sub_neg_eq_add, abs_of_nonneg (add_nonneg hq hm)]

/-- Nothing is rounded further away than zero is. -/
theorem RoundsTo.abs_sub_le (h : RoundsTo q r) (hq : 0 ≤ q) : |q - magnitude r| ≤ q := by
  have hzero := h.nearest 0
  rwa [magnitude_zero, sub_zero, abs_of_nonneg hq] at hzero

/-- **The rounded rank is that of the closest double**, zero being the only double that the other sign could offer. -/
theorem RoundsTo.isClosest {r : Fin rankLimit} (h : RoundsTo q r.val) (hq : 0 ≤ q) {s : Bool}
    (hs : s = true ↔ signedValue s q < 0) : IsClosest (signedValue s q) s r := by
  have hle := h.abs_sub_le hq
  refine ⟨hs, fun t k => ?_, fun t k hne heq => ?_⟩
  · rw [abs_signedValue_sub]
    by_cases ht : t = s
    · rw [ht, abs_signedValue_sub]
      exact h.nearest k.val
    · rw [Bool.eq_not.2 ht, abs_signedValue_sub_not s hq (magnitude_nonneg k.val)]
      linarith [magnitude_nonneg k.val]
  · rw [abs_signedValue_sub] at heq
    by_cases ht : t = s
    · rw [ht] at hne heq
      rw [abs_signedValue_sub] at heq
      exact h.even k.val (fun hk => hne (by rw [hk])) heq
    · rw [Bool.eq_not.2 ht] at hne heq
      rw [abs_signedValue_sub_not s hq (magnitude_nonneg k.val)] at heq
      have hk : magnitude k.val = 0 := le_antisymm (by linarith) (magnitude_nonneg k.val)
      rw [hk, signedValue_zero] at hne
      rw [hk, add_zero] at heq
      refine h.even 0 (fun hr => hne ?_) ?_
      · rw [← hr, magnitude_zero, signedValue_zero]
      · rw [magnitude_zero, sub_zero, abs_of_nonneg hq]
        exact heq

/-- **A whole number that is not too large has the closest double.** -/
theorem exists_closest {n : Int} (h : n.natAbs < integerLimit) :
    ∃ s r, ofInt? n = some (finite s r) ∧ IsClosest n s r := by
  obtain ⟨r, hr, hround⟩ := exists_ofInt? h
  have hvalue := signedValue_natAbs n
  have hsign : decide (n < 0) = true ↔ signedValue (n < 0) n.natAbs < 0 := by
    rw [hvalue, decide_eq_true_iff, Int.cast_lt_zero]
  exact ⟨n < 0, r, hr, hvalue ▸ hround.isClosest (Nat.cast_nonneg _) hsign⟩

end Binary64
end Exposition
