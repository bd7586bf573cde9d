import Exposition.Proofs.Binary64.Power
import Exposition.Proofs.Binary64.Roundings
/-!
# Exact — what is a magnitude already is not rounded

A number of at most 53 binary digits, scaled by a power of two, is the magnitude of a rank (`exists_rank`).  Whole numbers,
products and powers with such a value are found exactly (`ofInt?_exact`, `mul_exact`, `twoPow?_exact`), and what is rounded
never falls below a magnitude that it reached (`RoundsTo.magnitude_le`).
-/
namespace Exposition
namespace Binary64

/-! ## Short numbers -/

theorem exists_unitsOfRank_of_le {k m : Nat} (h : binade ≤ m) (hm : m < 2 * binade) : ∃ r, unitsOfRank r = m * 2 ^ k := by
  obtain ⟨d, rfl⟩ := Nat.exists_eq_add_of_le h
  exact ⟨(k + 1) * binade + d, unitsOfRank_binade (by omega)⟩

/-- A short number of units is doubled until it fills its binade. -/
theorem exists_unitsOfRank : ∀ (k m : Nat), m < 2 * binade → ∃ r, unitsOfRank r = m * 2 ^ k
  | 0, m, hm => by
    rcases Nat.lt_or_ge m binade with h | h
    · exact ⟨m, by rw [unitsOfRank_of_lt h, Nat.pow_zero, Nat.mul_one]⟩
    · exact exists_unitsOfRank_of_le h hm
  | k + 1, m, hm => by
    rcases Nat.lt_or_ge m binade with h | h
    · obtain ⟨r, hr⟩ := exists_unitsOfRank k (2 * m) (by omega)
      refine ⟨r, hr.trans ?_⟩
      rw [Nat.pow_succ']
      ring
    · exact exists_unitsOfRank_of_le h hm

theorem exists_magnitude {m : Nat} {e : Int} (hm : m < 2 * binade) (he : -1074 ≤ e) : ∃ r, magnitude r = m * 2 ^ e := by
  obtain ⟨k, hk⟩ := Int.eq_ofNat_of_zero_le (Int.sub_nonneg_of_le he)
  obtain ⟨r, hr⟩ := exists_unitsOfRank k m hm
  have hsplit : (2 : ℚ) ^ k = 2 ^ e * 2 ^ 1074 := by
    rw [← zpow_natCast, ← zpow_natCast, ← zpow_add₀ two_ne_zero, ← hk]
    norm_num
  refine ⟨r, ?_⟩
  rw [magnitude, hr, unitsInOne_eq, Nat.cast_mul, Nat.cast_pow, Nat.cast_pow, Nat.cast_ofNat, hsplit, ← mul_assoc,
    mul_div_cancel_right₀ _ (pow_ne_zero _ two_ne_zero)]

theorem magnitude_one : magnitude 1 = 2 ^ (-1074 : Int) := by
  rw [magnitude, unitsOfRank_of_lt (by decide), unitsInOne_eq, Nat.cast_one, Nat.cast_pow, Nat.cast_ofNat, one_div,
    zpow_neg]
  rfl

theorem magnitude_rankLimit : magnitude rankLimit = 2 ^ 1024 := by
  have h : unitsOfRank rankLimit = 2 ^ 1024 * unitsInOne := by decide +kernel
  rw [magnitude, h, Nat.cast_mul, Nat.cast_pow, Nat.cast_ofNat, mul_div_cancel_right₀ _ unitsInOne_cast_pos.ne']

/-- The greatest finite magnitude. -/
theorem magnitude_greatest : magnitude (rankLimit - 1) = 2 ^ 1024 - 2 ^ 971 := by
  have h : unitsOfRank (rankLimit - 1) + 2 ^ 971 * unitsInOne = 2 ^ 1024 * unitsInOne := by decide +kernel
  have hcast := congrArg (Nat.cast : Nat → ℚ) h
  rw [Nat.cast_add, Nat.cast_mul, Nat.cast_mul, Nat.cast_pow, Nat.cast_pow, Nat.cast_ofNat] at hcast
  rw [magnitude, div_eq_iff unitsInOne_cast_pos.ne', sub_mul]
  exact eq_sub_of_add_eq hcast

/-- **A number of at most 53 binary digits is the magnitude of a double** if it is no finer than a unit and not too
large. -/
theorem exists_rank {m : Nat} {e : Int} (hm : m < 2 * binade) (he : -1074 ≤ e) (hlt : (m : ℚ) * 2 ^ e < 2 ^ 1024) :
    ∃ r : Fin rankLimit, magnitude r.val = m * 2 ^ e := by
  obtain ⟨r, hr⟩ := exists_magnitude hm he
  rw [← hr, ← magnitude_rankLimit, magnitude_strictMono.lt_iff_lt] at hlt
  exact ⟨⟨r, hlt⟩, hr⟩

theorem exists_rank_natCast {n : Nat} (hn : n < 2 * binade) : ∃ r : Fin rankLimit, magnitude r.val = n := by
  have hlt : (n : ℚ) * 2 ^ (0 : Int) < 2 ^ 1024 := by
    have h : n < 2 ^ 1024 := hn.trans (by decide +kernel)
    rw [zpow_zero, mul_one]
    exact_mod_cast h
  obtain ⟨r, hr⟩ := exists_rank hn (by decide) hlt
  exact ⟨r, by rw [hr, zpow_zero, mul_one]⟩

theorem exists_rank_zpow {e : Int} (hl : -1074 ≤ e) (hu : e ≤ 1023) : ∃ r : Fin rankLimit, magnitude r.val = 2 ^ e := by
  have hlt : ((1 : Nat) : ℚ) * 2 ^ e < 2 ^ 1024 := by
    rw [Nat.cast_one, one_mul, ← zpow_natCast]
    exact zpow_lt_zpow_right₀ one_lt_two (Int.lt_add_one_of_le hu)
  obtain ⟨r, hr⟩ := exists_rank (by decide) hl hlt
  exact ⟨r, by rw [hr, Nat.cast_one, one_mul]⟩

/-! ## Roundings do not fall below a magnitude -/

variable {q : ℚ} {k r : Nat}

theorem RoundsTo.le_rank (h : RoundsTo q k) (hr : magnitude r ≤ q) : r ≤ k := by
  by_contra hlt
  have hk : magnitude k < magnitude r := magnitude_strictMono (not_le.1 hlt)
  have hnear := h.nearest r
  rw [abs_of_nonneg (by linarith), abs_of_nonneg (by linarith)] at hnear
  linarith

theorem RoundsTo.magnitude_le (h : RoundsTo q k) (hr : magnitude r ≤ q) : magnitude r ≤ magnitude k :=
  magnitude_strictMono.monotone (h.le_rank hr)

/-! ## Quotients -/

theorem measures_quotient (num : Nat) {den : Nat} (hd : 0 < den) :
    Measures (compareQuotient num den) (((num / den : ℚ) : ℝ) * (2 * unitsInOne)) := by
  have h := measures_compareQuotient num hd
  rw [mul_div_right_comm] at h
  push_cast
  exact h

theorem quotient_nonneg (num den : Nat) : (0 : ℚ) ≤ num / den := div_nonneg (Nat.cast_nonneg _) (Nat.cast_nonneg _)

theorem nearest?_quotient_eq_some_iff {num den : Nat} (hd : 0 < den) {s : Bool} {x : Binary64} :
    nearest? s (compareQuotient num den) = some x ↔ ∃ r : Fin rankLimit, x = finite s r ∧ RoundsTo (num / den) r.val :=
  nearest?_eq_some_iff (measures_quotient num hd) (quotient_nonneg num den)

/-- A quotient is rounded to a double or is infinite. -/
theorem nearest_quotient_cases (s : Bool) (num : Nat) {den : Nat} (hd : 0 < den) :
    (∃ r : Fin rankLimit, nearest s (compareQuotient num den) = finite s r ∧ RoundsTo (num / den) r.val) ∨
      nearest s (compareQuotient num den) = infinite s := by
  cases h : nearest? s (compareQuotient num den) with
  | none => exact .inr (by rw [nearest, h, Option.getD_none])
  | some x =>
    obtain ⟨r, rfl, hr⟩ := (nearest?_quotient_eq_some_iff hd).1 h
    exact .inl ⟨r, nearest_of_nearest? h, hr⟩

/-! ## Whole numbers -/

/-- **The double of a whole number is the one that it is rounded to.** -/
theorem ofInt?_eq_some_iff {n : Int} {x : Binary64} :
    ofInt? n = some x ↔ ∃ r : Fin rankLimit, x = finite (n < 0) r ∧ RoundsTo n.natAbs r.val := by
  rw [ofInt?, nearest?_quotient_eq_some_iff Nat.one_pos, Nat.cast_one, div_one]

theorem ofInt?_exact {n : Int} {r : Fin rankLimit} (h : magnitude r.val = n.natAbs) : ofInt? n = some (finite (n < 0) r) :=
  ofInt?_eq_some_iff.2 ⟨r, rfl, h ▸ roundsTo_magnitude r.val⟩

theorem exists_ofInt? {n : Int} (h : n.natAbs < integerLimit) :
    ∃ r : Fin rankLimit, ofInt? n = some (finite (n < 0) r) ∧ RoundsTo n.natAbs r.val := by
  obtain ⟨x, hx⟩ := Option.ne_none_iff_exists'.1 (fun hnone => not_le.2 h ((ofInt?_eq_none_iff n).1 hnone))
  obtain ⟨r, rfl, hr⟩ := ofInt?_eq_some_iff.1 hx
  exact ⟨r, hx, hr⟩

theorem signedValue_natCast (s : Bool) (n : Nat) : signedValue s n = signed s n := by
  cases s with
  | true => rw [signedValue, signed, if_pos rfl, if_pos rfl, Int.cast_neg, Int.cast_natCast]
  | false => rfl

theorem signedValue_natAbs (n : Int) : signedValue (n < 0) n.natAbs = n := by rw [signedValue_natCast, signed_natAbs]

theorem signedValue_natAbs_div (n : Int) (c : ℚ) : signedValue (n < 0) (n.natAbs / c) = n / c := by
  have hdiv : ∀ s : Bool, signedValue s (n.natAbs / c) = signedValue s n.natAbs / c := by
    rintro (_ | _)
    · rfl
    · exact (neg_div _ _).symm
  rw [hdiv, signedValue_natAbs]

theorem neg_signedValue (s : Bool) (q : ℚ) : -signedValue s q = signedValue (!s) q := by
  cases s with
  | true => exact neg_neg _
  | false => rfl

/-! ## Products -/

theorem unitsInOne_sq_pos : 0 < unitsInOne * unitsInOne := Nat.mul_pos unitsInOne_pos unitsInOne_pos

theorem units_mul_div (q r : Nat) :
    ((unitsOfRank q * unitsOfRank r : Nat) / (unitsInOne * unitsInOne : Nat) : ℚ) = magnitude q * magnitude r := by
  push_cast
  exact mul_div_mul_comm _ _ _ _

/-- **The product of two doubles is the rounded one, or infinite.** -/
theorem mul_cases (s t : Bool) (q r : Fin rankLimit) :
    (∃ k : Fin rankLimit, (finite s q).mul (finite t r) = finite (s != t) k ∧
        RoundsTo (magnitude q.val * magnitude r.val) k.val) ∨
      (finite s q).mul (finite t r) = infinite (s != t) := by
  rw [← units_mul_div]
  exact nearest_quotient_cases (s != t) _ unitsInOne_sq_pos

theorem mul_exact {s t : Bool} {q r k : Fin rankLimit} (h : magnitude k.val = magnitude q.val * magnitude r.val) :
    (finite s q).mul (finite t r) = finite (s != t) k := by
  have hround : RoundsTo ((unitsOfRank q.val * unitsOfRank r.val : Nat) / (unitsInOne * unitsInOne : Nat)) k.val := by
    rw [units_mul_div, ← h]
    exact roundsTo_magnitude k.val
  exact nearest_of_nearest? ((nearest?_quotient_eq_some_iff unitsInOne_sq_pos).2 ⟨k, rfl, hround⟩)

/-! ## Powers -/

theorem signed_div_unitsInOne (s : Bool) (r : Nat) :
    (signed s (unitsOfRank r) : ℝ) / unitsInOne = (signedValue s (magnitude r) : ℚ) := by
  cases s with
  | true =>
    rw [signed, signedValue, if_pos rfl, if_pos rfl, magnitude]
    push_cast
    exact neg_div _ _
  | false =>
    rw [signed, signedValue, if_neg (by decide), if_neg (by decide), magnitude]
    push_cast
    rfl

theorem powerHalfUnits_eq (s : Bool) (r : Nat) :
    powerHalfUnits (signed s (unitsOfRank r)) = (2 : ℝ) ^ ((signedValue s (magnitude r) : ℚ) : ℝ) * (2 * unitsInOne) := by
  have hone : (2 : ℝ) ^ (1075 : ℝ) = 2 * unitsInOne := by
    have hcast : ((1074 + 1 : Nat) : ℝ) = 1075 := by norm_num
    rw [unitsInOne_eq, Nat.cast_pow, Nat.cast_ofNat, ← pow_succ', ← Real.rpow_natCast, hcast]
  rw [powerHalfUnits, signed_div_unitsInOne, Real.rpow_add two_pos, hone]

variable {s : Bool} {x : Fin rankLimit}

theorem integerLimit_le : integerLimit ≤ 2 ^ 1024 := by decide +kernel

theorem two_rpow_limit : (2 : ℝ) ^ ((1024 : ℚ) : ℝ) = ((2 ^ 1024 : ℚ) : ℝ) := by
  have hcast : ((1024 : ℚ) : ℝ) = ((1024 : Nat) : ℝ) := by norm_num
  rw [hcast, Real.rpow_natCast, Rat.cast_pow, Rat.cast_ofNat]

/-- **A power is too large for a double where a whole number is.** -/
theorem twoPow?_eq_none_iff :
    (finite s x).twoPow? = none ↔ (integerLimit : ℝ) ≤ 2 ^ ((signedValue s (magnitude x.val) : ℚ) : ℝ) := by
  rw [twoPow?_finite, nearest?_eq_none_iff (measures_compareTwoPow _) (powerHalfUnits_pos _).le, powerHalfUnits_eq,
    lowerBoundary_rankLimit]
  push_cast
  exact mul_le_mul_iff_of_pos_right halfUnits_pos

theorem twoPow?_eq_none (h : 1024 ≤ magnitude x.val) : (finite false x).twoPow? = none := by
  have hlimit : (integerLimit : ℝ) ≤ 2 ^ ((1024 : ℚ) : ℝ) := by
    rw [two_rpow_limit]
    exact_mod_cast integerLimit_le
  refine twoPow?_eq_none_iff.2 (hlimit.trans (Real.rpow_le_rpow_of_exponent_le one_le_two ?_))
  rw [signedValue, if_neg (by decide)]
  exact Rat.cast_le.2 h

/-- The power of a whole exponent is exact. -/
theorem twoPow?_exact {e : Int} {r : Fin rankLimit} (hx : signedValue s (magnitude x.val) = e)
    (hr : magnitude r.val = 2 ^ e) : (finite s x).twoPow? = some (finite false r) := by
  have hmeasures := measures_compareTwoPow (signed s (unitsOfRank x.val))
  have hpow : (2 : ℝ) ^ ((signedValue s (magnitude x.val) : ℚ) : ℝ) = (magnitude r.val : ℚ) := by
    rw [hx, hr]
    push_cast
    exact Real.rpow_intCast 2 e
  rw [powerHalfUnits_eq, hpow] at hmeasures
  rw [twoPow?_finite]
  exact (nearest?_eq_some_iff hmeasures (magnitude_nonneg r.val)).2 ⟨r, rfl, roundsTo_magnitude r.val⟩

/-- A power of at most half a unit is rounded to zero, half a unit being no odd rank's. -/
theorem twoPow?_eq_zero (h : 1075 ≤ magnitude x.val) : (finite true x).twoPow? = some zero := by
  have hle : powerHalfUnits (signed true (unitsOfRank x.val)) ≤ 1 := by
    have hexp : (signed true (unitsOfRank x.val) : ℝ) / unitsInOne ≤ -1075 := by
      rw [signed_div_unitsInOne, signedValue, if_pos rfl]
      exact_mod_cast neg_le_neg h
    exact Real.rpow_le_one_of_one_le_of_nonpos one_le_two (by linarith)
  have hnot : ¬Reaches (powerHalfUnits (signed true (unitsOfRank x.val))) 1 := by
    have hone : lowerBoundary 1 = 1 := by decide +kernel
    rw [Reaches, hone, Nat.cast_one]
    rintro (hlt | ⟨-, hodd⟩)
    · exact absurd hlt (not_lt.2 hle)
    · cases hodd
  have hrank : nearestRank (compareTwoPow (signed true (unitsOfRank x.val))) = 0 := by
    have hiff := le_nearestRank_iff (measures_compareTwoPow (signed true (unitsOfRank x.val)))
      (powerHalfUnits_pos _).le (r := 1) (by decide)
    have hlt := mt hiff.1 hnot
    omega
  rw [twoPow?_finite, nearest?]
  simp only [hrank]
  rfl

end Binary64
end Exposition
