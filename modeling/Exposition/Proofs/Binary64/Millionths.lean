import Exposition.Proofs.Binary64.Closest
import Mathlib.Algebra.Ring.Parity
/-!
# Millionths — rounding to six decimal places

A double is rounded to whole millionths first and then back to a double.  Below `2 ^ 33` neighbouring doubles lie less than a
millionth apart, so a double that comes from whole millionths is nearest to just these (`millionths_of_roundsTo`); from there
on they lie more than a millionth apart, and rounding leaves every double as it is (`roundsTo_millionths`).  Either way what has
been rounded is not rounded any further (`roundToMillionths_idem`).
-/
namespace Exposition
namespace Binary64

/-! ## The nearest whole number -/

/-- No whole number is nearer to `q` than `k`, and if another one is as near, `k` is even. -/
structure IsNearestInteger (q : ℚ) (k : Int) : Prop where
  nearest : ∀ n : Int, |q - k| ≤ |q - n|
  even : ∀ n : Int, n ≠ k → |q - n| = |q - k| → Even k

section Integers

variable {p q : ℚ} {j k : Int}

/-- All other whole numbers are as far away as is left of one. -/
theorem isNearestInteger_of_abs_le (h : |q - k| ≤ 1 / 2) (heven : |q - k| = 1 / 2 → Even k) : IsNearestInteger q k := by
  have hfar : ∀ n : Int, n ≠ k → 1 ≤ |q - n| + |q - k| := by
    intro n hn
    have hone : (1 : ℚ) ≤ |((n - k : Int) : ℚ)| := by exact_mod_cast Int.one_le_abs (sub_ne_zero.2 hn)
    have hsub : ((n - k : Int) : ℚ) = (q - k) - (q - n) := by
      push_cast
      ring
    rw [hsub] at hone
    linarith [abs_sub (q - k) (q - n)]
  refine ⟨fun n => ?_, fun n hn heq => heven ?_⟩
  · rcases eq_or_ne n k with rfl | hn
    · exact le_rfl
    · linarith [hfar n hn]
  · linarith [hfar n hn]

theorem IsNearestInteger.bounds (h : IsNearestInteger q k) : (k : ℚ) - 1 / 2 ≤ q ∧ q ≤ k + 1 / 2 := by
  have hbefore := h.nearest (k - 1)
  have hbehind := h.nearest (k + 1)
  push_cast at hbefore hbehind
  rw [nearer_upper_iff (by linarith)] at hbefore
  rw [nearer_lower_iff (by linarith)] at hbehind
  constructor <;> linarith

/-- **Rounding to whole numbers keeps the order.**  Otherwise both would lie halfway between neighbours, which are not both
even. -/
theorem IsNearestInteger.mono (hp : IsNearestInteger p j) (hq : IsNearestInteger q k) (h : p ≤ q) : j ≤ k := by
  by_contra hlt
  have hcast : (k : ℚ) < j := Int.cast_lt.2 (not_le.1 hlt)
  have hlower := (nearer_upper_iff hcast).1 (hp.nearest k)
  have hupper := (nearer_lower_iff hcast).1 (hq.nearest j)
  have hpmid : p = (k + j) / 2 := le_antisymm (h.trans hupper) hlower
  have hqmid : q = (k + j) / 2 := le_antisymm hupper (hlower.trans h)
  have hj : Even j := hp.even k (not_le.1 hlt).ne ((equally_near_iff hcast).2 hpmid)
  have hk : Even k := hq.even j (not_le.1 hlt).ne' ((equally_near_iff hcast).2 hqmid).symm
  have hnext : (j : ℚ) ≤ (k + 1 : Int) := by
    push_cast
    linarith [hp.bounds.1]
  have hjk : j = k + 1 := le_antisymm (Int.cast_le.1 hnext) (not_le.1 hlt)
  rw [hjk, Int.even_add_one] at hj
  exact hj hk

theorem IsNearestInteger.unique (hp : IsNearestInteger q j) (hq : IsNearestInteger q k) : j = k :=
  le_antisymm (hp.mono hq le_rfl) (hq.mono hp le_rfl)

theorem IsNearestInteger.signed {n : Nat} (h : IsNearestInteger q n) (s : Bool) :
    IsNearestInteger (signedValue s q) (Binary64.signed s n) := by
  have hdistance : |signedValue s q - (Binary64.signed s n : Int)| = |q - n| := by
    rw [← signedValue_natCast, abs_signedValue_sub]
  have hparity : Even (Binary64.signed s n) ↔ Even (n : Int) := by
    cases s with
    | true => exact even_neg
    | false => exact Iff.rfl
  have hbounds := h.bounds
  push_cast at hbounds
  apply isNearestInteger_of_abs_le
  · rw [hdistance, abs_le]
    constructor <;> linarith
  · intro htie
    rw [hdistance] at htie
    rw [hparity]
    -- halfway between `n` and a neighbour of it
    rcases abs_cases (q - n) with ⟨habs, -⟩ | ⟨habs, -⟩
    · refine h.even (n + 1) (by omega) ?_
      push_cast
      rw [htie, abs_of_nonpos (by linarith)]
      linarith
    · refine h.even (n - 1) (by omega) ?_
      push_cast
      rw [htie, abs_of_nonneg (by linarith)]
      linarith

end Integers

/-- **The rounded quotient is the nearest whole number.** -/
theorem isNearestInteger_roundQuotient (num : Nat) {den : Nat} (hd : 0 < den) :
    IsNearestInteger (num / den) (roundQuotient num den) := by
  have hd' : (0 : ℚ) < den := Nat.cast_pos.2 hd
  have hsplit : (num : ℚ) / den = (num / den : Nat) + (num % den : Nat) / den := by
    rw [add_div' _ _ _ hd'.ne']
    congr 1
    exact_mod_cast (Nat.div_add_mod' num den).symm
  have hrest : (0 : ℚ) ≤ (num % den : Nat) / den := div_nonneg (Nat.cast_nonneg _) hd'.le
  have hless : ((num % den : Nat) : ℚ) / den < 1 := (div_lt_one hd').2 (Nat.cast_lt.2 (Nat.mod_lt num hd))
  rw [hsplit, roundQuotient]
  split
  · rename_i hlow
    have hhalf : ((num % den : Nat) : ℚ) / den < 1 / 2 := by
      rw [div_lt_div_iff₀ hd' two_pos]
      exact_mod_cast (by omega : num % den * 2 < 1 * den)
    apply isNearestInteger_of_abs_le
    · rw [Int.cast_natCast, add_sub_cancel_left, abs_of_nonneg hrest]
      exact hhalf.le
    · rw [Int.cast_natCast, add_sub_cancel_left, abs_of_nonneg hrest]
      exact fun h => absurd h hhalf.ne
  · split
    · rename_i hhigh
      have hhalf : 1 / 2 < ((num % den : Nat) : ℚ) / den := by
        rw [div_lt_div_iff₀ two_pos hd']
        exact_mod_cast (by omega : 1 * den < num % den * 2)
      have habs : |((num / den : Nat) : ℚ) + (num % den : Nat) / den - ((num / den + 1 : Nat) : Int)| =
          1 - (num % den : Nat) / den := by
        rw [Int.cast_natCast, Nat.cast_add_one, add_sub_add_left_eq_sub, abs_sub_comm, abs_of_nonneg (by linarith)]
      apply isNearestInteger_of_abs_le
      · rw [habs]
        linarith
      · rw [habs]
        exact fun h => by linarith
    · rename_i hlow hhigh
      have hhalf : ((num % den : Nat) : ℚ) / den = 1 / 2 := by
        rw [div_eq_div_iff hd'.ne' two_ne_zero]
        exact_mod_cast (by omega : num % den * 2 = 1 * den)
      apply isNearestInteger_of_abs_le
      · rw [hhalf, Int.cast_natCast, Nat.cast_add, add_sub_add_left_eq_sub]
        rcases Nat.mod_two_eq_zero_or_one (num / den) with h | h <;> rw [h] <;> norm_num
      · exact fun _ => (Int.even_coe_nat _).2 (Nat.even_iff.2 (by omega))

/-! ## Neighbours -/

theorem unitsOfRank_succ (r : Nat) : unitsOfRank (r + 1) = unitsOfRank r + 2 ^ (r / binade - 1) := by
  rcases Nat.lt_or_ge r binade with h | h
  · have hnext : unitsOfRank (r + 1) = r + 1 := by
      rcases Nat.lt_or_ge (r + 1) binade with h' | h'
      · exact unitsOfRank_of_lt h'
      · have hr : r + 1 = (0 + 1) * binade + 0 := by omega
        rw [hr, unitsOfRank_binade binade_pos]
        omega
    rw [hnext, unitsOfRank_of_lt h, Nat.div_eq_of_lt h, Nat.zero_sub, Nat.pow_zero]
  · obtain ⟨e, m, hm, rfl⟩ := exists_binade h
    have hdiv : ((e + 1) * binade + m) / binade = e + 1 := by
      rw [Nat.mul_comm, Nat.mul_add_div binade_pos, Nat.div_eq_of_lt hm, Nat.add_zero]
    rw [unitsOfRank_binade_succ hm, unitsOfRank_binade hm, hdiv, Nat.add_sub_cancel]
    ring

theorem magnitude_succ_sub (r : Nat) : magnitude (r + 1) - magnitude r = 2 ^ (r / binade - 1) / unitsInOne := by
  rw [magnitude, magnitude, unitsOfRank_succ, ← sub_div]
  push_cast
  rw [add_sub_cancel_left]

/-- The rank of `2 ^ 33`. -/
def fineLimit : Nat := 1056 * binade

theorem magnitude_fineLimit : magnitude fineLimit = 2 ^ 33 := by
  have h : unitsOfRank fineLimit = 2 ^ 33 * unitsInOne := by decide +kernel
  rw [magnitude, h, Nat.cast_mul, Nat.cast_pow, Nat.cast_ofNat, mul_div_cancel_right₀ _ unitsInOne_cast_pos.ne']

variable {r k : Nat}

/-- Below the limit the next double is less than a millionth away. -/
theorem magnitude_succ_sub_lt (hr : r < fineLimit) : magnitude (r + 1) - magnitude r < 1 / 10 ^ 6 := by
  have hexp : r / binade - 1 ≤ 1054 := by
    have hdiv : r / binade < 1056 := (Nat.div_lt_iff_lt_mul binade_pos).2 hr
    omega
  have hunits : 2 ^ (r / binade - 1) * 10 ^ 6 < unitsInOne := by
    have hlast : 2 ^ 1054 * 10 ^ 6 < unitsInOne := by decide +kernel
    have hpow : 2 ^ (r / binade - 1) ≤ 2 ^ 1054 := pow_le_pow_right₀ one_le_two hexp
    exact lt_of_le_of_lt (Nat.mul_le_mul_right (10 ^ 6) hpow) hlast
  rw [magnitude_succ_sub, div_lt_div_iff₀ unitsInOne_cast_pos (by positivity), one_mul]
  exact_mod_cast hunits

/-- From the limit on it is more than a millionth away. -/
theorem lt_magnitude_succ_sub (hr : fineLimit ≤ r) : 1 / 10 ^ 6 < magnitude (r + 1) - magnitude r := by
  have hexp : 1055 ≤ r / binade - 1 := by
    have hdiv : 1056 ≤ r / binade := (Nat.le_div_iff_mul_le binade_pos).2 hr
    omega
  have hunits : unitsInOne < 2 ^ (r / binade - 1) * 10 ^ 6 := by
    have hfirst : unitsInOne < 2 ^ 1055 * 10 ^ 6 := by decide +kernel
    have hpow : 2 ^ 1055 ≤ 2 ^ (r / binade - 1) := pow_le_pow_right₀ one_le_two hexp
    exact lt_of_lt_of_le hfirst (Nat.mul_le_mul_right (10 ^ 6) hpow)
  rw [magnitude_succ_sub, div_lt_div_iff₀ (by positivity) unitsInOne_cast_pos, one_mul]
  exact_mod_cast hunits

/-! ## Millionths -/

/-- The whole number of millionths that is nearest to a magnitude. -/
def millionths (r : Nat) : Nat := roundQuotient (unitsOfRank r * 1000000) unitsInOne

theorem millionths_div_nonneg (k : Nat) : (0 : ℚ) ≤ k / 10 ^ 6 := div_nonneg (Nat.cast_nonneg k) (by norm_num)

theorem isNearestInteger_millionths (r : Nat) : IsNearestInteger (magnitude r * 10 ^ 6) (millionths r) := by
  have h := isNearestInteger_roundQuotient (unitsOfRank r * 1000000) unitsInOne_pos
  have hvalue : ((unitsOfRank r * 1000000 : Nat) : ℚ) / unitsInOne = magnitude r * 10 ^ 6 := by
    rw [magnitude]
    push_cast
    ring
  rwa [hvalue] at h

theorem abs_millionths_sub_le (r : Nat) : |millionths r / 10 ^ 6 - magnitude r| ≤ 1 / 2 / 10 ^ 6 := by
  have h := (isNearestInteger_millionths r).bounds
  push_cast at h
  rw [abs_le]
  constructor <;> linarith

/-- **Rounding to millionths does not move a double at or beyond the limit**: it moves by half a millionth at most. -/
theorem roundsTo_millionths (hr : fineLimit ≤ r) : RoundsTo (millionths r / 10 ^ 6) r := by
  have hnear := abs_le.1 (abs_millionths_sub_le r)
  rcases hr.eq_or_lt with rfl | hlt
  · -- the doubles before the limit lie closer, but the limit is a whole number
    have hwhole : IsNearestInteger (magnitude fineLimit * 10 ^ 6) ((2 ^ 33 * 10 ^ 6 : Nat) : Int) := by
      apply isNearestInteger_of_abs_le <;> rw [magnitude_fineLimit] <;> norm_num
    have heq : millionths fineLimit = 2 ^ 33 * 10 ^ 6 :=
      Int.natCast_inj.1 ((isNearestInteger_millionths fineLimit).unique hwhole)
    have hvalue : (millionths fineLimit : ℚ) / 10 ^ 6 = magnitude fineLimit := by
      rw [heq, magnitude_fineLimit]
      norm_num
    rw [hvalue]
    exact roundsTo_magnitude fineLimit
  · have hbehind := lt_magnitude_succ_sub hr
    have hbefore := lt_magnitude_succ_sub (Nat.le_sub_one_of_lt hlt)
    rw [Nat.sub_add_cancel (by omega)] at hbefore
    have hlower : boundary r < millionths r / 10 ^ 6 := by
      rw [boundary]
      linarith
    have hupper : (millionths r : ℚ) / 10 ^ 6 < boundary (r + 1) := by
      rw [boundary_succ]
      linarith
    refine (roundsTo_iff (millionths_div_nonneg _)).2 ⟨hlower.le, hupper.le, ?_⟩
    rintro (h | h)
    · exact absurd h hlower.ne'
    · exact absurd h hupper.ne

/-- **A double below the limit that whole millionths are rounded to is nearest to just these.** -/
theorem millionths_of_roundsTo (h : RoundsTo (k / 10 ^ 6) r) (hr : r < fineLimit) : millionths r = k := by
  obtain ⟨hlower, hupper, -⟩ := (roundsTo_iff (millionths_div_nonneg _)).1 h
  have hbehind := magnitude_succ_sub_lt hr
  have hbefore : magnitude r - magnitude (r - 1) < 1 / 10 ^ 6 := by
    cases r with
    | zero => norm_num
    | succ r => exact magnitude_succ_sub_lt (Nat.lt_of_succ_lt hr)
  rw [boundary] at hlower
  rw [boundary_succ] at hupper
  have hnear : |magnitude r * 10 ^ 6 - (k : Int)| < 1 / 2 := by
    rw [Int.cast_natCast, abs_lt]
    constructor <;> linarith
  have hnearest := isNearestInteger_of_abs_le hnear.le fun htie => absurd htie hnear.ne
  exact Int.natCast_inj.1 ((isNearestInteger_millionths r).unique hnearest)

/-- Millionths that a double was rounded to are rounded to the same double again. -/
theorem RoundsTo.again (h : RoundsTo (k / 10 ^ 6) r) : RoundsTo (millionths r / 10 ^ 6) r := by
  rcases Nat.lt_or_ge r fineLimit with hr | hr
  · rwa [millionths_of_roundsTo h hr]
  · exact roundsTo_millionths hr

/-! ## Doubles -/

theorem nearest?_quotient_eq_none_iff {num den : Nat} (hd : 0 < den) {s : Bool} :
    nearest? s (compareQuotient num den) = none ↔ (integerLimit : ℚ) ≤ num / den := by
  have hv : (0 : ℝ) ≤ (num / den : ℚ) * (2 * unitsInOne) :=
    mul_nonneg (by exact_mod_cast quotient_nonneg num den) halfUnits_pos.le
  rw [nearest?_eq_none_iff (measures_quotient num hd) hv, lowerBoundary_eq, mul_le_mul_iff_of_pos_right halfUnits_pos,
    Rat.cast_le, boundary_rankLimit]

theorem million_cast : ((1000000 : Nat) : ℚ) = 10 ^ 6 := by norm_num

/-- What is rounded to millionths is never too large for a double. -/
theorem exists_roundsTo_millionths (r : Fin rankLimit) :
    ∃ r' : Fin rankLimit, RoundsTo (millionths r.val / 10 ^ 6) r'.val := by
  rcases Nat.lt_or_ge r.val fineLimit with hr | hr
  · have hsmall : (millionths r.val : ℚ) / (1000000 : Nat) < (2 ^ 33 + 1 : Nat) := by
      have hlimit : magnitude r.val < 2 ^ 33 := magnitude_fineLimit ▸ magnitude_strictMono hr
      have hnear := (abs_le.1 (abs_millionths_sub_le r.val)).2
      push_cast
      linarith
    have hlarge : ((2 ^ 33 + 1 : Nat) : ℚ) ≤ integerLimit := Nat.cast_le.2 (by decide +kernel)
    have hsome : nearest? false (compareQuotient (millionths r.val) 1000000) ≠ none := fun hnone =>
      absurd ((nearest?_quotient_eq_none_iff (by decide)).1 hnone) (not_le.2 (hsmall.trans_le hlarge))
    obtain ⟨x, hx⟩ := Option.ne_none_iff_exists'.1 hsome
    obtain ⟨r', -, hround⟩ := (nearest?_quotient_eq_some_iff (by decide)).1 hx
    exact ⟨r', million_cast ▸ hround⟩
  · exact ⟨r, roundsTo_millionths hr⟩

theorem nearest_millionths {s : Bool} {r : Fin rankLimit} (h : RoundsTo (k / 10 ^ 6) r.val) :
    nearest s (compareQuotient k 1000000) = finite s r :=
  nearest_of_nearest? ((nearest?_quotient_eq_some_iff (by decide)).2 ⟨r, rfl, million_cast ▸ h⟩)

theorem roundToMillionths_finite (s : Bool) (r : Fin rankLimit) :
    ∃ r' : Fin rankLimit, (finite s r).roundToMillionths = finite s r' ∧ RoundsTo (millionths r.val / 10 ^ 6) r'.val := by
  obtain ⟨r', h⟩ := exists_roundsTo_millionths r
  exact ⟨r', nearest_millionths h, h⟩

theorem signedValue_mul (s : Bool) (q c : ℚ) : signedValue s (q * c) = signedValue s q * c := by
  cases s with
  | true => exact (neg_mul q c).symm
  | false => rfl

theorem signedValue_div (s : Bool) (n : Nat) (c : ℚ) : signedValue s (n / c) = signed s n / c := by
  rw [div_eq_mul_inv, signedValue_mul, signedValue_natCast, ← div_eq_mul_inv]

theorem RoundsTo.eq_zero {r : Nat} (h : RoundsTo 0 r) : r = 0 := by
  have hzero := h.nearest 0
  rw [magnitude_zero, sub_zero, abs_zero, zero_sub, abs_neg, abs_nonpos_iff] at hzero
  exact magnitude_eq_zero hzero

theorem signed_eq_zero_iff {s : Bool} {n : Nat} : signed s n = 0 ↔ n = 0 := by
  cases s with
  | true => exact neg_eq_zero.trans Int.natCast_eq_zero
  | false => exact Int.natCast_eq_zero

/-- **A double is rounded to the nearest millionths, and these to the closest double of its sign.** -/
theorem exists_roundToMillionths (s : Bool) (r : Fin rankLimit) :
    ∃ (k : Int) (r' : Fin rankLimit), (finite s r).roundToMillionths = finite s r' ∧
      IsNearestInteger (signedValue s (magnitude r.val) * 10 ^ 6) k ∧
      (k = 0 → r'.val = 0) ∧ (k ≠ 0 → IsClosest (k / 10 ^ 6) s r') := by
  obtain ⟨r', hr', hround⟩ := roundToMillionths_finite s r
  have hnearest := (isNearestInteger_millionths r.val).signed s
  rw [signedValue_mul] at hnearest
  refine ⟨signed s (millionths r.val), r', hr', hnearest, fun hk => ?_, fun hk => ?_⟩
  · rw [signed_eq_zero_iff.1 hk, Nat.cast_zero, zero_div] at hround
    exact hround.eq_zero
  · have hpos : (0 : ℚ) < millionths r.val / 10 ^ 6 :=
      div_pos (Nat.cast_pos.2 (Nat.pos_of_ne_zero fun h => hk (signed_eq_zero_iff.2 h))) (by norm_num)
    have hsign : s = true ↔ signedValue s (millionths r.val / 10 ^ 6) < 0 := by
      cases s with
      | true => exact iff_of_true rfl (neg_lt_zero.2 hpos)
      | false => exact iff_of_false Bool.false_ne_true (not_lt.2 hpos.le)
    rw [← signedValue_div]
    exact hround.isClosest hpos.le hsign

/-- **Rounding once more changes nothing.** -/
theorem roundToMillionths_idem (x : Binary64) : x.roundToMillionths.roundToMillionths = x.roundToMillionths := by
  cases x with
  | nan => rfl
  | infinite s => rfl
  | finite s r =>
    obtain ⟨r', hr', hround⟩ := roundToMillionths_finite s r
    rw [hr']
    exact nearest_millionths hround.again

/-- Millionths keep the order of the doubles that they are nearest to. -/
theorem signed_millionths_le {s t : Bool} {q r : Nat}
    (h : signedValue s (magnitude q) ≤ signedValue t (magnitude r)) :
    signed s (millionths q) ≤ signed t (millionths r) := by
  refine ((isNearestInteger_millionths q).signed s).mono ((isNearestInteger_millionths r).signed t) ?_
  rw [signedValue_mul, signedValue_mul]
  exact mul_le_mul_of_nonneg_right h (by norm_num)

theorem roundToMillionths_position_mono {s t : Bool} {q r : Fin rankLimit}
    (h : signedValue s (magnitude q.val) ≤ signedValue t (magnitude r.val)) :
    (finite s q).roundToMillionths.position ≤ (finite t r).roundToMillionths.position := by
  have hmillion : 0 < 1000000 := by decide
  have hx := isNearest_quotient s (millionths q.val) hmillion
  have hy := isNearest_quotient t (millionths r.val) hmillion
  refine hx.position_mono hy (div_le_div_of_nonneg_right ?_ (Nat.cast_nonneg _))
  exact mul_le_mul_of_nonneg_right (Int.cast_le.2 (signed_millionths_le h)) halfUnits_pos.le

theorem roundToMillionths_ne_nan {x : Binary64} (h : x ≠ nan) : x.roundToMillionths ≠ nan := by
  cases x with
  | nan => exact h
  | infinite s => exact h
  | finite s r => exact nearest_ne_nan _ _

/-- **Rounding to millionths keeps the order**, infinities included. -/
theorem roundToMillionths_mono {x y : Binary64} (h : Number.le (.float x) (.float y) = true) :
    Number.le (.float x.roundToMillionths) (.float y.roundToMillionths) = true := by
  obtain ⟨hx, hy, hposition⟩ := Number.le_float_iff.1 h
  refine Number.le_float_iff.2 ⟨roundToMillionths_ne_nan hx, roundToMillionths_ne_nan hy, ?_⟩
  have hlower := (position_bounds y.roundToMillionths).1
  have hupper := (position_bounds x.roundToMillionths).2
  cases x with
  | nan => exact absurd rfl hx
  | infinite s =>
    cases s with
    | true => exact hlower
    | false =>
      cases y with
      | nan => exact absurd rfl hy
      | infinite t => exact hposition
      | finite t r => exact absurd hposition (not_le.2 (position_finite_lt t r).2)
  | finite s q =>
    cases y with
    | nan => exact absurd rfl hy
    | infinite t =>
      cases t with
      | true => exact absurd hposition (not_le.2 (position_finite_lt s q).1)
      | false => exact hupper
    | finite t r =>
      obtain ⟨_, _, hl, hr, hle⟩ := Number.le_iff.1 h
      cases hl
      cases hr
      exact roundToMillionths_position_mono (WithTop.coe_le_coe.1 (WithBot.coe_le_coe.1 hle))

end Binary64
end Exposition
