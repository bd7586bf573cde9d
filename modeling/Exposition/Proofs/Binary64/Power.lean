import Exposition.Binary64.Power
import Exposition.Proofs.Binary64.Quotients
import Mathlib.Analysis.SpecialFunctions.Pow.Real
/-!
# Powers of two — the comparison is exact

Whatever way the comparison takes, it tells how half units compare with the real power (`measures_compareTwoPow`).  So
`twoPow?` rounds the real power (`isNearest_twoPow?`), and a greater exponent never gives a lesser double (`twoPow?_mono`).
-/
namespace Exposition
namespace Binary64

/-! ## Enclosures -/

theorem scaledOne_pos : (0 : ℝ) < scaledOne := by
  exact_mod_cast (by decide +kernel : 0 < scaledOne)

/-- Two numbers over `scaledOne` with `c` between them. -/
structure Encloses (lo hi : Nat) (c : ℝ) : Prop where
  lower : (lo : ℝ) ≤ c * scaledOne
  upper : c * scaledOne ≤ hi

theorem div_le_roundedUp (a : Nat) {d : Nat} (hd : 0 < d) : (a : ℝ) / d ≤ ((a + (d - 1)) / d : Nat) := by
  have hd' : (0 : ℝ) < d := by exact_mod_cast hd
  have hmod := Nat.div_add_mod (a + (d - 1)) d
  have hlt := Nat.mod_lt (a + (d - 1)) hd
  have hle : a ≤ (a + (d - 1)) / d * d := by
    rw [Nat.mul_comm]
    omega
  rw [div_le_iff₀ hd']
  exact_mod_cast hle

theorem Encloses.ofQuotient (t : Nat) {scale : Nat} (hs : 0 < scale) :
    Encloses (t * scaledOne / scale) ((t * scaledOne + (scale - 1)) / scale) (t / scale) := by
  have hcast : (t : ℝ) / scale * scaledOne = ((t * scaledOne : Nat) : ℝ) / scale := by
    rw [Nat.cast_mul, div_mul_eq_mul_div]
  constructor
  · rw [hcast]
    exact Nat.cast_div_le
  · rw [hcast]
    exact div_le_roundedUp _ hs

theorem Encloses.square {lo hi : Nat} {c : ℝ} (h : Encloses lo hi c) (hc : 0 ≤ c) :
    Encloses (lo * lo / scaledOne) ((hi * hi + (scaledOne - 1)) / scaledOne) (c ^ 2) := by
  have hpos := scaledOne_pos
  have hnat : 0 < scaledOne := by exact_mod_cast hpos
  have hsq : c ^ 2 * scaledOne = c * scaledOne * (c * scaledOne) / scaledOne := by
    rw [eq_div_iff (ne_of_gt hpos)]
    ring
  have hcs : 0 ≤ c * scaledOne := mul_nonneg hc (le_of_lt hpos)
  constructor
  · calc ((lo * lo / scaledOne : Nat) : ℝ) ≤ ((lo * lo : Nat) : ℝ) / scaledOne := Nat.cast_div_le
      _ ≤ c * scaledOne * (c * scaledOne) / scaledOne := by
        rw [Nat.cast_mul]
        exact div_le_div_of_nonneg_right (mul_le_mul h.lower h.lower (Nat.cast_nonneg _) hcs) (le_of_lt hpos)
      _ = c ^ 2 * scaledOne := hsq.symm
  · calc c ^ 2 * scaledOne = c * scaledOne * (c * scaledOne) / scaledOne := hsq
      _ ≤ ((hi * hi : Nat) : ℝ) / scaledOne := by
        rw [Nat.cast_mul]
        exact div_le_div_of_nonneg_right (mul_le_mul h.upper h.upper hcs (Nat.cast_nonneg _)) (le_of_lt hpos)
      _ ≤ _ := div_le_roundedUp _ hnat

theorem Encloses.half {lo hi : Nat} {c : ℝ} (h : Encloses lo hi c) : Encloses (lo / 2) ((hi + 1) / 2) (c / 2) := by
  have hhalf : c / 2 * scaledOne = c * scaledOne / 2 := div_mul_eq_mul_div c 2 _
  constructor
  · rw [hhalf]
    exact le_trans Nat.cast_div_le (div_le_div_of_nonneg_right h.lower (by norm_num))
  · rw [hhalf]
    exact le_trans (div_le_div_of_nonneg_right h.upper (by norm_num)) (div_le_roundedUp hi Nat.two_pos)

theorem Encloses.lt_of_upper {lo hi n : Nat} {c : ℝ} (h : Encloses lo hi c) (hn : hi < n * scaledOne) : c < n :=
  lt_of_mul_lt_mul_right (lt_of_le_of_lt h.upper (by exact_mod_cast hn)) (le_of_lt scaledOne_pos)

theorem Encloses.le_of_upper {lo hi n : Nat} {c : ℝ} (h : Encloses lo hi c) (hn : hi ≤ n * scaledOne) : c ≤ n :=
  le_of_mul_le_mul_right (le_trans h.upper (by exact_mod_cast hn)) scaledOne_pos

theorem Encloses.lt_of_lower {lo hi n : Nat} {c : ℝ} (h : Encloses lo hi c) (hn : n * scaledOne < lo) : (n : ℝ) < c :=
  lt_of_mul_lt_mul_right (lt_of_lt_of_le (by exact_mod_cast hn) h.lower) (le_of_lt scaledOne_pos)

theorem Encloses.le_of_lower {lo hi n : Nat} {c : ℝ} (h : Encloses lo hi c) (hn : n * scaledOne ≤ lo) : (n : ℝ) ≤ c :=
  le_of_mul_le_mul_right (le_trans (by exact_mod_cast hn) h.lower) scaledOne_pos

/-! ## Fractions -/

/-- Two to the power of the fraction that the last `k` binary digits of `f` make. -/
noncomputable def fractionPower (f k : Nat) : ℝ := 2 ^ (((f % 2 ^ k : Nat) : ℝ) / ((2 ^ k : Nat) : ℝ))

theorem one_le_fractionPower (f k : Nat) : 1 ≤ fractionPower f k :=
  Real.one_le_rpow (by norm_num) (div_nonneg (Nat.cast_nonneg _) (Nat.cast_nonneg _))

theorem fractionPower_lt_two (f k : Nat) : fractionPower f k < 2 := by
  have hpos : (0 : ℝ) < ((2 ^ k : Nat) : ℝ) := by exact_mod_cast Nat.two_pow_pos k
  have hlt : ((f % 2 ^ k : Nat) : ℝ) < ((2 ^ k : Nat) : ℝ) := by exact_mod_cast Nat.mod_lt f (Nat.two_pow_pos k)
  calc fractionPower f k < 2 ^ (1 : ℝ) := Real.rpow_lt_rpow_of_exponent_lt (by norm_num) ((div_lt_one hpos).2 hlt)
    _ = 2 := Real.rpow_one 2

theorem fractionPower_zero (f : Nat) : fractionPower f 0 = 1 := by
  unfold fractionPower
  rw [Nat.pow_zero, Nat.mod_one, Nat.cast_zero, zero_div, Real.rpow_zero]

theorem fractionPower_sq (f k : Nat) :
    fractionPower f (k + 1) ^ 2 = (if f.testBit k then 2 else 1) * fractionPower f k := by
  have hpos : (0 : ℝ) < ((2 ^ k : Nat) : ℝ) := by exact_mod_cast Nat.two_pow_pos k
  have hdigit : ((f % 2 ^ (k + 1) : Nat) : ℝ) / ((2 ^ (k + 1) : Nat) : ℝ) * 2 =
      ((f.testBit k).toNat : ℝ) + ((f % 2 ^ k : Nat) : ℝ) / ((2 ^ k : Nat) : ℝ) := by
    rw [Nat.mod_pow_succ, ← Nat.toNat_testBit, Nat.pow_succ]
    push_cast at hpos ⊢
    field_simp
    ring
  unfold fractionPower
  rw [← Real.rpow_natCast, ← Real.rpow_mul (by norm_num), Nat.cast_ofNat, hdigit, Real.rpow_add (by norm_num)]
  cases f.testBit k with
  | true => rw [if_pos rfl, Bool.toNat_true, Nat.cast_one, Real.rpow_one]
  | false => rw [if_neg (by decide), Bool.toNat_false, Nat.cast_zero, Real.rpow_zero]

theorem fractionPower_of_lt {f k d : Nat} (hd : d = 2 ^ k) (hf : f < d) : fractionPower f k = 2 ^ ((f : ℝ) / d) := by
  subst hd
  unfold fractionPower
  rw [Nat.mod_eq_of_lt hf]

theorem cmp_sq {c d : ℝ} (hc : 0 ≤ c) (hd : 0 ≤ d) : cmp (c ^ 2) (d ^ 2) = cmp c d :=
  (pow_left_strictMonoOn₀ two_ne_zero).cmp_map_eq hc hd

/-- **Where the enclosures tell, they tell the truth.** -/
theorem compareFraction?_sound (f : Nat) : ∀ (k lo hi : Nat) {c : ℝ} {o : Ordering}, Encloses lo hi c → 1 ≤ c → c < 2 →
    compareFraction? f k lo hi = some o → o = cmp c (fractionPower f k)
  | 0, lo, hi, c, o, henc, hc, _, h => by
    rw [fractionPower_zero]
    unfold compareFraction? at h
    split at h
    · rename_i hlo
      cases h
      have hlt := henc.lt_of_lower (n := 1) (by rwa [Nat.one_mul])
      exact ((cmp_eq_gt_iff _ _).2 (by exact_mod_cast hlt)).symm
    · split at h
      · rename_i hhi
        cases h
        have hle := henc.le_of_upper (n := 1) (by rwa [Nat.one_mul])
        exact ((cmp_eq_eq_iff _ _).2 (le_antisymm (by exact_mod_cast hle) hc)).symm
      · cases h
  | k + 1, lo, hi, c, o, henc, hc, hc2, h => by
    have hc0 : 0 ≤ c := le_trans zero_le_one hc
    have hsq := henc.square hc0
    have hone : 1 ≤ c ^ 2 := one_le_pow₀ hc
    have hfour : c ^ 2 < 4 := by nlinarith
    have hnext := fractionPower_sq f k
    rw [← cmp_sq hc0 (le_trans zero_le_one (one_le_fractionPower f (k + 1)))]
    unfold compareFraction? at h
    simp only at h
    split at h
    · -- the square lies below two
      rename_i hhi
      have hlt : c ^ 2 < 2 := by exact_mod_cast hsq.lt_of_upper hhi
      split at h
      · rename_i hbit
        cases h
        rw [hnext, if_pos hbit]
        exact ((cmp_eq_lt_iff _ _).2 (by linarith [one_le_fractionPower f k])).symm
      · rename_i hbit
        rw [hnext, if_neg hbit, one_mul]
        exact compareFraction?_sound f k _ _ hsq hone hlt h
    · split at h
      · -- the square lies at two or above
        rename_i hlo
        have hge : 2 ≤ c ^ 2 := by exact_mod_cast hsq.le_of_lower hlo
        split at h
        · rename_i hbit
          have hrec := compareFraction?_sound f k _ _ hsq.half (by linarith) (by linarith) h
          rw [hnext, if_pos hbit, hrec, ← cmp_mul_pos_left (by norm_num : (0 : ℝ) < 2), mul_div_cancel₀ _ two_ne_zero]
        · rename_i hbit
          cases h
          rw [hnext, if_neg hbit, one_mul]
          exact ((cmp_eq_gt_iff _ _).2 (by linarith [fractionPower_lt_two f k])).symm
      · cases h

/-! ## The comparison -/

/-- A power of the base two is compared with a root of it. -/
theorem cmp_pow_two_pow (t m : Nat) {d : Nat} (hd : 0 < d) :
    cmp ((t : ℝ) ^ d) (2 ^ m) = cmp (t : ℝ) (2 ^ ((m : ℝ) / d)) := by
  have hd' : (d : ℝ) ≠ 0 := by exact_mod_cast Nat.ne_of_gt hd
  have hroot : ((2 : ℝ) ^ ((m : ℝ) / d)) ^ d = 2 ^ m := by
    rw [← Real.rpow_natCast, ← Real.rpow_mul (by norm_num), div_mul_cancel₀ _ hd', Real.rpow_natCast]
  have ht : (0 : ℝ) ≤ t := Nat.cast_nonneg t
  have hr : (0 : ℝ) ≤ 2 ^ ((m : ℝ) / d) := Real.rpow_nonneg (by norm_num) _
  rw [← hroot]
  exact (pow_left_strictMonoOn₀ (Nat.ne_of_gt hd)).cmp_map_eq ht hr

theorem compareExactly_eq (t p f : Nat) :
    compareExactly t p f = cmp (t : ℝ) (2 ^ ((p : ℝ) + (f : ℝ) / unitsInOne)) := by
  have hd : (unitsInOne : ℝ) ≠ 0 := by exact_mod_cast Nat.ne_of_gt unitsInOne_pos
  have hexp : (p : ℝ) + (f : ℝ) / unitsInOne = ((p * unitsInOne + f : Nat) : ℝ) / unitsInOne := by
    rw [Nat.cast_add, Nat.cast_mul, add_div, mul_div_cancel_right₀ _ hd]
  unfold compareExactly
  rw [Nat.pow_eq, Nat.pow_eq, cmp_natCast, Nat.cast_pow, Nat.cast_pow, Nat.cast_ofNat, cmp_pow_two_pow _ _ unitsInOne_pos,
    hexp]

theorem unitsInOne_eq : unitsInOne = 2 ^ 1074 := by decide +kernel

/-- Within one interval from a power of two to the next the enclosures decide, or else the exact powers. -/
theorem compareInterval_eq {t f k : Nat} (ht : t ≠ 0) (hf : f < unitsInOne) (hk : unitsInOne = 2 ^ k) :
    (compareFraction? f k (t * scaledOne / Nat.pow 2 t.log2)
        ((t * scaledOne + (Nat.pow 2 t.log2 - 1)) / Nat.pow 2 t.log2)).getD (compareExactly t t.log2 f) =
      cmp (t : ℝ) (2 ^ (((t.log2 : Int) : ℝ) + (f : ℝ) / unitsInOne)) := by
  rw [Int.cast_natCast]
  cases h : compareFraction? f k (t * scaledOne / Nat.pow 2 t.log2)
      ((t * scaledOne + (Nat.pow 2 t.log2 - 1)) / Nat.pow 2 t.log2) with
  | none =>
    rw [Option.getD_none]
    exact compareExactly_eq t t.log2 f
  | some o =>
    have hpos : (0 : ℝ) < ((2 ^ t.log2 : Nat) : ℝ) := by exact_mod_cast Nat.two_pow_pos t.log2
    have hone : 1 ≤ (t : ℝ) / ((2 ^ t.log2 : Nat) : ℝ) := by
      rw [one_le_div hpos]
      exact_mod_cast Nat.log2_self_le ht
    have htwo : (t : ℝ) / ((2 ^ t.log2 : Nat) : ℝ) < 2 := by
      have hlt : t < 2 * 2 ^ t.log2 := by
        rw [← Nat.pow_succ']
        exact Nat.lt_log2_self
      rw [div_lt_iff₀ hpos]
      exact_mod_cast hlt
    have hsound := compareFraction?_sound f k _ _ (Encloses.ofQuotient t (Nat.two_pow_pos t.log2)) hone htwo h
    have hpower : (2 : ℝ) ^ ((t.log2 : ℝ) + (f : ℝ) / unitsInOne) = fractionPower f k * ((2 ^ t.log2 : Nat) : ℝ) := by
      rw [Real.rpow_add (by norm_num), fractionPower_of_lt hk hf, Real.rpow_natCast, Nat.cast_pow, Nat.cast_ofNat, mul_comm]
    rw [Option.getD_some, hsound, hpower, ← cmp_mul_pos_right hpos, div_mul_cancel₀ _ (ne_of_gt hpos)]

/-- Two to the power of `x` units, in half units. -/
noncomputable def powerHalfUnits (x : Int) : ℝ := 2 ^ ((x : ℝ) / unitsInOne + 1075)

theorem exponent_eq (x : Int) :
    (x : ℝ) / unitsInOne + 1075 =
      ((x / (unitsInOne : Int) + 1075 : Int) : ℝ) + ((x % (unitsInOne : Int)).toNat : ℝ) / unitsInOne := by
  have hpos : (0 : Int) < unitsInOne := by exact_mod_cast unitsInOne_pos
  have hd : (unitsInOne : ℝ) ≠ 0 := by exact_mod_cast Nat.ne_of_gt unitsInOne_pos
  have hmod : ((x % (unitsInOne : Int)).toNat : Int) = x % (unitsInOne : Int) :=
    Int.toNat_of_nonneg (Int.emod_nonneg x (ne_of_gt hpos))
  have hsplit : (x : ℝ) = unitsInOne * ((x / (unitsInOne : Int) : Int) : ℝ) + ((x % (unitsInOne : Int)).toNat : ℝ) := by
    have h := Int.mul_ediv_add_emod x (unitsInOne : Int)
    rw [← hmod] at h
    exact_mod_cast h.symm
  push_cast
  rw [hsplit, add_div, mul_div_cancel_left₀ _ hd]
  ring

theorem powerHalfUnits_pos (x : Int) : 0 < powerHalfUnits x := Real.rpow_pos_of_pos (by norm_num) _

theorem powerHalfUnits_mono {x y : Int} (h : x ≤ y) : powerHalfUnits x ≤ powerHalfUnits y := by
  have hd : (0 : ℝ) < unitsInOne := by exact_mod_cast unitsInOne_pos
  have hxy : (x : ℝ) ≤ y := by exact_mod_cast h
  refine Real.rpow_le_rpow_of_exponent_le (by norm_num) ?_
  exact add_le_add (div_le_div_of_nonneg_right hxy (le_of_lt hd)) le_rfl

/-- **The comparison with a power of two is exact.** -/
theorem measures_compareTwoPow (x : Int) : Measures (compareTwoPow x) (powerHalfUnits x) := by
  intro t
  have hexp := exponent_eq x
  have hD : (0 : ℝ) < unitsInOne := by exact_mod_cast unitsInOne_pos
  have hDi : (0 : Int) < unitsInOne := by exact_mod_cast unitsInOne_pos
  have hf : (x % (unitsInOne : Int)).toNat < unitsInOne := by
    have h0 := Int.emod_nonneg x (ne_of_gt hDi)
    have h1 := Int.emod_lt_of_pos x hDi
    omega
  unfold compareTwoPow powerHalfUnits
  dsimp only
  generalize x / (unitsInOne : Int) + 1075 = e at hexp ⊢
  generalize (x % (unitsInOne : Int)).toNat = f at hexp hf ⊢
  rw [hexp]
  have hf0 : 0 ≤ (f : ℝ) / unitsInOne := div_nonneg (Nat.cast_nonneg f) (le_of_lt hD)
  have hf1 : (f : ℝ) / unitsInOne < 1 := (div_lt_one hD).2 (by exact_mod_cast hf)
  by_cases ht : t = 0
  · rw [if_pos ht, ht, Nat.cast_zero]
    exact ((cmp_eq_lt_iff _ _).2 (Real.rpow_pos_of_pos (by norm_num) _)).symm
  rw [if_neg ht]
  have hlog : ((2 ^ t.log2 : Nat) : ℝ) ≤ t := by exact_mod_cast Nat.log2_self_le ht
  have hlog' : (t : ℝ) < ((2 ^ (t.log2 + 1) : Nat) : ℝ) := by exact_mod_cast Nat.lt_log2_self
  by_cases hbelow : (t.log2 : Int) < e
  · -- the power lies in a later interval
    rw [if_pos hbelow]
    have hle : ((t.log2 + 1 : Nat) : ℝ) ≤ (e : ℝ) + f / unitsInOne := by
      have hle' : ((t.log2 + 1 : Nat) : ℝ) ≤ (e : ℝ) := by exact_mod_cast hbelow
      linarith
    refine ((cmp_eq_lt_iff _ _).2 (lt_of_lt_of_le hlog' ?_)).symm
    rw [Nat.cast_pow, Nat.cast_ofNat, ← Real.rpow_natCast]
    exact Real.rpow_le_rpow_of_exponent_le (by norm_num) hle
  rw [if_neg hbelow]
  by_cases habove : e < (t.log2 : Int)
  · -- the power lies in an earlier interval
    rw [if_pos habove]
    have hle : (e : ℝ) + f / unitsInOne < ((t.log2 : Nat) : ℝ) := by
      have hle' : (e : ℝ) + 1 ≤ ((t.log2 : Nat) : ℝ) := by exact_mod_cast habove
      linarith
    refine ((cmp_eq_gt_iff _ _).2 (lt_of_lt_of_le ?_ hlog)).symm
    rw [Nat.cast_pow, Nat.cast_ofNat, ← Real.rpow_natCast]
    exact Real.rpow_lt_rpow_of_exponent_lt (by norm_num) hle
  -- both lie in the same interval
  rw [if_neg habove]
  have he : e = (t.log2 : Int) := by omega
  subst he
  exact compareInterval_eq ht hf unitsInOne_eq

/-! ## Powers as doubles -/

theorem twoPow?_finite (s : Bool) (r : Fin rankLimit) :
    (finite s r).twoPow? = nearest? false (compareTwoPow (signed s (unitsOfRank r.val))) := by
  cases s with
  | true => rw [twoPow?, signed, if_pos rfl]
  | false => rw [twoPow?, signed, if_neg (by decide)]

theorem exists_finite_of_twoPow? {s : Bool} {r : Fin rankLimit} {y : Binary64} (h : (finite s r).twoPow? = some y) :
    ∃ q, y = finite false q := by
  rw [twoPow?_finite] at h
  exact exists_finite_of_nearest? h

/-- **The power of a finite exponent is the nearest double to the real power.** -/
theorem isNearest_twoPow? {s : Bool} {r : Fin rankLimit} {y : Binary64} (h : (finite s r).twoPow? = some y) :
    IsNearest (powerHalfUnits (signed s (unitsOfRank r.val))) y := by
  have hpos := powerHalfUnits_pos (signed s (unitsOfRank r.val))
  rw [twoPow?_finite] at h
  refine ⟨false, _, ?_, ?_, (nearest_of_nearest? h).symm⟩
  · rw [abs_of_pos hpos]
    exact measures_compareTwoPow _
  · rw [if_neg (by decide)]
    exact le_of_lt hpos

theorem twoPow?_ne_nan {x y : Binary64} (hx : x ≠ nan) (h : x.twoPow? = some y) : y ≠ nan := by
  cases x with
  | nan => exact absurd rfl hx
  | infinite s => cases s <;> cases h <;> exact fun h => by cases h
  | finite s r =>
    obtain ⟨q, rfl⟩ := exists_finite_of_twoPow? h
    intro h
    cases h

theorem twoPow?_nonneg {x y : Binary64} (h : x.twoPow? = some y) : 0 ≤ y.position := by
  cases x with
  | nan =>
    cases h
    exact le_refl _
  | infinite s =>
    cases s <;> cases h
    · exact Int.natCast_nonneg _
    · exact le_refl _
  | finite s r =>
    obtain ⟨q, rfl⟩ := exists_finite_of_twoPow? h
    exact Int.natCast_nonneg _

/-- **A greater exponent never gives a lesser power.** -/
theorem twoPow?_mono {x y a b : Binary64} (hx : x ≠ nan) (hy : y ≠ nan) (ha : x.twoPow? = some a)
    (hb : y.twoPow? = some b) (hxy : x.position ≤ y.position) : a.position ≤ b.position := by
  have hlimit : (0 : Int) < rankLimit := by decide
  cases y with
  | nan => exact absurd rfl hy
  | infinite t =>
    cases t with
    | false =>
      cases hb
      exact (position_bounds a).2
    | true =>
      -- nothing but itself lies so low
      cases x with
      | nan => exact absurd rfl hx
      | infinite s =>
        cases s with
        | false =>
          rw [position, position, signed, signed, if_neg (by decide), if_pos rfl] at hxy
          omega
        | true =>
          rw [ha] at hb
          cases hb
          exact le_refl _
      | finite s q => exact absurd hxy (not_le.2 (position_finite_lt s q).1)
  | finite t r =>
    cases x with
    | nan => exact absurd rfl hx
    | infinite s =>
      cases s with
      | false => exact absurd hxy (not_le.2 (position_finite_lt t r).2)
      | true =>
        cases ha
        exact twoPow?_nonneg hb
    | finite s q =>
      refine (isNearest_twoPow? ha).position_mono (isNearest_twoPow? hb) (powerHalfUnits_mono ?_)
      exact (signed_le_signed_iff unitsOfRank_strictMono units_zero).2 hxy

end Binary64
end Exposition
