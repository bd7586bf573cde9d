import Exposition.Proofs.Binary64.Exact
import Exposition.Proofs.Histogram.Bounds
/-!
# Whole exponents — the bounds that are powers of two

A bound is two to the power of its *exponent*, the product of the index and the scale.  From −1023 to 1074 the scale of a
schema is exact, and so is the exponent if it can be (`exponent_exact`); what is rounded stays on its side of a short number
(`exponent_large`).  So where the true exponent is whole, the bound is that power of two, zero beneath the least unit, and
never a finite double from `2 ^ 1024` on (`upperBound_wholeExponent`).
-/
namespace Exposition
namespace Native

open Binary64

/-- The product of the index and the scale, as a double. -/
def exponent (schema index : Int) : Except Fault Binary64 := do
  let c ← scale schema
  let i ← toDouble index
  return i.mul c

theorem upperBound_eq_exponent (schema index : Int) : upperBound schema index = exponent schema index >>= twoPow := by
  rw [upperBound_eq_bind, exponent]
  simp only [bind_assoc, pure_bind]

theorem toDouble_of_ofInt? {n : Int} {x : Binary64} (h : ofInt? n = some x) : toDouble n = .ok x := orFault_eq_ok_iff.2 h

theorem twoPow_of_twoPow? {x y : Binary64} (h : x.twoPow? = some y) : twoPow x = .ok y := orFault_eq_ok_iff.2 h

theorem twoPow_of_none {x : Binary64} (h : x.twoPow? = none) : twoPow x = .error .powerTooLarge :=
  orFault_eq_error_iff.2 ⟨h, rfl⟩

variable {schema index e : Int} {x : Binary64}

theorem scale_of_ofInt? (h : ofInt? (-schema) = some x) : scale schema = twoPow x := by
  rw [scale, toDouble_of_ofInt? h]
  rfl

theorem upperBound_of_exponent (h : exponent schema index = .ok x) : upperBound schema index = twoPow x := by
  rw [upperBound_eq_exponent, h]
  rfl

/-! ## The scale -/

/-- **The scale of a schema from −1023 to 1074 is exact.** -/
theorem exists_scale (hl : -1023 ≤ schema) (hu : schema ≤ 1074) :
    ∃ c : Fin rankLimit, scale schema = .ok (finite false c) ∧ magnitude c.val = 2 ^ (-schema) := by
  have hshort : 2048 < binade := by decide
  obtain ⟨d, hd⟩ := exists_rank_natCast (n := (-schema).natAbs) (by omega)
  obtain ⟨c, hc⟩ := exists_rank_zpow (by omega : -1074 ≤ -schema) (by omega)
  refine ⟨c, ?_, hc⟩
  have hvalue : signedValue (-schema < 0) (magnitude d.val) = (-schema : Int) := by rw [hd, signedValue_natAbs]
  rw [scale_of_ofInt? (ofInt?_exact hd)]
  exact twoPow_of_twoPow? (twoPow?_exact hvalue hc)

/-- **There is no scale for a schema below −1023.** -/
theorem scale_fails (h : schema < -1023) : ∃ f, scale schema = .error f ∧ f.kind = "OverflowError" := by
  cases hd : ofInt? (-schema) with
  | none => exact ⟨.integerTooLarge, by rw [scale, toDouble, hd]; rfl, rfl⟩
  | some x =>
    rw [scale_of_ofInt? hd]
    obtain ⟨d, rfl, hround⟩ := ofInt?_eq_some_iff.1 hd
    obtain ⟨r, hr⟩ := exists_rank_natCast (n := 1024) (by decide)
    have hle : ((1024 : Nat) : ℚ) ≤ (-schema).natAbs := by exact_mod_cast (by omega : 1024 ≤ (-schema).natAbs)
    have hlarge := hround.magnitude_le (hr.trans_le hle)
    rw [hr] at hlarge
    have hsign : decide (-schema < 0) = false := decide_eq_false (by omega)
    rw [hsign]
    exact ⟨.powerTooLarge, twoPow_of_none (twoPow?_eq_none (by exact_mod_cast hlarge)), rfl⟩

theorem upperBound_fails (h : schema < -1023) : ∃ f, upperBound schema index = .error f ∧ f.kind = "OverflowError" := by
  obtain ⟨f, hf, hkind⟩ := scale_fails h
  exact ⟨f, by rw [upperBound_eq_bind, hf]; rfl, hkind⟩

/-! ## The exponent -/

/-- **An exponent is exact if it and the index are magnitudes.** -/
theorem exponent_exact (hl : -1023 ≤ schema) (hu : schema ≤ 1074) {i k : Fin rankLimit}
    (hi : magnitude i.val = index.natAbs) (hk : magnitude k.val = index.natAbs / 2 ^ schema) :
    exponent schema index = .ok (finite (index < 0) k) := by
  obtain ⟨c, hscale, hc⟩ := exists_scale hl hu
  have hmul : (finite (index < 0) i).mul (finite false c) = finite (index < 0) k := by
    rw [mul_exact (k := k) (by rw [hk, hi, hc, zpow_neg, div_eq_mul_inv]), Bool.bne_false]
  rw [exponent, hscale, toDouble_of_ofInt? (ofInt?_exact hi)]
  exact congrArg Except.ok hmul

/-- **An exponent does not fall below a short number that its true size reaches**, unless it is infinite. -/
theorem exponent_large (hl : -1023 ≤ schema) (hu : schema ≤ 1074) (hindex : index.natAbs < integerLimit) {n : Nat}
    (hn : n < 2 * binade) (hle : (n : ℚ) ≤ index.natAbs / 2 ^ schema) :
    (∃ k : Fin rankLimit, exponent schema index = .ok (finite (index < 0) k) ∧ (n : ℚ) ≤ magnitude k.val) ∨
      exponent schema index = .ok (infinite (index < 0)) := by
  obtain ⟨c, hscale, hc⟩ := exists_scale hl hu
  obtain ⟨i, hi, hround⟩ := exists_ofInt? hindex
  have hpos : (0 : ℚ) < 2 ^ schema := zpow_pos two_pos schema
  -- the size that the index has to reach is short, so its rounding does not fall below that
  have hsize : (n : ℚ) ≤ magnitude i.val * magnitude c.val := by
    obtain ⟨r, hr⟩ := exists_magnitude hn (by omega : -1074 ≤ schema)
    have hreach := hround.magnitude_le (r := r) (by rw [hr]; exact (le_div_iff₀ hpos).1 hle)
    rw [hr] at hreach
    rw [hc, zpow_neg, ← div_eq_mul_inv]
    exact (le_div_iff₀ hpos).2 hreach
  have hexponent : exponent schema index = .ok ((finite (index < 0) i).mul (finite false c)) := by
    rw [exponent, hscale, toDouble_of_ofInt? hi]
    rfl
  rw [hexponent]
  rcases mul_cases (index < 0) false i c with ⟨k, hk, hkround⟩ | hinf
  · obtain ⟨r, hr⟩ := exists_rank_natCast hn
    rw [hk, Bool.bne_false]
    exact .inl ⟨k, rfl, hr ▸ hkround.magnitude_le (hr.trans_le hsize)⟩
  · rw [hinf, Bool.bne_false]
    exact .inr rfl

/-! ## The bounds -/

/-- A whole exponent has the sign of the index. -/
theorem neg_iff_of_whole (he : (index : ℚ) / 2 ^ schema = e) : index < 0 ↔ e < 0 := by
  have hpos : (0 : ℚ) < 2 ^ schema := zpow_pos two_pos schema
  rw [← Int.cast_lt_zero (R := ℚ), ← Int.cast_lt_zero (R := ℚ), ← he, div_lt_iff₀ hpos, zero_mul]

theorem natAbs_of_whole (he : (index : ℚ) / 2 ^ schema = e) : (index.natAbs : ℚ) / 2 ^ schema = e.natAbs := by
  have hpos : (0 : ℚ) < 2 ^ schema := zpow_pos two_pos schema
  rw [Nat.cast_natAbs, Nat.cast_natAbs, Int.cast_abs, Int.cast_abs, ← he, abs_div, abs_of_pos hpos]

/-- The index is the exponent scaled, so it is as short however large it is. -/
theorem upperBound_exact (hl : -1023 ≤ schema) (hu : schema ≤ 1074) (hindex : index.natAbs < integerLimit)
    (he : (index : ℚ) / 2 ^ schema = e) (hle : -1074 ≤ e) (hue : e ≤ 1023) :
    ∃ r : Fin rankLimit, upperBound schema index = .ok (finite false r) ∧ magnitude r.val = 2 ^ e := by
  have hshort : 2048 < binade := by decide
  have hsize : (e.natAbs : ℚ) * 2 ^ schema = index.natAbs := by
    rw [← natAbs_of_whole he, div_mul_cancel₀ _ (zpow_pos two_pos schema).ne']
  have hlt : (e.natAbs : ℚ) * 2 ^ schema < 2 ^ 1024 := by
    rw [hsize]
    exact_mod_cast hindex.trans_le integerLimit_le
  obtain ⟨i, hi⟩ := exists_rank (by omega) (by omega) hlt
  obtain ⟨k, hk⟩ := exists_rank_natCast (n := e.natAbs) (by omega)
  obtain ⟨r, hr⟩ := exists_rank_zpow hle hue
  refine ⟨r, ?_, hr⟩
  have hexponent := exponent_exact hl hu (hi.trans hsize) (hk.trans (natAbs_of_whole he).symm)
  have hvalue : signedValue (index < 0) (magnitude k.val) = e := by
    rw [hk, ← natAbs_of_whole he, signedValue_natAbs_div, he]
  rw [upperBound_of_exponent hexponent]
  exact twoPow_of_twoPow? (twoPow?_exact hvalue hr)

theorem upperBound_zero (hl : -1023 ≤ schema) (hu : schema ≤ 1074) (hindex : index.natAbs < integerLimit)
    (he : (index : ℚ) / 2 ^ schema = e) (hle : e ≤ -1075) : upperBound schema index = .ok zero := by
  have hsize : ((1075 : Nat) : ℚ) ≤ index.natAbs / 2 ^ schema := by
    rw [natAbs_of_whole he]
    exact_mod_cast (by omega : 1075 ≤ e.natAbs)
  have hsign : decide (index < 0) = true := decide_eq_true ((neg_iff_of_whole he).2 (by omega))
  have hlarge := exponent_large hl hu hindex (by decide) hsize
  rw [hsign] at hlarge
  rcases hlarge with ⟨k, hk, hge⟩ | hinf
  · rw [upperBound_of_exponent hk]
    exact twoPow_of_twoPow? (twoPow?_eq_zero (by exact_mod_cast hge))
  · rw [upperBound_of_exponent hinf]
    rfl

theorem upperBound_beyond (hl : -1023 ≤ schema) (hu : schema ≤ 1074) (hindex : index.natAbs < integerLimit)
    (he : (index : ℚ) / 2 ^ schema = e) (hle : 1024 ≤ e) :
    (∃ k, exponent schema index = .ok (finite false k) ∧ upperBound schema index = .error .powerTooLarge) ∨
      (exponent schema index = .ok (infinite false) ∧ upperBound schema index = .ok (infinite false)) := by
  have hsize : ((1024 : Nat) : ℚ) ≤ index.natAbs / 2 ^ schema := by
    rw [natAbs_of_whole he]
    exact_mod_cast (by omega : 1024 ≤ e.natAbs)
  have hsign : decide (index < 0) = false := decide_eq_false (fun h => absurd ((neg_iff_of_whole he).1 h) (by omega))
  have hlarge := exponent_large hl hu hindex (by decide) hsize
  rw [hsign] at hlarge
  rcases hlarge with ⟨k, hk, hge⟩ | hinf
  · rw [upperBound_of_exponent hk]
    exact .inl ⟨k, hk, twoPow_of_none (twoPow?_eq_none (by exact_mod_cast hge))⟩
  · rw [upperBound_of_exponent hinf]
    exact .inr ⟨hinf, rfl⟩

/-- **Whole exponents.**  For a schema from −1023 to 1074 and an index that has a double, if the index over `2 ^ schema` is
the whole number `e`, the bound is exactly `2 ^ e` for `e` from −1074 to 1023 and zero below; from 1024 on it is infinite if
the product of index and scale is, and otherwise the power is too large.  For a lesser schema the scale is too large. -/
theorem upperBound_wholeExponent :
    (∀ schema index e : Int, -1023 ≤ schema → schema ≤ 1074 → index.natAbs < integerLimit →
      (index : ℚ) / 2 ^ schema = e →
        (-1074 ≤ e → e ≤ 1023 →
          ∃ x, upperBound schema index = .ok x ∧ x.value? = some (((2 ^ e : ℚ) : WithTop ℚ) : ExactValue)) ∧
        (e ≤ -1075 → upperBound schema index = .ok zero) ∧
        (1024 ≤ e →
          (∃ k, exponent schema index = .ok (finite false k) ∧ upperBound schema index = .error .powerTooLarge) ∨
            (exponent schema index = .ok (infinite false) ∧ upperBound schema index = .ok (infinite false)))) ∧
      ∀ schema index : Int, schema < -1023 → ∃ f, upperBound schema index = .error f ∧ f.kind = "OverflowError" := by
  refine ⟨fun schema index e hl hu hindex he => ⟨fun hle hue => ?_, ?_, ?_⟩, fun schema index h => upperBound_fails h⟩
  · obtain ⟨r, hbound, hr⟩ := upperBound_exact hl hu hindex he hle hue
    refine ⟨finite false r, hbound, ?_⟩
    rw [value?, signedValue, if_neg (by decide), hr]
  · exact upperBound_zero hl hu hindex he
  · exact upperBound_beyond hl hu hindex he

/-- An index far above `2 ^ 53` whose scale is below the least normal double, an exponent beneath the least unit, one that is
too large, and a schema without a scale. -/
theorem upperBound_wholeExponent_edges :
    (∃ x, upperBound 1023 (2 ^ 1023) = .ok x ∧ x.value? = some (((2 ^ (1 : Int) : ℚ) : WithTop ℚ) : ExactValue)) ∧
      upperBound (-10) (-2) = .ok zero ∧
      ((∃ k, exponent (-1) 512 = .ok (finite false k) ∧ upperBound (-1) 512 = .error .powerTooLarge) ∨
        (exponent (-1) 512 = .ok (infinite false) ∧ upperBound (-1) 512 = .ok (infinite false))) ∧
      ∃ f, upperBound (-1024) 0 = .error f ∧ f.kind = "OverflowError" := by
  obtain ⟨hwhole, hless⟩ := upperBound_wholeExponent
  have hone : ((2 ^ 1023 : Int) : ℚ) / 2 ^ (1023 : Int) = (1 : Int) := by
    have hcast : ((2 ^ 1023 : Int) : ℚ) = 2 ^ (1023 : Int) := by
      rw [Int.cast_pow, Int.cast_ofNat]
      exact (zpow_natCast 2 1023).symm
    rw [hcast, div_self (zpow_ne_zero _ two_ne_zero), Int.cast_one]
  refine ⟨?_, ?_, ?_, hless (-1024) 0 (by decide)⟩
  · exact (hwhole 1023 (2 ^ 1023) 1 (by decide) (by decide) (by decide +kernel) hone).1 (by decide) (by decide)
  · refine (hwhole (-10) (-2) (-2048) (by decide) (by decide) (by decide +kernel) ?_).2.1 (by decide)
    norm_num
  · refine (hwhole (-1) 512 1024 (by decide) (by decide) (by decide +kernel) ?_).2.2 (by decide)
    norm_num

end Native
end Exposition
