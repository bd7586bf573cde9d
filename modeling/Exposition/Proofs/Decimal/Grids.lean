import Exposition.Decimal.Shortest
import Exposition.Proofs.Decimal.Values
/-!
# Grids — what the search for the shortest decimal finds

The decimals with one exponent are a grid.  On each grid the search looks at the two neighbours of the exact value only,
for where one further off is rounded to the rank, the neighbour on its side is as well (`nearestNeighbour?_eq_none`).  What
the search ends with is rounded to the rank, is the nearest such decimal on its own grid, and there is none on any coarser
one (`shortest_isShortest`).
-/
namespace Exposition
namespace Decimal

/-! ## One grid -/

/-- A multiple of the step between the ends, which count if `ends` is set. -/
def Hits (ends : Bool) (step low high d : Nat) : Prop :=
  (low < d * step ∨ (ends = true ∧ d * step = low)) ∧ (d * step < high ∨ (ends = true ∧ d * step = high))

section Grid

variable {ends : Bool} {step low value high d : Nat}

/-- Where a multiple hits that is not above the value, the greatest one that is not does. -/
theorem Hits.below (hd : Hits ends step low high d) (hhigh : value < high) (hle : d ≤ value / step) :
    Hits ends step low high (value / step) := by
  have hq : value / step * step ≤ value := Nat.div_mul_le_self value step
  have hdq : d * step ≤ value / step * step := Nat.mul_le_mul_right step hle
  refine ⟨?_, .inl (hq.trans_lt hhigh)⟩
  rcases hd.1 with h | ⟨he, h⟩
  · exact .inl (h.trans_le hdq)
  · rcases hdq.lt_or_eq with hlt | heq
    · exact .inl (h ▸ hlt)
    · exact .inr ⟨he, heq.symm.trans h⟩

/-- Where a multiple hits that is above the value, the least one that is does. -/
theorem Hits.above (hd : Hits ends step low high d) (hstep : 0 < step) (hlow : low < value) (hlt : value / step < d) :
    Hits ends step low high (value / step + 1) := by
  have hq : value < (value / step + 1) * step := by
    rw [Nat.mul_comm]
    exact Nat.lt_mul_div_succ value hstep
  have hqd : (value / step + 1) * step ≤ d * step := Nat.mul_le_mul_right step hlt
  refine ⟨.inl (hlow.trans hq), ?_⟩
  rcases hd.2 with h | ⟨he, h⟩
  · exact .inl (hqd.trans_lt h)
  · rcases hqd.lt_or_eq with hlt | heq
    · exact .inl (h ▸ hlt)
    · exact .inr ⟨he, heq.trans h⟩

/-- How far a multiple is from the value at least. -/
theorem distance_le (step value d : Nat) :
    (d ≤ value / step → ((value % step : Nat) : Int) ≤ |((d * step : Nat) : Int) - value|) ∧
      (value / step < d → ((step : Int) - (value % step : Nat)) ≤ |((d * step : Nat) : Int) - value|) := by
  have hvalue := Nat.div_add_mod' value step
  constructor
  · intro hle
    have hmul : d * step ≤ value / step * step := Nat.mul_le_mul_right step hle
    have habs := neg_le_abs (((d * step : Nat) : Int) - value)
    omega
  · intro hlt
    have hmul : (value / step + 1) * step ≤ d * step := Nat.mul_le_mul_right step hlt
    have habs := le_abs_self (((d * step : Nat) : Int) - value)
    rw [Nat.add_mul, Nat.one_mul] at hmul
    omega

theorem distance_div (step value : Nat) : |((value / step * step : Nat) : Int) - value| = (value % step : Nat) := by
  have hvalue := Nat.div_add_mod' value step
  rw [abs_of_nonpos (by omega)]
  omega

theorem distance_div_succ (hstep : 0 < step) (value : Nat) :
    |(((value / step + 1) * step : Nat) : Int) - value| = step - (value % step : Nat) := by
  have hvalue := Nat.div_add_mod' value step
  have hmod := Nat.mod_lt value hstep
  rw [Nat.add_mul, Nat.one_mul, abs_of_nonneg (by omega)]
  omega

variable (hstep : 0 < step) (hlow : low < value) (hhigh : value < high)
include hstep hlow hhigh

/-- The search looks at the neighbours of the value, and whether they hit. -/
theorem nearestNeighbour?_cases (ends : Bool) :
    (¬Hits ends step low high (value / step) ∧ ¬Hits ends step low high (value / step + 1) ∧
      nearestNeighbour? ends step low value high = none) ∨
    (Hits ends step low high (value / step) ∧ ¬Hits ends step low high (value / step + 1) ∧
      nearestNeighbour? ends step low value high = some (value / step)) ∨
    (¬Hits ends step low high (value / step) ∧ Hits ends step low high (value / step + 1) ∧
      nearestNeighbour? ends step low value high = some (value / step + 1)) ∨
    (Hits ends step low high (value / step) ∧ Hits ends step low high (value / step + 1) ∧
      ∃ d, nearestNeighbour? ends step low value high = some d ∧
        (d = value / step ∧ 2 * (value % step) ≤ step ∨ d = value / step + 1 ∧ step ≤ 2 * (value % step))) := by
  have hq : value / step * step < high := (Nat.div_mul_le_self value step).trans_lt hhigh
  have hq' : low < (value / step + 1) * step := by
    rw [Nat.mul_comm]
    exact hlow.trans (Nat.lt_mul_div_succ value hstep)
  have hbelow : Hits ends step low high (value / step) ↔
      (decide (low < value / step * step) || (ends && value / step * step == low)) = true := by
    simp [Hits, hq]
  have habove : Hits ends step low high (value / step + 1) ↔
      (decide ((value / step + 1) * step < high) || (ends && (value / step + 1) * step == high)) = true := by
    simp [Hits, hq']
  rw [hbelow, habove]
  unfold nearestNeighbour?
  simp only
  split
  · rename_i hb ha
    refine .inr (.inr (.inr ⟨hb, ha, _, rfl, ?_⟩))
    split
    · exact .inl ⟨rfl, by omega⟩
    · split
      · exact .inr ⟨rfl, by omega⟩
      · rcases Nat.mod_two_eq_zero_or_one (value / step) with h | h
        · exact .inl ⟨by omega, by omega⟩
        · exact .inr ⟨by omega, by omega⟩
  · rename_i hb ha
    exact .inr (.inl ⟨hb, by simp [ha], rfl⟩)
  · rename_i hb ha
    exact .inr (.inr (.inl ⟨by simp [hb], ha, rfl⟩))
  · rename_i hb ha
    exact .inl ⟨by simp [hb], by simp [ha], rfl⟩

theorem nearestNeighbour?_eq_none (h : nearestNeighbour? ends step low value high = none) (d : Nat) :
    ¬Hits ends step low high d := by
  intro hd
  obtain ⟨hno, hno', -⟩ | ⟨-, -, hsome⟩ | ⟨-, -, hsome⟩ | ⟨-, -, e, hsome, -⟩ :=
    nearestNeighbour?_cases hstep hlow hhigh ends
  · rcases Nat.lt_or_ge (value / step) d with hlt | hle
    · exact hno' (hd.above hstep hlow hlt)
    · exact hno (hd.below hhigh hle)
  all_goals
    rw [h] at hsome
    cases hsome

/-- **Of the multiples that hit, none is nearer to the value than the one that is found.** -/
theorem nearestNeighbour?_eq_some (h : nearestNeighbour? ends step low value high = some d) :
    Hits ends step low high d ∧ ∀ d', Hits ends step low high d' →
      |((d * step : Nat) : Int) - value| ≤ |((d' * step : Nat) : Int) - value| := by
  have hbelow := distance_div step value
  have habove := distance_div_succ hstep value
  obtain ⟨-, -, hnone⟩ | ⟨hq, hno, hsome⟩ | ⟨hno, hq, hsome⟩ | ⟨hq, hq', e, hsome, he⟩ :=
    nearestNeighbour?_cases hstep hlow hhigh ends
  · rw [h] at hnone
    cases hnone
  · cases h.symm.trans hsome
    refine ⟨hq, fun d' hd' => ?_⟩
    have hle : d' ≤ value / step := Nat.le_of_not_lt fun hlt => hno (hd'.above hstep hlow hlt)
    exact hbelow.trans_le ((distance_le step value d').1 hle)
  · cases h.symm.trans hsome
    refine ⟨hq, fun d' hd' => ?_⟩
    have hlt : value / step < d' := Nat.lt_of_not_le fun hle => hno (hd'.below hhigh hle)
    exact habove.trans_le ((distance_le step value d').2 hlt)
  · cases h.symm.trans hsome
    have hmin : |((d * step : Nat) : Int) - value| ≤ (value % step : Nat) ∧
        |((d * step : Nat) : Int) - value| ≤ (step : Int) - (value % step : Nat) := by
      rcases he with ⟨rfl, hrest⟩ | ⟨rfl, hrest⟩
      · omega
      · omega
    refine ⟨?_, fun d' _ => ?_⟩
    · rcases he with ⟨rfl, -⟩ | ⟨rfl, -⟩
      · exact hq
      · exact hq'
    · rcases Nat.lt_or_ge (value / step) d' with hlt | hle
      · exact hmin.2.trans ((distance_le step value d').2 hlt)
      · exact hmin.1.trans ((distance_le step value d').1 hle)

end Grid

/-! ## All grids -/

open Binary64 (RoundsTo magnitude boundary lowerBoundary unitsOfRank unitsInOne)

/-- How a grid that is `j` below the coarsest one is scaled to whole numbers. -/
def scale (j : Nat) : ℚ := (10 ^ j : Nat) * (2 * unitsInOne)

theorem scale_pos (j : Nat) : 0 < scale j :=
  mul_pos (Nat.cast_pos.2 (Nat.pow_pos (by decide))) (mul_pos two_pos Binary64.unitsInOne_cast_pos)

theorem cast_coarsestStep : (coarsestStep : ℚ) = (10 ^ coarsest : Nat) * (2 * unitsInOne) := by
  rw [coarsestStep, Nat.pow_eq]
  push_cast
  rfl

/-- A multiple of the step on a scaled grid is a decimal there. -/
theorem cast_mul_coarsestStep (d j : Nat) :
    ((d * coarsestStep : Nat) : ℚ) = d * 10 ^ ((coarsest : ℤ) - j) * scale j := by
  have hpow : (10 : ℚ) ^ ((coarsest : ℤ) - j) * (10 ^ j : Nat) = (10 ^ coarsest : Nat) := by
    rw [zpow_sub₀ (by norm_num), zpow_natCast, zpow_natCast]
    push_cast
    exact div_mul_cancel₀ _ (by positivity)
  rw [Nat.cast_mul, cast_coarsestStep, scale, ← hpow]
  ring

theorem cast_lowerBoundary (r j : Nat) : ((10 ^ j * lowerBoundary r : Nat) : ℚ) = boundary r * scale j := by
  rw [Nat.cast_mul, ← Binary64.boundary_mul, scale]
  ring

theorem cast_units (r j : Nat) : ((10 ^ j * (2 * unitsOfRank r) : Nat) : ℚ) = magnitude r * scale j := by
  have hne : (unitsInOne : ℚ) ≠ 0 := Binary64.unitsInOne_cast_pos.ne'
  rw [magnitude, scale]
  push_cast
  field_simp

theorem cast_distance (r j d : Nat) :
    (|((d * coarsestStep : Nat) : Int) - (10 ^ j * (2 * unitsOfRank r) : Nat)| : ℤ) =
      |d * 10 ^ ((coarsest : ℤ) - j) - magnitude r| * scale j := by
  rw [Int.cast_abs, Int.cast_sub, Int.cast_natCast, Int.cast_natCast, cast_mul_coarsestStep, cast_units, ← sub_mul, abs_mul,
    abs_of_pos (scale_pos j)]

/-- Between two ends, which count if `P` holds. -/
theorem between_ends_iff {a b q : ℚ} {P : Prop} :
    (a < q ∨ (P ∧ q = a)) ∧ (q < b ∨ (P ∧ q = b)) ↔ a ≤ q ∧ q ≤ b ∧ (q = a ∨ q = b → P) := by
  constructor
  · rintro ⟨ha, hb⟩
    refine ⟨?_, ?_, ?_⟩
    · rcases ha with h | ⟨-, h⟩
      · exact h.le
      · exact h.ge
    · rcases hb with h | ⟨-, h⟩
      · exact h.le
      · exact h.le
    · rintro (h | h)
      · exact (ha.resolve_left h.not_gt).1
      · exact (hb.resolve_left h.not_lt).1
  · rintro ⟨ha, hb, hP⟩
    refine ⟨?_, ?_⟩
    · rcases ha.lt_or_eq with h | h
      · exact .inl h
      · exact .inr ⟨hP (.inl h.symm), h.symm⟩
    · rcases hb.lt_or_eq with h | h
      · exact .inl h
      · exact .inr ⟨hP (.inr h), h⟩

/-- The multiples that hit on a scaled grid are the decimals there that are rounded to the rank. -/
theorem hits_iff_roundsTo (r j d : Nat) :
    Hits (r % 2 == 0) coarsestStep (10 ^ j * lowerBoundary r) (10 ^ j * lowerBoundary (r + 1)) d ↔
      RoundsTo (d * 10 ^ ((coarsest : ℤ) - j)) r := by
  have hq : (0 : ℚ) ≤ d * 10 ^ ((coarsest : ℤ) - j) := mul_nonneg (Nat.cast_nonneg d) (ten_zpow_pos _).le
  have hs := scale_pos j
  rw [Binary64.roundsTo_iff hq, Hits, ← Nat.cast_lt (α := ℚ), ← Nat.cast_lt (α := ℚ), ← Nat.cast_inj (R := ℚ),
    ← Nat.cast_inj (R := ℚ), cast_mul_coarsestStep, cast_lowerBoundary, cast_lowerBoundary, mul_lt_mul_iff_of_pos_right hs,
    mul_lt_mul_iff_of_pos_right hs, mul_left_inj' hs.ne', mul_left_inj' hs.ne', beq_iff_eq]
  exact between_ends_iff

/-- A decimal is rounded to rank `r`, and is the nearest such one on its own grid. -/
structure IsNearestOnGrid (d : Decimal) (r : Nat) : Prop where
  rounds : RoundsTo d.value r
  closest : ∀ n : Nat, RoundsTo (n * 10 ^ d.exponent) r →
    |d.value - magnitude r| ≤ |n * 10 ^ d.exponent - magnitude r|

/-- Besides, no decimal on a coarser grid is rounded to the rank. -/
structure IsShortest (d : Decimal) (r : Nat) : Prop extends IsNearestOnGrid d r where
  coarsest : ∀ (i : ℤ) (n : Nat), d.exponent < i → ¬RoundsTo (n * 10 ^ i) r

/-- Besides, no decimal on a coarser grid up to grid `k` is rounded to the rank. -/
structure IsShortestFrom (k : Nat) (d : Decimal) (r : Nat) : Prop extends IsNearestOnGrid d r where
  coarsest : ∀ (i : ℤ) (n : Nat), d.exponent < i → i ≤ k - finest → ¬RoundsTo (n * 10 ^ i) r

theorem unitsInOne_eq : unitsInOne = 2 ^ finest := by decide +kernel

/-- The exact value lies on the finest grid. -/
theorem value_finest (r : Nat) :
    (Decimal.mk (10 ^ (coarsest + finest) * (2 * unitsOfRank r) / coarsestStep) (-(finest : ℤ))).value = magnitude r := by
  have hstep : 0 < coarsestStep := by decide +kernel
  have hten : 10 ^ (coarsest + finest) = 10 ^ coarsest * (unitsInOne * 5 ^ finest) := by
    rw [Nat.pow_add, unitsInOne_eq, ← Nat.mul_pow]
  have hexact : 10 ^ (coarsest + finest) * (2 * unitsOfRank r) = 5 ^ finest * unitsOfRank r * coarsestStep := by
    rw [hten, coarsestStep, Nat.pow_eq]
    ring
  have hunits : (unitsInOne : ℚ) = 2 ^ finest := by
    rw [unitsInOne_eq]
    push_cast
    rfl
  rw [hexact, Nat.mul_div_cancel _ hstep, value, magnitude, hunits, zpow_neg, zpow_natCast]
  push_cast
  rw [show (10 : ℚ) = 5 * 2 by norm_num, mul_pow]
  field_simp

theorem scan_value_between {r : Nat} (hr : 0 < r) (j : Nat) :
    10 ^ j * lowerBoundary r < 10 ^ j * (2 * unitsOfRank r) ∧
      10 ^ j * (2 * unitsOfRank r) < 10 ^ j * lowerBoundary (r + 1) := by
  have hbefore := Binary64.unitsOfRank_lt_succ (r - 1)
  rw [Nat.sub_add_cancel hr] at hbefore
  have hnext := Binary64.unitsOfRank_lt_succ r
  have hpow : 0 < 10 ^ j := Nat.pow_pos (by decide)
  refine ⟨Nat.mul_lt_mul_of_pos_left ?_ hpow, Nat.mul_lt_mul_of_pos_left ?_ hpow⟩
  · rw [lowerBoundary]
    omega
  · rw [lowerBoundary, Nat.add_sub_cancel]
    omega

theorem scan_finest (r : Nat) (ends : Bool) (low high : Nat) {value : Nat}
    (hvalue : value = 10 ^ (coarsest + finest) * (2 * unitsOfRank r)) :
    IsShortestFrom 0 (scan ends coarsestStep 0 low value high) r := by
  have hd : (scan ends coarsestStep 0 low value high).value = magnitude r := by
    rw [← value_finest r, ← hvalue, scan]
  refine ⟨⟨?rounds, ?closest⟩, ?coarsest⟩
  case rounds => exact hd ▸ Binary64.roundsTo_magnitude r
  case closest =>
    intro n _
    rw [hd, sub_self, abs_zero]
    exact abs_nonneg _
  case coarsest =>
    intro i n hi hi'
    rw [Nat.cast_zero, zero_sub] at hi'
    exact absurd hi' (not_le.2 hi)

theorem scan_hit {r k j n : Nat} (hr : 0 < r) (hgrid : (coarsest : ℤ) - j = (k : ℤ) + 1 - finest)
    (hn : nearestNeighbour? (r % 2 == 0) coarsestStep (10 ^ j * lowerBoundary r) (10 ^ j * (2 * unitsOfRank r))
      (10 ^ j * lowerBoundary (r + 1)) = some n) :
    IsShortestFrom (k + 1) ⟨n, (k : ℤ) + 1 - finest⟩ r := by
  have hstep : 0 < coarsestStep := by decide +kernel
  obtain ⟨hlow, hhigh⟩ := scan_value_between hr j
  obtain ⟨hhit, hclosest⟩ := nearestNeighbour?_eq_some hstep hlow hhigh hn
  refine ⟨⟨?rounds, ?closest⟩, ?coarsest⟩
  case rounds =>
    rw [value, ← hgrid]
    exact (hits_iff_roundsTo r j n).1 hhit
  case closest =>
    intro m hm
    rw [← hgrid] at hm
    have hle := hclosest m ((hits_iff_roundsTo r j m).2 hm)
    rw [← Int.cast_le (R := ℚ), cast_distance, cast_distance, mul_le_mul_iff_of_pos_right (scale_pos j), hgrid] at hle
    exact hle
  case coarsest =>
    intro i m hi hi'
    push_cast at hi'
    exact absurd hi' (not_le.2 hi)

theorem scan_miss {r k j : Nat} {d : Decimal} (hr : 0 < r) (hgrid : (coarsest : ℤ) - j = (k : ℤ) + 1 - finest)
    (hn : nearestNeighbour? (r % 2 == 0) coarsestStep (10 ^ j * lowerBoundary r) (10 ^ j * (2 * unitsOfRank r))
      (10 ^ j * lowerBoundary (r + 1)) = none) (hd : IsShortestFrom k d r) : IsShortestFrom (k + 1) d r := by
  have hstep : 0 < coarsestStep := by decide +kernel
  obtain ⟨hlow, hhigh⟩ := scan_value_between hr j
  refine ⟨hd.toIsNearestOnGrid, fun i m hi hi' hm => ?_⟩
  push_cast at hi'
  rcases hi'.lt_or_eq with hlt | rfl
  · exact hd.coarsest i m hi (by omega) hm
  · rw [← hgrid] at hm
    exact nearestNeighbour?_eq_none hstep hlow hhigh hn m ((hits_iff_roundsTo r j m).2 hm)

theorem scan_isShortestFrom {r : Nat} (hr : 0 < r) : ∀ {k j : Nat}, k + j = coarsest + finest →
    IsShortestFrom k (scan (r % 2 == 0) coarsestStep k (10 ^ j * lowerBoundary r) (10 ^ j * (2 * unitsOfRank r))
      (10 ^ j * lowerBoundary (r + 1))) r
  | 0, j, hj => scan_finest r _ _ _ (by rw [← hj, Nat.zero_add])
  | k + 1, j, hj => by
    have hgrid : (coarsest : ℤ) - j = (k : ℤ) + 1 - finest := by omega
    rw [scan]
    split
    · rename_i n hn
      exact scan_hit hr hgrid hn
    · rename_i hn
      have ih := scan_isShortestFrom hr (k := k) (j := j + 1) (by omega)
      simp only [Nat.pow_succ', Nat.mul_assoc] at ih
      exact scan_miss hr hgrid hn ih

/-- No finite double is as large as the steps of the coarsest grid. -/
theorem not_roundsTo_of_coarsest_le {r : Nat} (hr : 0 < r) (hlimit : r < Binary64.rankLimit) {i : ℤ} (hi : coarsest ≤ i)
    (n : Nat) : ¬RoundsTo (n * 10 ^ i) r := by
  intro h
  obtain ⟨hlower, hupper, -⟩ := (Binary64.roundsTo_iff (mul_nonneg (Nat.cast_nonneg n) (ten_zpow_pos i).le)).1 h
  rcases Nat.eq_zero_or_pos n with rfl | hn
  · rw [Nat.cast_zero, zero_mul] at hlower
    exact absurd (Binary64.boundary_pos hr) (not_lt.2 hlower)
  · have hlimit' : boundary (r + 1) ≤ Binary64.integerLimit := Binary64.boundary_rankLimit ▸ Binary64.boundary_mono hlimit
    have hstep : (Binary64.integerLimit : ℚ) < (10 ^ coarsest : Nat) := Nat.cast_lt.2 (by decide +kernel)
    have hpow : ((10 ^ coarsest : Nat) : ℚ) ≤ 10 ^ i := by
      rw [Nat.cast_pow, Nat.cast_ofNat, ← zpow_natCast]
      exact zpow_le_zpow_right₀ (by norm_num) hi
    have hle : (10 : ℚ) ^ i ≤ n * 10 ^ i := le_mul_of_one_le_left (ten_zpow_pos i).le (by exact_mod_cast hn)
    linarith

/-- **The search finds the shortest decimal.** -/
theorem shortest_isShortest {r : Nat} (hr : 0 < r) (hlimit : r < Binary64.rankLimit) : IsShortest (shortest r) r := by
  have hfrom := scan_isShortestFrom hr (k := coarsest + finest) (j := 0) rfl
  simp only [Nat.pow_zero, Nat.one_mul] at hfrom
  refine ⟨hfrom.toIsNearestOnGrid, fun i n hi => ?_⟩
  rcases le_or_gt i coarsest with hle | hlt
  · exact hfrom.coarsest i n hi (by push_cast; omega)
  · exact not_roundsTo_of_coarsest_le hr hlimit hlt.le n

end Decimal
end Exposition
