import Exposition.Proofs.Binary64.Quotients
import Exposition.Proofs.Binary64.Values
import Mathlib.Data.Rat.Cast.Order
import Mathlib.Tactic.Linarith
/-!
# Roundings — the rank that a rational is rounded to

A rational is rounded to the nearest magnitude, and of two that are equally near to the one of even rank.  What is rounded
to one rank lies between its boundaries, which belong to it if it is even (`roundsTo_iff`); so everything between two
numbers that are rounded to a rank is rounded there as well, and the search finds that rank (`nearest?_eq_some_iff`).
-/
namespace Exposition
namespace Binary64

/-- No magnitude is nearer to `q` than that of rank `r`, and if another one is as near, `r` is even.  Magnitudes go on
beyond the largest double here, so that what is nearer to those is rounded to no double. -/
structure RoundsTo (q : ℚ) (r : Nat) : Prop where
  nearest : ∀ t, |q - magnitude r| ≤ |q - magnitude t|
  even : ∀ t, t ≠ r → |q - magnitude t| = |q - magnitude r| → r % 2 = 0

/-- Halfway between the magnitudes of the ranks `r - 1` and `r`. -/
def boundary (r : Nat) : ℚ := (magnitude (r - 1) + magnitude r) / 2

section Halves

variable {a b q : ℚ}

theorem nearer_upper_iff (h : a < b) : |q - b| ≤ |q - a| ↔ (a + b) / 2 ≤ q := by
  constructor <;> intro h' <;> rcases abs_cases (q - a) with ⟨ha, ha'⟩ | ⟨ha, ha'⟩ <;>
    rcases abs_cases (q - b) with ⟨hb, hb'⟩ | ⟨hb, hb'⟩ <;> linarith

theorem nearer_lower_iff (h : a < b) : |q - a| ≤ |q - b| ↔ q ≤ (a + b) / 2 := by
  constructor <;> intro h' <;> rcases abs_cases (q - a) with ⟨ha, ha'⟩ | ⟨ha, ha'⟩ <;>
    rcases abs_cases (q - b) with ⟨hb, hb'⟩ | ⟨hb, hb'⟩ <;> linarith

theorem equally_near_iff (h : a < b) : |q - a| = |q - b| ↔ q = (a + b) / 2 := by
  rw [le_antisymm_iff, nearer_lower_iff h, nearer_upper_iff h, ← le_antisymm_iff]

end Halves

theorem abs_signedValue_sub (s : Bool) (p q : ℚ) : |signedValue s p - signedValue s q| = |p - q| := by
  cases s with
  | true =>
    show |-p - -q| = |p - q|
    rw [neg_sub_neg, abs_sub_comm]
  | false => rfl

variable {p q t : ℚ} {r : Nat}

theorem boundary_zero : boundary 0 = 0 := by
  rw [boundary, Nat.zero_sub, magnitude_zero, add_zero, zero_div]

theorem boundary_succ (r : Nat) : boundary (r + 1) = (magnitude r + magnitude (r + 1)) / 2 := rfl

theorem boundary_le_magnitude (r : Nat) : boundary r ≤ magnitude r := by
  have h : magnitude (r - 1) ≤ magnitude r := magnitude_strictMono.monotone (Nat.sub_le r 1)
  rw [boundary]
  linarith

theorem magnitude_lt_boundary (r : Nat) : magnitude r < boundary (r + 1) := by
  have h : magnitude r < magnitude (r + 1) := magnitude_strictMono (Nat.lt_succ_self r)
  rw [boundary_succ]
  linarith

theorem boundary_mono : Monotone boundary := by
  intro p q h
  have hbefore : magnitude (p - 1) ≤ magnitude (q - 1) := magnitude_strictMono.monotone (Nat.sub_le_sub_right h 1)
  have hat : magnitude p ≤ magnitude q := magnitude_strictMono.monotone h
  rw [boundary, boundary]
  linarith

theorem boundary_pos (hr : 0 < r) : 0 < boundary r := by
  have hbefore : magnitude 0 ≤ magnitude (r - 1) := magnitude_strictMono.monotone (Nat.zero_le _)
  have hat : magnitude 0 < magnitude r := magnitude_strictMono hr
  rw [magnitude_zero] at hbefore hat
  rw [boundary]
  linarith

/-- Boundaries in half units. -/
theorem boundary_mul (r : Nat) : boundary r * (2 * unitsInOne) = lowerBoundary r := by
  have hne : (unitsInOne : ℚ) ≠ 0 := unitsInOne_cast_pos.ne'
  rw [lowerBoundary, boundary, magnitude, magnitude]
  push_cast
  field_simp

theorem boundary_rankLimit : boundary rankLimit = integerLimit := by
  have hne : (2 * unitsInOne : ℚ) ≠ 0 := (mul_pos two_pos unitsInOne_cast_pos).ne'
  have h := boundary_mul rankLimit
  rw [lowerBoundary_rankLimit] at h
  push_cast at h
  exact mul_right_cancel₀ hne h

/-- Of the lower ranks the one before is the nearest. -/
theorem midpoint_le_boundary {t : Nat} (h : t < r) : (magnitude t + magnitude r) / 2 ≤ boundary r := by
  have hle : magnitude t ≤ magnitude (r - 1) := magnitude_strictMono.monotone (Nat.le_sub_one_of_lt h)
  rw [boundary]
  linarith

/-- Of the higher ranks the one behind is the nearest. -/
theorem boundary_le_midpoint {t : Nat} (h : r < t) : boundary (r + 1) ≤ (magnitude r + magnitude t) / 2 := by
  have hle : magnitude (r + 1) ≤ magnitude t := magnitude_strictMono.monotone h
  rw [boundary_succ]
  linarith

/-- **What is rounded to a rank lies between its boundaries**, which belong to it if it is even. -/
theorem roundsTo_iff (hq : 0 ≤ q) :
    RoundsTo q r ↔ boundary r ≤ q ∧ q ≤ boundary (r + 1) ∧ (q = boundary r ∨ q = boundary (r + 1) → r % 2 = 0) := by
  have hnext : magnitude r < magnitude (r + 1) := magnitude_strictMono (Nat.lt_succ_self r)
  constructor
  · intro h
    have hupper : q ≤ boundary (r + 1) := (nearer_lower_iff hnext).1 (h.nearest (r + 1))
    have hupperEven : q = boundary (r + 1) → r % 2 = 0 := fun heq =>
      h.even (r + 1) (Nat.succ_ne_self r) ((equally_near_iff hnext).2 heq).symm
    cases r with
    | zero => exact ⟨boundary_zero ▸ hq, hupper, fun _ => rfl⟩
    | succ k =>
      have hbefore : magnitude k < magnitude (k + 1) := magnitude_strictMono (Nat.lt_succ_self k)
      refine ⟨(nearer_upper_iff hbefore).1 (h.nearest k), hupper, ?_⟩
      rintro (heq | heq)
      · exact h.even k (Nat.succ_ne_self k).symm ((equally_near_iff hbefore).2 heq)
      · exact hupperEven heq
  · rintro ⟨hlower, hupper, heven⟩
    constructor
    · intro t
      rcases Nat.lt_trichotomy t r with ht | rfl | ht
      · exact (nearer_upper_iff (magnitude_strictMono ht)).2 ((midpoint_le_boundary ht).trans hlower)
      · exact le_rfl
      · exact (nearer_lower_iff (magnitude_strictMono ht)).2 (hupper.trans (boundary_le_midpoint ht))
    · intro t hne heq
      rcases Nat.lt_or_gt_of_ne hne with ht | ht
      · have hmid := (equally_near_iff (magnitude_strictMono ht)).1 heq
        exact heven (.inl (le_antisymm (hmid.trans_le (midpoint_le_boundary ht)) hlower))
      · have hmid := (equally_near_iff (magnitude_strictMono ht)).1 heq.symm
        exact heven (.inr (le_antisymm hupper ((boundary_le_midpoint ht).trans_eq hmid.symm)))

theorem roundsTo_magnitude (r : Nat) : RoundsTo (magnitude r) r := by
  constructor
  · intro t
    rw [sub_self, abs_zero]
    exact abs_nonneg _
  · intro t hne heq
    rw [sub_self, abs_zero, abs_eq_zero, sub_eq_zero] at heq
    exact absurd (magnitude_strictMono.injective heq.symm) hne

/-- What lies between two numbers that are rounded to a rank is rounded there as well. -/
theorem RoundsTo.of_between (hp : RoundsTo p r) (ht : RoundsTo t r) (h0 : 0 ≤ p) (hpq : p ≤ q) (hqt : q ≤ t) :
    RoundsTo q r := by
  obtain ⟨hlower, -, hpeven⟩ := (roundsTo_iff h0).1 hp
  obtain ⟨-, hupper, hteven⟩ := (roundsTo_iff (h0.trans (hpq.trans hqt))).1 ht
  refine (roundsTo_iff (h0.trans hpq)).2 ⟨hlower.trans hpq, hqt.trans hupper, ?_⟩
  rintro (rfl | rfl)
  · exact hpeven (.inl (le_antisymm hpq hlower))
  · exact hteven (.inr (le_antisymm hupper hqt))

/-! ## The search -/

theorem lowerBoundary_eq (r : Nat) : (lowerBoundary r : ℝ) = (boundary r : ℝ) * (2 * unitsInOne) := by
  exact_mod_cast (boundary_mul r).symm

theorem reaches_iff_boundary : Reaches (q * (2 * unitsInOne)) r ↔ boundary r < q ∨ boundary r = q ∧ r % 2 = 0 := by
  rw [Reaches, lowerBoundary_eq, mul_lt_mul_iff_of_pos_right halfUnits_pos, mul_left_inj' halfUnits_pos.ne', Rat.cast_lt,
    Rat.cast_inj]

theorem reaches_and_not_succ_iff (hq : 0 ≤ q) :
    Reaches (q * (2 * unitsInOne)) r ∧ ¬Reaches (q * (2 * unitsInOne)) (r + 1) ↔ RoundsTo q r := by
  rw [roundsTo_iff hq, reaches_iff_boundary, reaches_iff_boundary]
  have hlt : boundary r < boundary (r + 1) := (boundary_le_magnitude r).trans_lt (magnitude_lt_boundary r)
  constructor
  · rintro ⟨hreach, hnot⟩
    obtain ⟨hupper, hne⟩ := not_or.1 hnot
    refine ⟨?_, not_lt.1 hupper, ?_⟩
    · rcases hreach with h | ⟨h, -⟩
      · exact h.le
      · exact h.le
    · rintro (rfl | rfl)
      · rcases hreach with h | ⟨-, h⟩
        · exact absurd h (lt_irrefl _)
        · exact h
      · by_contra hodd
        exact hne ⟨rfl, by omega⟩
  · rintro ⟨hlower, hupper, heven⟩
    refine ⟨?_, ?_⟩
    · rcases hlower.lt_or_eq with h | h
      · exact .inl h
      · exact .inr ⟨h, heven (.inl h.symm)⟩
    · rintro (h | ⟨h, hodd⟩)
      · exact absurd h (not_lt.2 hupper)
      · have hr := heven (.inr h.symm)
        omega

/-- **The search finds the double that a rational is rounded to.** -/
theorem nearest?_eq_some_iff {against : Nat → Ordering} (h : Measures against (q * (2 * unitsInOne))) (hq : 0 ≤ q) {s : Bool}
    {x : Binary64} : nearest? s against = some x ↔ ∃ k : Fin rankLimit, x = finite s k ∧ RoundsTo q k.val := by
  have hv : (0 : ℝ) ≤ q * (2 * unitsInOne) := mul_nonneg (by exact_mod_cast hq) halfUnits_pos.le
  have hrank : ∀ r, r < rankLimit → (nearestRank against = r ↔ RoundsTo q r) := by
    intro r hr
    have hlimit := rankLimit_lt
    rw [← reaches_and_not_succ_iff hq, ← le_nearestRank_iff h hv (by omega), ← le_nearestRank_iff h hv (by omega)]
    omega
  unfold nearest?
  constructor
  · intro hx
    split at hx
    · rename_i hlt
      cases hx
      exact ⟨_, rfl, (hrank _ hlt).1 rfl⟩
    · cases hx
  · rintro ⟨k, rfl, hk⟩
    have heq := (hrank k.val k.isLt).2 hk
    simp only [heq, k.isLt, dif_pos]

end Binary64
end Exposition
