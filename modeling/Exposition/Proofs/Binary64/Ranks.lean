import Exposition.Number
import Mathlib.Order.Monotone.Basic
import Mathlib.Tactic.Ring
/-!
# Ranks — the magnitudes in order

Each rank adds a power of two to the magnitude before it, so magnitudes and the boundaries between them ascend with
their ranks.  A double has a *position*: its rank, below zero if it is negative.  Two doubles compare as their positions do
(`Number.le_float_iff`).
-/
namespace Exposition
namespace Binary64

theorem binade_pos : 0 < binade := by decide

theorem unitsInOne_pos : 0 < unitsInOne := by decide +kernel

theorem unitsOfRank_of_lt {r : Nat} (h : r < binade) : unitsOfRank r = r := by
  unfold unitsOfRank
  rw [if_pos h]

theorem unitsOfRank_binade {e m : Nat} (hm : m < binade) :
    unitsOfRank ((e + 1) * binade + m) = (binade + m) * 2 ^ e := by
  have hge : ¬(e + 1) * binade + m < binade := by
    have hle : binade ≤ (e + 1) * binade := Nat.le_mul_of_pos_left binade (Nat.succ_pos e)
    omega
  have hdiv : ((e + 1) * binade + m) / binade = e + 1 := by
    rw [Nat.mul_comm, Nat.mul_add_div binade_pos, Nat.div_eq_of_lt hm, Nat.add_zero]
  have hmod : ((e + 1) * binade + m) % binade = m := by
    rw [Nat.mul_comm, Nat.mul_add_mod, Nat.mod_eq_of_lt hm]
  unfold unitsOfRank
  rw [if_neg hge, hdiv, hmod]
  rfl

theorem exists_binade {r : Nat} (h : binade ≤ r) : ∃ e m, m < binade ∧ r = (e + 1) * binade + m := by
  have hpos : 0 < r / binade := Nat.div_pos h binade_pos
  refine ⟨r / binade - 1, r % binade, Nat.mod_lt r binade_pos, ?_⟩
  rw [Nat.sub_add_cancel hpos, Nat.mul_comm]
  exact (Nat.div_add_mod r binade).symm

/-- The last rank of a binade is followed by the next power of two. -/
theorem unitsOfRank_binade_succ {e m : Nat} (hm : m < binade) :
    unitsOfRank ((e + 1) * binade + m + 1) = (binade + m + 1) * 2 ^ e := by
  rcases Nat.lt_or_ge (m + 1) binade with hm' | hm'
  · rw [Nat.add_assoc, unitsOfRank_binade hm', Nat.add_assoc]
  · have hnext : (e + 1) * binade + m + 1 = (e + 1 + 1) * binade + 0 := by
      rw [Nat.add_mul (e + 1) 1 binade]
      omega
    have htwice : binade + m + 1 = (binade + 0) * 2 := by omega
    rw [hnext, unitsOfRank_binade binade_pos, Nat.pow_succ, htwice]
    ring

theorem unitsOfRank_lt_succ (r : Nat) : unitsOfRank r < unitsOfRank (r + 1) := by
  rcases Nat.lt_or_ge (r + 1) binade with h | h
  · rw [unitsOfRank_of_lt h, unitsOfRank_of_lt (Nat.lt_of_succ_lt h)]
    exact Nat.lt_succ_self r
  rcases Nat.eq_or_lt_of_le h with h | h
  · have h0 : r + 1 = (0 + 1) * binade + 0 := by omega
    rw [unitsOfRank_of_lt (by omega), h0, unitsOfRank_binade binade_pos]
    omega
  obtain ⟨e, m, hm, rfl⟩ := exists_binade (Nat.le_of_lt_succ h)
  rw [unitsOfRank_binade hm, unitsOfRank_binade_succ hm]
  exact Nat.mul_lt_mul_of_pos_right (Nat.lt_succ_self _) (Nat.two_pow_pos e)

/-- **Magnitudes ascend with their ranks.** -/
theorem unitsOfRank_strictMono : StrictMono unitsOfRank := strictMono_nat_of_lt_succ unitsOfRank_lt_succ

theorem units_zero : unitsOfRank 0 = 0 := unitsOfRank_of_lt binade_pos

theorem lowerBoundary_zero : lowerBoundary 0 = 0 := by
  rw [lowerBoundary, Nat.zero_sub, unitsOfRank_of_lt binade_pos]

theorem lowerBoundary_strictMono : StrictMono lowerBoundary := by
  apply strictMono_nat_of_lt_succ
  intro r
  have hle : unitsOfRank (r - 1) ≤ unitsOfRank r := unitsOfRank_strictMono.monotone (Nat.sub_le r 1)
  have hlt := unitsOfRank_lt_succ r
  show unitsOfRank (r - 1) + unitsOfRank r < unitsOfRank (r + 1 - 1) + unitsOfRank (r + 1)
  rw [Nat.add_sub_cancel]
  omega

/-! ## Positions -/

def signed (negative : Bool) (n : Nat) : Int := if negative then -(n : Int) else n

theorem neg_signed (s : Bool) (n : Nat) : -signed s n = signed (!s) n := by
  cases s with
  | true => exact Int.neg_neg _
  | false => rfl

theorem signed_bounds {s : Bool} {m n : Nat} (h : m ≤ n) : -(n : Int) ≤ signed s m ∧ signed s m ≤ n := by
  cases s <;> simp only [signed, if_true, if_false, Bool.false_eq_true] <;> omega

/-- A scale of magnitudes orders numbers with signs as it orders those without. -/
theorem signed_le_signed_iff {f : Nat → Nat} (hf : StrictMono f) (h0 : f 0 = 0) {s t : Bool} {q r : Nat} :
    signed s (f q) ≤ signed t (f r) ↔ signed s q ≤ signed t r := by
  have hqr : f q ≤ f r ↔ q ≤ r := hf.le_iff_le
  have hrq : f r ≤ f q ↔ r ≤ q := hf.le_iff_le
  have hq : f q ≤ f 0 ↔ q ≤ 0 := hf.le_iff_le
  have hr : f r ≤ f 0 ↔ r ≤ 0 := hf.le_iff_le
  rw [h0] at hq hr
  cases s <;> cases t <;> simp only [signed, if_true, if_false, Bool.false_eq_true] <;> omega

/-- The rank with the sign of the double; both zeros lie in the middle.  What is no number has no position and gets the
one of zero. -/
def position : Binary64 → Int
  | nan => 0
  | infinite s => signed s rankLimit
  | finite s r => signed s r.val

theorem position_bounds (x : Binary64) : -(rankLimit : Int) ≤ x.position ∧ x.position ≤ rankLimit := by
  cases x with
  | nan => exact signed_bounds (s := false) (Nat.zero_le _)
  | infinite s => exact signed_bounds (Nat.le_refl _)
  | finite s r => exact signed_bounds (Nat.le_of_lt r.isLt)

theorem position_negate (x : Binary64) : x.negate.position = -x.position := by
  cases x with
  | nan => rfl
  | infinite s => exact (neg_signed s _).symm
  | finite s r => exact (neg_signed s _).symm

theorem negate_ne_nan {x : Binary64} (h : x ≠ nan) : x.negate ≠ nan := by
  cases x with
  | nan => exact absurd rfl h
  | infinite s =>
    intro h
    cases h
  | finite s r =>
    intro h
    cases h

theorem place?_finite (s : Bool) (r : Fin rankLimit) :
    (finite s r).place? = some (.units (signed s (unitsOfRank r.val))) := by
  cases s <;> rfl

theorem position_finite_lt (s : Bool) (r : Fin rankLimit) :
    -(rankLimit : Int) < (finite s r).position ∧ (finite s r).position < rankLimit := by
  have hr := r.isLt
  obtain ⟨hl, hu⟩ := signed_bounds (s := s) (Nat.le_refl r.val)
  exact ⟨by rw [position]; omega, by rw [position]; omega⟩

end Binary64

open Binary64

/-- **Doubles compare as their positions do**, and what is no number compares with nothing. -/
theorem Number.le_float_iff {x y : Binary64} :
    Number.le (.float x) (.float y) = true ↔ x ≠ .nan ∧ y ≠ .nan ∧ x.position ≤ y.position := by
  have hpos : (0 : Int) < rankLimit := by decide
  unfold Number.le
  cases x with
  | nan => simp [Number.place?, Binary64.place?]
  | infinite s =>
    cases y with
    | nan => cases s <;> simp [Number.place?, Binary64.place?]
    | infinite t =>
      cases s <;> cases t <;> simp [Number.place?, Binary64.place?, Extended.le, Extended.lt, position, signed]
      all_goals omega
    | finite t r =>
      have hr := position_finite_lt t r
      rw [Number.place?, Number.place?, place?_finite]
      cases s with
      | true =>
        refine iff_of_true rfl ⟨by simp, by simp, ?_⟩
        exact le_of_lt hr.1
      | false =>
        refine iff_of_false (by simp [Binary64.place?, Extended.le, Extended.lt]) fun h => ?_
        exact absurd h.2.2 (not_le.2 hr.2)
  | finite s q =>
    have hq := position_finite_lt s q
    cases y with
    | nan => cases s <;> simp [Number.place?, Binary64.place?]
    | infinite t =>
      rw [Number.place?, Number.place?, place?_finite]
      cases t with
      | true =>
        refine iff_of_false (by simp [Binary64.place?, Extended.le, Extended.lt]) fun h => ?_
        exact absurd h.2.2 (not_le.2 hq.1)
      | false =>
        refine iff_of_true rfl ⟨by simp, by simp, ?_⟩
        exact le_of_lt hq.2
    | finite t r =>
      rw [Number.place?, Number.place?, place?_finite, place?_finite]
      simp only [Extended.le, Extended.lt, Bool.not_eq_true', decide_eq_false_iff_not, not_lt, ne_eq, reduceCtorEq,
        not_false_eq_true, true_and]
      exact signed_le_signed_iff unitsOfRank_strictMono units_zero

end Exposition
