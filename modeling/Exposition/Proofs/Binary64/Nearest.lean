import Exposition.Proofs.Binary64.Ranks
import Mathlib.Data.Real.Basic
import Mathlib.Data.Nat.Cast.Order.Ring
import Mathlib.Algebra.Order.Group.Abs
import Mathlib.Order.Compare
import Mathlib.Tactic.Positivity
/-!
# Nearest — the search meets the boundaries

A comparison with half units *measures* a real number if it tells how each number of them compares with it.  The search
then finds the last rank whose lower boundary that number reaches (`le_nearestRank_iff`): there is no double for it from the
boundary of `rankLimit` on (`nearest?_eq_none_iff`), and what is rounded keeps its order (`IsNearest.position_mono`).
-/
namespace Exposition
namespace Binary64

/-! ## The search -/

section Search

variable {p q : Nat → Bool}

theorem le_searchLast (p : Nat → Bool) : ∀ (k base : Nat), base ≤ searchLast p k base
  | 0, base => Nat.le_refl base
  | k + 1, base => by
    unfold searchLast
    split
    · exact Nat.le_trans (Nat.le_add_right base _) (le_searchLast p k _)
    · exact le_searchLast p k base

theorem searchLast_lt (p : Nat → Bool) : ∀ (k base : Nat), searchLast p k base < base + 2 ^ k
  | 0, base => Nat.lt_succ_self base
  | k + 1, base => by
    have hk := Nat.two_pow_succ k
    unfold searchLast
    split
    · have h := searchLast_lt p k (base + Nat.pow 2 k)
      rw [Nat.pow_eq] at h ⊢
      omega
    · have h := searchLast_lt p k base
      have hpos := Nat.two_pow_pos k
      omega

theorem searchLast_holds : ∀ (k base : Nat), p base = true → p (searchLast p k base) = true
  | 0, _, h => h
  | k + 1, base, h => by
    unfold searchLast
    split
    · rename_i hp
      exact searchLast_holds k _ hp
    · exact searchLast_holds k base h

/-- Nothing beyond what is found has a property that, once it fails, fails from there on. -/
theorem le_searchLast_of (hp : ∀ m n, m ≤ n → p n = true → p m = true) {r : Nat} (hr : p r = true) :
    ∀ (k base : Nat), r < base + 2 ^ k → r ≤ searchLast p k base
  | 0, base, h => Nat.le_of_lt_succ h
  | k + 1, base, h => by
    have hk := Nat.two_pow_succ k
    unfold searchLast
    split
    · refine le_searchLast_of hp hr k _ ?_
      rw [Nat.pow_eq]
      omega
    · rename_i hno
      refine le_searchLast_of hp hr k base (Nat.lt_of_not_le fun hle => hno ?_)
      exact hp _ r hle hr

theorem searchLast_mono (hpq : ∀ n, p n = true → q n = true) :
    ∀ (k base : Nat), searchLast p k base ≤ searchLast q k base
  | 0, base => Nat.le_refl base
  | k + 1, base => by
    unfold searchLast
    split
    · rename_i hp
      rw [if_pos (hpq _ hp)]
      exact searchLast_mono hpq k _
    · split
      · have hlt := searchLast_lt p k base
        have hle := le_searchLast q k (base + Nat.pow 2 k)
        rw [Nat.pow_eq] at hle ⊢
        omega
      · exact searchLast_mono hpq k base

end Search

/-! ## Boundaries -/

/-- A comparison of half units with the real number `v`. -/
def Measures (against : Nat → Ordering) (v : ℝ) : Prop := ∀ t : Nat, against t = cmp (t : ℝ) v

/-- A number lies at rank `r` or above: beyond the lower boundary, or on it if the rank is even. -/
def Reaches (v : ℝ) (r : Nat) : Prop :=
  (lowerBoundary r : ℝ) < v ∨ ((lowerBoundary r : ℝ) = v ∧ r % 2 = 0)

section Boundaries

variable {against : Nat → Ordering} {v w : ℝ} {q r : Nat}

theorem reaches_iff (h : Measures against v) : reaches against r = true ↔ Reaches v r := by
  unfold reaches Reaches
  rw [h]
  split
  · rename_i hc
    exact iff_of_true rfl (.inl (cmp_eq_lt_iff _ _ |>.1 hc))
  · rename_i hc
    have heq := cmp_eq_eq_iff _ _ |>.1 hc
    rw [beq_iff_eq]
    constructor
    · intro hr
      exact .inr ⟨heq, hr⟩
    · rintro (hlt | ⟨-, hr⟩)
      · exact absurd heq (ne_of_lt hlt)
      · exact hr
  · rename_i hc
    have hgt := cmp_eq_gt_iff _ _ |>.1 hc
    refine iff_of_false (by decide) ?_
    rintro (hlt | ⟨heq, -⟩)
    · exact absurd hlt (not_lt_of_gt hgt)
    · exact absurd heq (ne_of_gt hgt)

theorem Reaches.lowerBoundary_le (h : Reaches v r) : (lowerBoundary r : ℝ) ≤ v := by
  rcases h with h | ⟨h, -⟩
  · exact le_of_lt h
  · exact le_of_eq h

theorem Reaches.of_le (h : Reaches v r) (hqr : q ≤ r) : Reaches v q := by
  rcases Nat.eq_or_lt_of_le hqr with rfl | hlt
  · exact h
  · refine .inl (lt_of_lt_of_le ?_ h.lowerBoundary_le)
    exact_mod_cast lowerBoundary_strictMono hlt

theorem Reaches.mono (h : Reaches v r) (hvw : v ≤ w) : Reaches w r := by
  rcases h with h | ⟨h, hr⟩
  · exact .inl (lt_of_lt_of_le h hvw)
  · rcases eq_or_lt_of_le hvw with rfl | hlt
    · exact .inr ⟨h, hr⟩
    · exact .inl (h ▸ hlt)

theorem reaches_zero (hv : 0 ≤ v) : Reaches v 0 := by
  unfold Reaches
  rw [lowerBoundary_zero, Nat.cast_zero]
  rcases eq_or_lt_of_le hv with h | h
  · exact .inr ⟨h, rfl⟩
  · exact .inl h

/-- **The nearest rank is the last one that is reached.** -/
theorem le_nearestRank_iff (h : Measures against v) (hv : 0 ≤ v) (hr : r < 2 ^ 63) :
    r ≤ nearestRank against ↔ Reaches v r := by
  constructor
  · intro hle
    have hlast : reaches against (nearestRank against) = true :=
      searchLast_holds 63 0 ((reaches_iff h).2 (reaches_zero hv))
    exact ((reaches_iff h).1 hlast).of_le hle
  · intro hreach
    refine le_searchLast_of (fun m n hmn hn => ?_) ((reaches_iff h).2 hreach) 63 0 (by omega)
    exact (reaches_iff h).2 (((reaches_iff h).1 hn).of_le hmn)

theorem nearestRank_mono {a b : Nat → Ordering} (ha : Measures a v) (hb : Measures b w) (hvw : v ≤ w) :
    nearestRank a ≤ nearestRank b :=
  searchLast_mono (fun _ hn => (reaches_iff hb).2 (((reaches_iff ha).1 hn).mono hvw)) 63 0

theorem nearestRank_eq_zero (h : Measures against 0) : nearestRank against = 0 := by
  have hlast : Reaches 0 (nearestRank against) :=
    (reaches_iff h).1 (searchLast_holds 63 0 ((reaches_iff h).2 (reaches_zero le_rfl)))
  have hle : lowerBoundary (nearestRank against) ≤ lowerBoundary 0 := by
    rw [lowerBoundary_zero]
    exact_mod_cast hlast.lowerBoundary_le
  exact Nat.eq_zero_of_le_zero (lowerBoundary_strictMono.le_iff_le.1 hle)

theorem rankLimit_lt : rankLimit < 2 ^ 63 := by decide

/-- **There is no double for a number that reaches the boundary of the limit.**  The limit is even, so the boundary itself
is too large. -/
theorem nearest?_eq_none_iff (h : Measures against v) (hv : 0 ≤ v) (s : Bool) :
    nearest? s against = none ↔ (lowerBoundary rankLimit : ℝ) ≤ v := by
  have hiff := le_nearestRank_iff h hv rankLimit_lt
  unfold nearest?
  constructor
  · intro hn
    split at hn
    · cases hn
    · rename_i hlt
      exact (hiff.1 (Nat.le_of_not_lt hlt)).lowerBoundary_le
  · intro hle
    have hreach : Reaches v rankLimit := by
      rcases lt_or_eq_of_le hle with hlt | heq
      · exact .inl hlt
      · exact .inr ⟨heq, by decide⟩
    rw [dif_neg (Nat.not_lt.2 (hiff.2 hreach))]

end Boundaries

/-! ## Order -/

theorem position_nearest (s : Bool) (against : Nat → Ordering) :
    (nearest s against).position = signed s (min (nearestRank against) rankLimit) := by
  unfold nearest nearest?
  split
  · rename_i h
    rw [Nat.min_eq_left (Nat.le_of_lt h)]
    rfl
  · rename_i h
    rw [Nat.min_eq_right (Nat.le_of_not_lt h)]
    rfl

theorem nearest_ne_nan (s : Bool) (against : Nat → Ordering) : nearest s against ≠ nan := by
  unfold nearest nearest?
  split <;> exact fun h => by cases h

theorem nearest_of_nearest? {s : Bool} {against : Nat → Ordering} {x : Binary64} (h : nearest? s against = some x) :
    nearest s against = x := by
  rw [nearest, h]
  rfl

/-- The double nearest to `v` half units, infinite if that is too large. -/
def IsNearest (v : ℝ) (x : Binary64) : Prop :=
  ∃ s against, Measures against |v| ∧ (if s = true then v ≤ 0 else 0 ≤ v) ∧ x = nearest s against

/-- **Rounding keeps the order.** -/
theorem IsNearest.position_mono {v w : ℝ} {x y : Binary64} (hx : IsNearest v x) (hy : IsNearest w y) (hvw : v ≤ w) :
    x.position ≤ y.position := by
  obtain ⟨s, a, ha, hs, rfl⟩ := hx
  obtain ⟨t, b, hb, ht, rfl⟩ := hy
  rw [position_nearest, position_nearest]
  cases s with
  | false =>
    rw [if_neg (by decide)] at hs
    have hw : 0 ≤ w := le_trans hs hvw
    rw [abs_of_nonneg hs] at ha
    rw [abs_of_nonneg hw] at hb
    have hle := nearestRank_mono ha hb hvw
    cases t with
    | false =>
      show ((min _ _ : Nat) : Int) ≤ ((min _ _ : Nat) : Int)
      omega
    | true =>
      -- only zero is both
      rw [if_pos rfl] at ht
      have hw0 : w = 0 := le_antisymm ht hw
      rw [hw0] at hb
      rw [nearestRank_eq_zero hb] at hle ⊢
      rw [Nat.eq_zero_of_le_zero hle]
      exact le_refl _
  | true =>
    rw [if_pos rfl] at hs
    cases t with
    | false =>
      show -((min _ _ : Nat) : Int) ≤ ((min _ _ : Nat) : Int)
      omega
    | true =>
      rw [if_pos rfl] at ht
      rw [abs_of_nonpos hs] at ha
      rw [abs_of_nonpos ht] at hb
      have hle := nearestRank_mono hb ha (neg_le_neg hvw)
      show -((min _ _ : Nat) : Int) ≤ -((min _ _ : Nat) : Int)
      omega

end Binary64
end Exposition
