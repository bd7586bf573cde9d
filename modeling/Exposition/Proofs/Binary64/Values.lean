import Exposition.Proofs.Binary64.Ranks
import Exposition.Exemplar
import Mathlib.Algebra.Order.Field.Rat
import Mathlib.Order.WithBot
import Mathlib.Tactic.NormNum
/-!
# Values — what a number stands for

A number stands for a rational or for one of the two infinities, and what is no number for nothing.  Numbers compare as
their exact values do, whatever they are made of (`Number.lt_iff`, `Number.le_iff`), so a whole number is never rounded to
be compared with a double.
-/
namespace Exposition

/-- A rational or an infinity. -/
abbrev ExactValue := WithBot (WithTop ℚ)

namespace Binary64

/-- The magnitude of rank `r`, for ranks of no double as well. -/
def magnitude (r : Nat) : ℚ := unitsOfRank r / unitsInOne

def signedValue (negative : Bool) (q : ℚ) : ℚ := if negative then -q else q

def value? : Binary64 → Option ExactValue
  | nan => none
  | infinite true => some ⊥
  | infinite false => some ⊤
  | finite negative r => some ((signedValue negative (magnitude r.val) : ℚ) : WithTop ℚ)

theorem unitsInOne_cast_pos : (0 : ℚ) < unitsInOne := Nat.cast_pos.2 unitsInOne_pos

theorem magnitude_strictMono : StrictMono magnitude := by
  intro q r h
  exact div_lt_div_of_pos_right (Nat.cast_lt.2 (unitsOfRank_strictMono h)) unitsInOne_cast_pos

theorem magnitude_zero : magnitude 0 = 0 := by
  rw [magnitude, units_zero, Nat.cast_zero, zero_div]

theorem magnitude_nonneg (r : Nat) : 0 ≤ magnitude r := div_nonneg (Nat.cast_nonneg _) unitsInOne_cast_pos.le

theorem value?_eq_none {x : Binary64} : x.value? = none ↔ x = .nan := by
  cases x with
  | nan => exact iff_of_true rfl rfl
  | infinite s => cases s <;> exact iff_of_false (by simp [value?]) (by simp)
  | finite s r => exact iff_of_false (by simp [value?]) (by simp)

end Binary64

def Extended.value : Extended → ExactValue
  | bottom => ⊥
  | units n => ((n / Binary64.unitsInOne : ℚ) : WithTop ℚ)
  | top => ⊤

theorem Extended.lt_iff : ∀ {a b : Extended}, a.lt b = true ↔ a.value < b.value
  | bottom, bottom => iff_of_false Bool.false_ne_true (lt_irrefl _)
  | bottom, units _ => iff_of_true rfl (WithBot.bot_lt_coe _)
  | bottom, top => iff_of_true rfl (WithBot.bot_lt_coe _)
  | units _, bottom => iff_of_false Bool.false_ne_true not_lt_bot
  | units m, units n => by
    rw [Extended.lt, decide_eq_true_iff, Extended.value, Extended.value, WithBot.coe_lt_coe, WithTop.coe_lt_coe,
      div_lt_div_iff_of_pos_right Binary64.unitsInOne_cast_pos, Int.cast_lt]
  | units _, top => iff_of_true rfl (WithBot.coe_lt_coe.2 (WithTop.coe_lt_top _))
  | top, bottom => iff_of_false Bool.false_ne_true not_lt_bot
  | top, units _ => iff_of_false Bool.false_ne_true not_top_lt
  | top, top => iff_of_false Bool.false_ne_true (lt_irrefl _)

theorem Extended.le_iff {a b : Extended} : a.le b = true ↔ a.value ≤ b.value := by
  rw [Extended.le, Bool.not_eq_true', ← not_lt, ← Extended.lt_iff, Bool.not_eq_true]

theorem Binary64.value?_eq (x : Binary64) : x.value? = x.place?.map Extended.value := by
  cases x with
  | nan => rfl
  | infinite s => cases s <;> rfl
  | finite s r =>
    rw [place?_finite, Option.map_some, Extended.value, value?]
    cases s with
    | true =>
      show some (((-(unitsOfRank r.val / unitsInOne : ℚ) : ℚ) : WithTop ℚ) : ExactValue) = _
      rw [signed, if_pos rfl, Int.cast_neg, neg_div, Int.cast_natCast]
    | false => rfl

namespace Number

def value? : Number → Option ExactValue
  | float x => x.value?
  | int n => some ((n : ℚ) : WithTop ℚ)

theorem value?_eq (x : Number) : x.value? = x.place?.map Extended.value := by
  cases x with
  | float x => exact x.value?_eq
  | int n =>
    rw [value?, place?, Option.map_some, Extended.value, Int.cast_mul, Int.cast_natCast,
      mul_div_cancel_right₀ _ Binary64.unitsInOne_cast_pos.ne']

/-- **A number is less than another one if its exact value is**, and what is no number is never less. -/
theorem lt_iff {a b : Number} :
    a.lt b = true ↔ ∃ x y, a.value? = some x ∧ b.value? = some y ∧ x < y := by
  rw [value?_eq, value?_eq, lt]
  cases a.place? with
  | none => simp
  | some x =>
    cases b.place? with
    | none => simp
    | some y => simp [Extended.lt_iff]

theorem le_iff {a b : Number} :
    a.le b = true ↔ ∃ x y, a.value? = some x ∧ b.value? = some y ∧ x ≤ y := by
  rw [value?_eq, value?_eq, le]
  cases a.place? with
  | none => simp
  | some x =>
    cases b.place? with
    | none => simp
    | some y => simp [Extended.le_iff]

theorem le_trans {a b c : Number} (hab : a.le b = true) (hbc : b.le c = true) : a.le c = true := by
  obtain ⟨x, y, hx, hy, hxy⟩ := le_iff.1 hab
  obtain ⟨y', z, hy', hz, hyz⟩ := le_iff.1 hbc
  rw [hy] at hy'
  cases hy'
  exact le_iff.2 ⟨x, z, hx, hz, hxy.trans hyz⟩

theorem value?_eq_none {x : Number} : x.value? = none ↔ x = .float .nan := by
  cases x with
  | float x => rw [value?, Binary64.value?_eq_none, float.injEq]
  | int n => exact iff_of_false (fun h => nomatch h) (fun h => nomatch h)

theorem le_self_iff {x : Number} : x.le x = true ↔ x ≠ .float .nan := by
  rw [le_iff, Ne, ← value?_eq_none]
  cases x.value? with
  | none => simp
  | some v => simp

/-- A number above one bound and not above the other, in exact values. -/
def InRange (lower upper v : Number) : Prop :=
  ∃ l u x, lower.value? = some l ∧ upper.value? = some u ∧ v.value? = some x ∧ l < x ∧ x ≤ u

theorem within_iff {lower upper v : Number} : Number.within lower upper v = true ↔ InRange lower upper v := by
  rw [Number.within, Bool.and_eq_true, lt_iff, le_iff]
  constructor
  · rintro ⟨⟨l, x, hl, hx, hlx⟩, x', u, hx', hu, hxu⟩
    rw [hx] at hx'
    cases hx'
    exact ⟨l, u, x, hl, hu, hx, hlx, hxu⟩
  · rintro ⟨l, u, x, hl, hu, hx, hlx, hxu⟩
    exact ⟨⟨l, x, hl, hx, hlx⟩, x, u, hx, hu, hxu⟩

end Number
end Exposition
