import Exposition.Proofs.Decimal.Layout
/-!
# Printing — a double is printed exactly, shortly, and unlike any other

The text of a finite double is read as a decimal that is rounded back to it, has the fewest digits of all that are, and is
the nearest of those (`SignedDecimal.IsShortest`).  So two doubles have one text only if they have one bit pattern
(`Binary64.toText_roundTrips`).
-/
namespace Exposition

open Decimal (IsLaidOut)

/-! ## Magnitudes -/

namespace Decimal

open Binary64 (RoundsTo magnitude magnitudeText rankLimit)

/-- The best decimal for a rank: it is rounded to it, no decimal that is has less precision, and of those with as much none
is nearer. -/
structure IsBest (d : Decimal) (r : Nat) : Prop where
  rounds : RoundsTo d.value r
  shortest : ∀ e : Decimal, RoundsTo e.value r → d.precision ≤ e.precision
  closest : ∀ e : Decimal, RoundsTo e.value r → e.precision = d.precision → |d.value - magnitude r| ≤ |e.value - magnitude r|

theorem IsBest.congr {d d' : Decimal} {r : Nat} (h : d.IsBest r) (hvalue : d'.value = d.value) : d'.IsBest r := by
  have hprecision := precision_congr hvalue
  exact ⟨hvalue ▸ h.rounds, fun e he => hprecision ▸ h.shortest e he,
    fun e he heq => hvalue ▸ h.closest e he (heq.trans hprecision)⟩

theorem isBest_shortest {r : Nat} (hr : 0 < r) (hlimit : r < rankLimit) : (shortest r).IsBest r := by
  have h := shortest_isShortest hr hlimit
  exact ⟨h.rounds, fun e he => (h.precision_le_and_closest hr he).1, fun e he => (h.precision_le_and_closest hr he).2⟩

theorem isBest_zero : (Decimal.mk 0 (-1)).IsBest 0 := by
  have hvalue : (Decimal.mk 0 (-1)).value = magnitude 0 := by
    rw [value, Nat.cast_zero, zero_mul, Binary64.magnitude_zero]
  refine ⟨hvalue ▸ Binary64.roundsTo_magnitude 0, fun e _ => Nat.zero_le _, fun e _ _ => ?_⟩
  rw [hvalue, sub_self, abs_zero]
  exact abs_nonneg _

/-- The text of a magnitude is laid out for the best decimal, and read as that. -/
theorem read?_magnitudeText {r : Nat} (hlimit : r < rankLimit) :
    ∃ d, read? (magnitudeText r) = some d ∧ IsLaidOut (magnitudeText r) d.value ∧ d.IsBest r := by
  unfold magnitudeText
  split
  · rename_i h
    subst h
    obtain ⟨hshape, hread⟩ := positional_parts (List.cons_ne_nil Text.zero []) (List.cons_ne_nil Text.zero [])
      (by decide) (by decide)
    refine ⟨_, hread, ?_, isBest_zero⟩
    have hvalue : (Decimal.mk (digitsValue ([Text.zero] ++ [Text.zero])) (-([Text.zero].length : ℤ))).value = 0 := by
      rw [value, show digitsValue ([Text.zero] ++ [Text.zero]) = 0 from rfl, Nat.cast_zero, zero_mul]
    rw [IsLaidOut, hvalue, Int.log_zero_right, if_pos (by decide)]
    exact hshape
  · rename_i h
    have hr : 0 < r := Nat.pos_of_ne_zero h
    have hbest := isBest_shortest hr hlimit
    generalize shortest r = d at hbest ⊢
    obtain ⟨hlaid, d', hread, hvalue⟩ := read?_toText (significand_ne_zero hr hbest.rounds)
    exact ⟨d', hread, hvalue ▸ hlaid, hbest.congr hvalue⟩

end Decimal

/-! ## Doubles -/

/-- The best decimal for a double: it is rounded to it, no decimal that is has less precision, and of those with as much
none is nearer. -/
structure SignedDecimal.IsBest (d : SignedDecimal) (x : Binary64) : Prop where
  rounds : d.RoundsTo x
  shortest : ∀ e : SignedDecimal, e.RoundsTo x → d.magnitude.precision ≤ e.magnitude.precision
  closest : ∀ e : SignedDecimal, e.RoundsTo x → e.magnitude.precision = d.magnitude.precision →
    ∀ q : ℚ, x.value? = some ((q : WithTop ℚ) : ExactValue) → |d.value - q| ≤ |e.value - q|

theorem SignedDecimal.read?_minus (t : Text) :
    SignedDecimal.read? (Text.minus :: t) = (Decimal.read? t).map (⟨true, ·⟩) := by
  rw [read?, show Text.after? [Text.minus] (Text.minus :: t) = some t from Text.after?_append [Text.minus] t]

/-- A text that does not start with a sign is read as a decimal without one. -/
theorem SignedDecimal.read?_of_head_ne {t : Text} (ht : t.head? ≠ some Text.minus) :
    SignedDecimal.read? t = (Decimal.read? t).map (⟨false, ·⟩) := by
  have hafter : Text.after? [Text.minus] t = none := by
    cases t with
    | nil => rfl
    | cons c t =>
      have hc : Text.minus ≠ c := fun h => ht (congrArg some h.symm)
      rw [Text.after?, if_neg hc]
  rw [read?, hafter]

theorem SignedDecimal.read?_digit {c : CodePoint} (hc : Text.isDigit c = true) (t : Text) :
    SignedDecimal.read? (c :: t) = (Decimal.read? (c :: t)).map (⟨false, ·⟩) := by
  apply read?_of_head_ne
  intro h
  cases h
  exact absurd hc (by decide)

namespace Binary64

theorem isBest_of_magnitude {d : Decimal} (s : Bool) {r : Fin rankLimit} (h : d.IsBest r.val) :
    SignedDecimal.IsBest ⟨s, d⟩ (finite s r) := by
  constructor
  case rounds => exact ⟨r, rfl, h.rounds⟩
  case shortest =>
    rintro e ⟨k, hk, he⟩
    obtain ⟨-, rfl⟩ := finite.inj hk
    exact h.shortest _ he
  case closest =>
    rintro ⟨t, e⟩ ⟨k, hk, he⟩ heq q hq
    obtain ⟨rfl, rfl⟩ := finite.inj hk
    have hvalue : signedValue s (magnitude r.val) = q := by
      rw [value?, Option.some_inj] at hq
      exact_mod_cast hq
    rw [← hvalue, SignedDecimal.value, SignedDecimal.value, abs_signedValue_sub, abs_signedValue_sub]
    exact h.closest e he heq

/-- **The text of a finite double** is laid out for the best decimal, with a sign if it is negative, and read as that. -/
theorem read?_toText_finite (s : Bool) (r : Fin rankLimit) :
    ∃ d, SignedDecimal.read? (finite s r).toText = some d ∧ d.IsBest (finite s r) ∧
      ∃ t, (finite s r).toText = (if s then [Text.minus] else []) ++ t ∧ IsLaidOut t d.magnitude.value := by
  obtain ⟨d, hread, hlaid, hbest⟩ := Decimal.read?_magnitudeText r.isLt
  refine ⟨⟨s, d⟩, ?_, isBest_of_magnitude s hbest, magnitudeText r.val, rfl, hlaid⟩
  cases s with
  | true =>
    show SignedDecimal.read? (Text.minus :: magnitudeText r.val) = _
    rw [SignedDecimal.read?_minus, hread]
    rfl
  | false =>
    obtain ⟨c, rest, hc, hdigit⟩ := hlaid.head
    show SignedDecimal.read? (magnitudeText r.val) = _
    rw [hc, SignedDecimal.read?_digit hdigit, ← hc, hread]
    rfl

theorem read?_toText_infinite (s : Bool) : SignedDecimal.read? (infinite s).toText = none := by
  cases s <;> decide

/-- Doubles that are numbers have different texts. -/
theorem toText_injective {x y : Binary64} (hx : x ≠ nan) (hy : y ≠ nan) (h : x.toText = y.toText) : x = y := by
  cases x with
  | nan => exact absurd rfl hx
  | infinite s =>
    cases y with
    | nan => exact absurd rfl hy
    | infinite t =>
      cases s <;> cases t
      · rfl
      · exact absurd h (by decide)
      · exact absurd h (by decide)
      · rfl
    | finite t q =>
      obtain ⟨d, hd, -⟩ := read?_toText_finite t q
      rw [← h, read?_toText_infinite] at hd
      cases hd
  | finite s r =>
    obtain ⟨d, hd, hbest, -⟩ := read?_toText_finite s r
    cases y with
    | nan => exact absurd rfl hy
    | infinite t =>
      rw [h, read?_toText_infinite] at hd
      cases hd
    | finite t q =>
      obtain ⟨d', hd', hbest', -⟩ := read?_toText_finite t q
      rw [← h, hd] at hd'
      cases hd'
      -- one decimal is rounded to one double
      have hx := SignedDecimal.toBinary64?_eq_some_iff.2 hbest.rounds
      rw [SignedDecimal.toBinary64?_eq_some_iff.2 hbest'.rounds] at hx
      exact (Option.some.inj hx).symm

/-! ## Bit patterns -/

/-- A bit pattern is read as its sign and the rest. -/
theorem ofBits_signBit (s : Bool) {n : Nat} (hn : n < signWeight) :
    ofBits (signBit s + n).toUInt64 =
      if h : n < rankLimit then finite s ⟨n, h⟩ else if n = rankLimit then infinite s else nan := by
  have hweight : signWeight = 2 ^ 63 := rfl
  have hsign : signBit s = if s then signWeight else 0 := rfl
  have hnat : (signBit s + n).toUInt64.toNat = signBit s + n := by
    rw [Nat.toUInt64_eq, UInt64.toNat_ofNat']
    apply Nat.mod_eq_of_lt
    rw [hsign]
    split <;> omega
  have hnegative : decide (signWeight ≤ signBit s + n) = s := by
    cases s with
    | true => exact decide_eq_true (Nat.le_add_right signWeight n)
    | false =>
      rw [hsign, if_neg Bool.false_ne_true, Nat.zero_add]
      exact decide_eq_false (not_le.2 hn)
  have hrest : (signBit s + n) % signWeight = n := by
    cases s with
    | true => exact (Nat.add_mod_left signWeight n).trans (Nat.mod_eq_of_lt hn)
    | false =>
      rw [hsign, if_neg Bool.false_ne_true, Nat.zero_add]
      exact Nat.mod_eq_of_lt hn
  unfold ofBits
  simp only [hnat, hnegative, hrest]

theorem ofBits_toBits {x : Binary64} (hx : x ≠ nan) : ofBits x.toBits = x := by
  have hlimit : rankLimit < signWeight := by decide
  cases x with
  | nan => exact absurd rfl hx
  | infinite s => rw [toBits, ofBits_signBit s hlimit, dif_neg (lt_irrefl _), if_pos rfl]
  | finite s r => rw [toBits, ofBits_signBit s (r.isLt.trans hlimit), dif_pos r.isLt]

/-- **The text of a double is an exact, shortest and injective rendering.**  Infinities have their words.  The text of a
finite double is read as the best decimal for it, from which it is recovered with its sign, and is laid out by the exponent
of its first digit.  And two doubles that are numbers have the same text just if they have the same bit pattern. -/
theorem toText_roundTrips :
    (infinite false).toText = "+Inf" ∧ (infinite true).toText = "-Inf" ∧
    (∀ (s : Bool) (r : Fin rankLimit), ∃ d, SignedDecimal.read? (finite s r).toText = some d ∧
      d.toBinary64? = some (finite s r) ∧ d.IsBest (finite s r) ∧
      ∃ t, (finite s r).toText = (if s then [Text.minus] else []) ++ t ∧ IsLaidOut t d.magnitude.value) ∧
    ∀ x y, x ≠ nan → y ≠ nan → (x.toText = y.toText ↔ x.toBits = y.toBits) := by
  refine ⟨rfl, rfl, fun s r => ?_, fun x y hx hy => ?_⟩
  · obtain ⟨d, hread, hbest, hlaid⟩ := read?_toText_finite s r
    exact ⟨d, hread, SignedDecimal.toBinary64?_eq_some_iff.2 hbest.rounds, hbest, hlaid⟩
  · constructor
    · intro h
      rw [toText_injective hx hy h]
    · intro h
      rw [← ofBits_toBits hx, h, ofBits_toBits hy]

/-- The two zeros differ in their bit patterns, and so in their texts. -/
theorem toText_roundTrips_zeros : zero ≠ nan ∧ zero.negate ≠ nan ∧ zero.toText ≠ zero.negate.toText := by
  have hzero : zero ≠ nan := by decide
  have hnegative : zero.negate ≠ nan := by decide
  refine ⟨hzero, hnegative, fun h => ?_⟩
  have hbits := (toText_roundTrips.2.2.2 zero zero.negate hzero hnegative).1 h
  exact absurd hbits (by decide)

/-- The least magnitude has one digit, and so has the second least, which the power of ten above it is rounded to. -/
example : (finite false ⟨1, by decide⟩).toText = "5e-324" ∧ (finite true ⟨2, by decide⟩).toText = "-1e-323" := by
  decide +kernel

end Binary64
end Exposition
