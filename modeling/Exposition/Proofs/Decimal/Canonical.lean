import Exposition.Proofs.Binary64.Exact
import Exposition.Proofs.Decimal.Printing
import Exposition.Proofs.Faults
import Exposition.Proofs.Text.Digits
import Exposition.Record
import Mathlib.Data.List.Induction
import Mathlib.Data.List.TakeWhile
/-!
# Canonical texts — one for each whole number, and one for each timestamp

Digits without a superfluous zero in front are those of the number that they make (`IsWhole.ofNat_digitsValue`).  With a
point and three places behind them they are the seconds of as many milliseconds (`isSeconds_iff`).  Either way a
magnitude has one text, read as exactly that magnitude.  What a sign adds does not hang on how magnitudes are written, and
neither does what is lost because numbers of too many digits have no text, so both are settled once: no two numbers share a
text (`IsExact.isCanonical`), and of all texts of the form that are not too long only a zero with a sign is not written
(`IsExact.written_iff`).
-/
namespace Exposition
namespace Text

open Decimal (digitsValue digitsValue_append digitsValue_ofNat)

theorem notMem_of_digits {t : Text} (h : t.all isDigit = true) {c : CodePoint} (hc : isDigit c = false) : c ∉ t := by
  intro hm
  rw [List.all_eq_true.1 h c hm] at hc
  cases hc

/-! ## Whole numbers -/

/-- Digits of a whole number: at least one, and zero in front only if it stands alone. -/
structure IsWhole (t : Text) : Prop where
  ne_nil : t ≠ []
  digits : t.all isDigit = true
  leading : t.head? = some zero → t = [zero]

theorem isWhole_singleton {c : CodePoint} (hc : isDigit c = true) : IsWhole [c] where
  ne_nil := List.cons_ne_nil c []
  digits := by simp [hc]
  leading := by simp

/-- One more digit behind digits of a whole number is no harm, unless they are zero. -/
theorem isWhole_append_singleton_iff {t : Text} (ht : t ≠ []) {c : CodePoint} :
    IsWhole (t ++ [c]) ↔ IsWhole t ∧ t ≠ [zero] ∧ isDigit c = true := by
  have hhead : (t ++ [c]).head? = t.head? := List.head?_append_of_ne_nil t ht
  have hlonger : t ++ [c] ≠ [zero] := fun h => by
    have hlength := congrArg List.length h
    simp [List.length_eq_zero_iff.not.2 ht] at hlength
  constructor
  · intro h
    have hdigits : t.all isDigit = true ∧ isDigit c = true := by simpa using h.digits
    have hzero : t.head? ≠ some zero := fun h0 => hlonger (h.leading (hhead.trans h0))
    refine ⟨⟨ht, hdigits.1, fun h0 => absurd h0 hzero⟩, ?_, hdigits.2⟩
    rintro rfl
    exact hzero rfl
  · rintro ⟨hw, hzero, hc⟩
    refine ⟨by simp, by simp [hw.digits, hc], fun h0 => ?_⟩
    exact absurd (hw.leading (hhead.symm.trans h0)) hzero

theorem ofNat_zero : ofNat 0 = [zero] := by decide +kernel

theorem ofNat_eq_zero {n : Nat} (h : ofNat n = [zero]) : n = 0 := by
  rw [← digitsValue_ofNat n, h]
  rfl

theorem isWhole_ofNat (n : Nat) : IsWhole (ofNat n) := by
  induction n using ofNat.induct with
  | case1 n h =>
    rw [ofNat, if_pos h]
    exact isWhole_singleton (isDigit_digit n)
  | case2 n h ih =>
    rw [ofNat, if_neg h, isWhole_append_singleton_iff ih.ne_nil]
    refine ⟨ih, fun h0 => ?_, isDigit_digit n⟩
    have := ofNat_eq_zero h0
    omega

/-- **Without a superfluous zero, digits are those of the number that they make.** -/
theorem IsWhole.ofNat_digitsValue {t : Text} (h : IsWhole t) : ofNat (digitsValue t) = t := by
  -- from the end, since `ofNat` puts its last digit behind the others
  induction t using List.reverseRecOn with
  | nil => exact absurd rfl h.ne_nil
  | append_singleton t c ih =>
    have hvalue : digitsValue (t ++ [c]) = 10 * digitsValue t + (c.val - 48) := by
      simp [digitsValue]
    by_cases ht : t = []
    · subst ht
      have hc : isDigit c = true := by simpa using h.digits
      have hsmall : digitsValue ([] ++ [c]) = c.val - 48 := by simp [digitsValue]
      have hbounds := isDigit_iff.1 hc
      rw [hsmall, ofNat, if_pos (by omega), digit_val_sub hc]
      rfl
    · obtain ⟨hw, hzero, hc⟩ := (isWhole_append_singleton_iff ht).1 h
      have hbounds := isDigit_iff.1 hc
      have hne : digitsValue t ≠ 0 := fun h0 => hzero (by rw [← ih hw, h0, ofNat_zero])
      have hdiv : (10 * digitsValue t + (c.val - 48)) / 10 = digitsValue t := by omega
      have hdigit : digit (10 * digitsValue t + (c.val - 48)) = c := by
        rw [digit_congr (Nat.mul_add_mod 10 _ _), digit_val_sub hc]
      rw [hvalue, ofNat, if_neg (by omega), hdiv, hdigit, ih hw]

theorem isWhole_iff {t : Text} : IsWhole t ↔ ∃ n, ofNat n = t := by
  constructor
  · exact fun h => ⟨_, h.ofNat_digitsValue⟩
  · rintro ⟨n, rfl⟩
    exact isWhole_ofNat n

/-! ## Seconds -/

/-- Milliseconds as whole seconds, a point and three places. -/
def secondsText (m : Nat) : Text := ofNat (m / 1000) ++ point :: threeDigits (m % 1000)

/-- Digits of a whole number, a point, and three digits. -/
def IsSeconds (t : Text) : Prop :=
  ∃ whole places : Text, t = whole ++ point :: places ∧ IsWhole whole ∧ places.length = 3 ∧ places.all isDigit = true

theorem isDigit_threeDigits (n : Nat) : (threeDigits n).all isDigit = true := by simp [threeDigits, isDigit_digit]

theorem digitsValue_threeDigits {n : Nat} (h : n < 1000) : digitsValue (threeDigits n) = n := by
  simp only [threeDigits, digitsValue, List.foldl_cons, List.foldl_nil, val_digit]
  omega

theorem threeDigits_digitsValue {t : Text} (hlength : t.length = 3) (ht : t.all isDigit = true) :
    digitsValue t < 1000 ∧ threeDigits (digitsValue t) = t := by
  obtain ⟨a, b, c, rfl⟩ := List.length_eq_three.1 hlength
  simp only [List.all_cons, List.all_nil, Bool.and_eq_true, and_true] at ht
  obtain ⟨ha, hb, hc⟩ := ht
  have ha' := isDigit_iff.1 ha
  have hb' := isDigit_iff.1 hb
  have hc' := isDigit_iff.1 hc
  generalize hn : digitsValue [a, b, c] = n
  have hvalue : n = 100 * (a.val - 48) + 10 * (b.val - 48) + (c.val - 48) := by
    simp only [← hn, digitsValue, List.foldl_cons, List.foldl_nil]
    omega
  have hfirst : digit (n / 100) = digit (a.val - 48) := digit_congr (by omega)
  have hsecond : digit (n / 10) = digit (b.val - 48) := digit_congr (by omega)
  have hthird : digit n = digit (c.val - 48) := digit_congr (by omega)
  refine ⟨by omega, ?_⟩
  rw [threeDigits, hfirst, hsecond, hthird, digit_val_sub ha, digit_val_sub hb, digit_val_sub hc]

theorem isSeconds_iff {t : Text} : IsSeconds t ↔ ∃ m, secondsText m = t := by
  constructor
  · rintro ⟨whole, places, rfl, hwhole, hlength, hplaces⟩
    obtain ⟨hlt, hthree⟩ := threeDigits_digitsValue hlength hplaces
    refine ⟨1000 * digitsValue whole + digitsValue places, ?_⟩
    have hdiv : (1000 * digitsValue whole + digitsValue places) / 1000 = digitsValue whole := by omega
    have hmod : (1000 * digitsValue whole + digitsValue places) % 1000 = digitsValue places := by omega
    rw [secondsText, hdiv, hmod, hwhole.ofNat_digitsValue, hthree]
  · rintro ⟨m, rfl⟩
    exact ⟨_, _, rfl, isWhole_ofNat _, rfl, isDigit_threeDigits _⟩

/-! ## Magnitudes -/

/-- A text that begins with no more digits than a whole number has room for. -/
def HasRoom (t : Text) : Prop := (t.takeWhile isDigit).length ≤ digitLimit

/-- A way to write magnitudes, `scale` of them making one: its texts are those of a form that has no sign in it, they have
room unless what they stand for is too much, and each is read as exactly that. -/
structure IsExact (write : Nat → Text) (IsForm : Text → Prop) (scale : Nat) : Prop where
  scale_ne_zero : scale ≠ 0 := by decide
  form_iff : ∀ t, IsForm t ↔ ∃ m, write m = t
  unsigned : ∀ m, minus ∉ write m
  room_iff : ∀ m, HasRoom (write m) ↔ m / scale < 10 ^ digitLimit
  read : ∀ m, ∃ d, Decimal.read? (write m) = some d ∧ d.value = m / scale

theorem isExact_ofNat : IsExact ofNat IsWhole 1 where
  form_iff := fun _ => isWhole_iff
  unsigned := fun m => notMem_of_digits (isDigit_ofNat m) (by decide)
  room_iff := fun m => by
    have hdigits : (ofNat m).takeWhile isDigit = ofNat m :=
      List.takeWhile_eq_self_iff.2 (List.all_eq_true.1 (isDigit_ofNat m))
    rw [HasRoom, hdigits, Nat.div_one, length_ofNat_le_iff (by decide)]
  read := fun m => by
    have hread := Decimal.read?_onlyDigits (ofNat_ne_nil m) (isDigit_ofNat m)
    rw [digitsValue_ofNat] at hread
    exact ⟨_, hread, by simp [Decimal.value]⟩

theorem isExact_secondsText : IsExact secondsText IsSeconds 1000 where
  form_iff := fun _ => isSeconds_iff
  unsigned := fun m => by
    have hwhole : minus ∉ ofNat (m / 1000) := notMem_of_digits (isDigit_ofNat _) (by decide)
    have hplaces : minus ∉ threeDigits (m % 1000) := notMem_of_digits (isDigit_threeDigits _) (by decide)
    have hpoint : minus ≠ point := by decide
    simp [secondsText, hwhole, hplaces, hpoint]
  room_iff := fun m => by
    have hpoint : ¬isDigit point = true := by decide
    have hdigits : (secondsText m).takeWhile isDigit = ofNat (m / 1000) := by
      rw [secondsText, List.takeWhile_append_of_pos (List.all_eq_true.1 (isDigit_ofNat _)),
        List.takeWhile_cons_of_neg hpoint, List.append_nil]
    rw [HasRoom, hdigits, length_ofNat_le_iff (by decide)]
  read := fun m => by
    have hthree : (threeDigits (m % 1000)).length = 3 := rfl
    have hne : threeDigits (m % 1000) ≠ [] := List.cons_ne_nil _ _
    have hvalue : digitsValue (ofNat (m / 1000) ++ threeDigits (m % 1000)) = m := by
      rw [digitsValue_append, digitsValue_ofNat, digitsValue_threeDigits (Nat.mod_lt m (by decide)), hthree]
      omega
    obtain ⟨-, hread⟩ := Decimal.positional_parts (ofNat_ne_nil (m / 1000)) hne (isDigit_ofNat _) (isDigit_threeDigits _)
    rw [hvalue, hthree] at hread
    refine ⟨_, hread, ?_⟩
    rw [Decimal.value, Nat.cast_ofNat, zpow_neg]
    norm_num [div_eq_mul_inv]

/-! ## Signs -/

/-- A number by its magnitude, behind a sign if it is negative. -/
def withSign (write : Nat → Text) (n : Int) : Text := (if n < 0 then [minus] else []) ++ write n.natAbs

theorem ofMilliseconds_eq (t : Int) : ofMilliseconds t = withSign secondsText t := rfl

theorem ofInt_eq (n : Int) : ofInt n = withSign ofNat n := by
  unfold ofInt withSign
  split <;> rfl

theorem withSign_natCast (write : Nat → Text) (m : Nat) : withSign write m = write m := by simp [withSign]

theorem withSign_of_neg (write : Nat → Text) {n : Int} (hn : n < 0) : withSign write n = minus :: write n.natAbs := by
  simp [withSign, hn]

/-- What a way to write whole numbers, `scale` of them making one, does with a number.  There is a text just if the number is
not of too many digits, and else a fault.  The text has a form for the magnitude, a sign just if the number is negative, is
read as exactly the number and is the text of no other. -/
structure IsCanonical (write : Int → Except Fault Text) (IsForm : Text → Prop) (scale : Nat) (n : Int) : Prop where
  text_iff : (∃ s, write n = .ok s) ↔ n.natAbs / scale < 10 ^ digitLimit
  fault : ∀ e, write n = .error e → e = .tooManyDigits
  form : ∀ s, write n = .ok s → ∃ t, IsForm t ∧ s = (if n < 0 then [minus] else []) ++ t
  sign : ∀ s, write n = .ok s → (minus ∈ s ↔ n < 0)
  read : ∀ s, write n = .ok s →
    ∃ d, SignedDecimal.read? s = some d ∧ d.negative = decide (n < 0) ∧ d.value * scale = n
  injective : ∀ m s, write m = .ok s → write n = .ok s → m = n

namespace IsExact

variable {write : Nat → Text} {IsForm : Text → Prop} {scale : Nat}

theorem minus_mem_withSign_iff (h : IsExact write IsForm scale) (n : Int) : minus ∈ withSign write n ↔ n < 0 := by
  have hunsigned := h.unsigned n.natAbs
  by_cases hn : n < 0
  · simp [withSign, hn]
  · simp [withSign, hn, hunsigned]

/-- Behind the sign stands what is read as the magnitude. -/
theorem read?_withSign (h : IsExact write IsForm scale) (n : Int) :
    ∃ d, SignedDecimal.read? (withSign write n) = some d ∧ d.negative = decide (n < 0) ∧ d.value * scale = n := by
  obtain ⟨d, hread, hvalue⟩ := h.read n.natAbs
  refine ⟨⟨n < 0, d⟩, ?_, rfl, ?_⟩
  · by_cases hn : n < 0
    · simp [withSign_of_neg write hn, SignedDecimal.read?_minus, hread, hn]
    · have hhead : (write n.natAbs).head? ≠ some minus := fun hhead => h.unsigned n.natAbs (List.mem_of_head? hhead)
      simp [withSign, hn, SignedDecimal.read?_of_head_ne hhead, hread]
  · rw [SignedDecimal.value, hvalue, Binary64.signedValue_natAbs_div, div_mul_cancel₀ _ (Nat.cast_ne_zero.2 h.scale_ne_zero)]

/-- What is read tells numbers apart. -/
theorem withSign_injective (h : IsExact write IsForm scale) :
    Function.Injective (withSign write) := by
  intro m n hmn
  obtain ⟨d, hd, -, hm⟩ := h.read?_withSign m
  obtain ⟨e, he, -, hn⟩ := h.read?_withSign n
  rw [hmn, he] at hd
  cases hd
  exact_mod_cast hm.symm.trans hn

/-- Texts of the form that have room are written, with a sign and without, but for zero with a sign. -/
theorem exists_withSign_iff (h : IsExact write IsForm scale) (s : Text) :
    (∃ n : Int, n.natAbs / scale < 10 ^ digitLimit ∧ withSign write n = s) ↔
      (∃ t, IsForm t ∧ HasRoom t ∧ (s = t ∨ s = minus :: t)) ∧ s ≠ minus :: withSign write 0 := by
  constructor
  · rintro ⟨n, hroom, rfl⟩
    have hform : IsForm (write n.natAbs) := (h.form_iff _).2 ⟨_, rfl⟩
    have hroom : HasRoom (write n.natAbs) := (h.room_iff _).2 hroom
    by_cases hn : n < 0
    · rw [withSign_of_neg write hn]
      refine ⟨⟨_, hform, hroom, .inr rfl⟩, fun hzero => ?_⟩
      have hsame : withSign write (n.natAbs : Int) = withSign write 0 := by
        rw [withSign_natCast]
        exact (List.cons.inj hzero).2
      have := h.withSign_injective hsame
      omega
    · refine ⟨⟨_, hform, hroom, .inl (by simp [withSign, hn])⟩, fun hzero => hn ?_⟩
      rw [← h.minus_mem_withSign_iff, hzero]
      exact List.mem_cons_self
  · rintro ⟨⟨t, ht, hroom, hs⟩, hzero⟩
    obtain ⟨m, rfl⟩ := (h.form_iff t).1 ht
    rw [h.room_iff] at hroom
    rcases hs with rfl | rfl
    · exact ⟨m, hroom, withSign_natCast write m⟩
    · have hm : m ≠ 0 := by
        rintro rfl
        exact hzero rfl
      refine ⟨-m, ?_, ?_⟩
      · rwa [Int.natAbs_neg, Int.natAbs_natCast]
      · rw [withSign_of_neg write (by omega), Int.natAbs_neg, Int.natAbs_natCast]

section Limited

variable {writeInt : Int → Except Fault Text}
  (hwrite : ∀ n s, writeInt n = .ok s ↔ n.natAbs / scale < 10 ^ digitLimit ∧ withSign write n = s)

include hwrite

/-- **A sign in front of exact texts leaves them exact**, and a number has its text unless that is too long. -/
theorem isCanonical (h : IsExact write IsForm scale) (hfault : ∀ n e, writeInt n = .error e → e = .tooManyDigits)
    (n : Int) : IsCanonical writeInt IsForm scale n where
  text_iff := by
    constructor
    · rintro ⟨s, hs⟩
      exact ((hwrite n s).1 hs).1
    · intro hroom
      exact ⟨_, (hwrite n _).2 ⟨hroom, rfl⟩⟩
  fault := hfault n
  form := by
    intro s hs
    obtain ⟨-, rfl⟩ := (hwrite n s).1 hs
    exact ⟨write n.natAbs, (h.form_iff _).2 ⟨_, rfl⟩, rfl⟩
  sign := by
    intro s hs
    obtain ⟨-, rfl⟩ := (hwrite n s).1 hs
    exact h.minus_mem_withSign_iff n
  read := by
    intro s hs
    obtain ⟨-, rfl⟩ := (hwrite n s).1 hs
    exact h.read?_withSign n
  injective := by
    intro m s hm hn
    exact h.withSign_injective (((hwrite m s).1 hm).2.trans ((hwrite n s).1 hn).2.symm)

/-- **Every text of the form that has room is written**, with a sign and without, but for zero with a sign. -/
theorem written_iff (h : IsExact write IsForm scale) (s : Text) : (∃ n, writeInt n = .ok s) ↔
    (∃ t, IsForm t ∧ HasRoom t ∧ (s = t ∨ s = minus :: t)) ∧ s ≠ minus :: withSign write 0 := by
  simp only [hwrite]
  exact h.exists_withSign_iff s

end Limited

end IsExact
end Text

open Text (IsCanonical IsWhole IsSeconds HasRoom minus)

theorem countText_eq_ok_iff (n : Int) (s : Text) :
    countText n = .ok s ↔ n.natAbs / 1 < 10 ^ Text.digitLimit ∧ Text.withSign Text.ofNat n = s := by
  rw [countText, orFault_eq_ok_iff, Text.ofInt?_eq_some_iff, Nat.div_one, Text.ofInt_eq]

theorem timeText_eq_ok_iff (t : Int) (s : Text) :
    timeText t = .ok s ↔ t.natAbs / 1000 < 10 ^ Text.digitLimit ∧ Text.withSign Text.secondsText t = s := by
  rw [timeText, orFault_eq_ok_iff, Text.ofMilliseconds?_eq_some_iff, Text.ofMilliseconds_eq]

/-- **Timestamps are exact and canonical**, and whole numbers are, as far as they have a text, which is up to a number of
digits: a sign just if the number is negative, digits without a superfluous zero, and for a timestamp a point and three digits
more.  Each is read as exactly its number, in seconds if it is a timestamp, and no two numbers have one text.  A timestamp
less than a second below zero keeps its sign, zero never has one, and all other texts of the form are those of numbers. -/
theorem timeText_canonical (t : Int) :
    IsCanonical timeText IsSeconds 1000 t ∧ IsCanonical countText IsWhole 1 t ∧
    timeText t ≠ .ok "-0.000" ∧ timeText (-1) = .ok "-0.001" ∧
    (∀ s, (∃ n, timeText n = .ok s) ↔
      (∃ r, IsSeconds r ∧ HasRoom r ∧ (s = r ∨ s = minus :: r)) ∧ s ≠ "-0.000") ∧
    ∀ s, (∃ n, countText n = .ok s) ↔ (∃ r, IsWhole r ∧ HasRoom r ∧ (s = r ∨ s = minus :: r)) ∧ s ≠ "-0" := by
  have hone : timeText (-1) = .ok "-0.001" := by decide +kernel
  have htime : ∀ s, (∃ n, timeText n = .ok s) ↔
      (∃ r, IsSeconds r ∧ HasRoom r ∧ (s = r ∨ s = minus :: r)) ∧ s ≠ "-0.000" := by
    have hzero : minus :: Text.withSign Text.secondsText 0 = "-0.000" := by decide +kernel
    exact fun s => hzero ▸ Text.isExact_secondsText.written_iff timeText_eq_ok_iff s
  have hcount : ∀ s, (∃ n, countText n = .ok s) ↔
      (∃ r, IsWhole r ∧ HasRoom r ∧ (s = r ∨ s = minus :: r)) ∧ s ≠ "-0" := by
    have hzero : minus :: Text.withSign Text.ofNat 0 = "-0" := by decide +kernel
    exact fun s => hzero ▸ Text.isExact_ofNat.written_iff countText_eq_ok_iff s
  refine ⟨Text.isExact_secondsText.isCanonical timeText_eq_ok_iff (fun n e he => (orFault_eq_error_iff.1 he).2) t,
    Text.isExact_ofNat.isCanonical countText_eq_ok_iff (fun n e he => (orFault_eq_error_iff.1 he).2) t,
    fun ht => ?_, hone, htime, hcount⟩
  exact ((htime _).1 ⟨t, ht⟩).2 rfl

/-- The first numbers without a text. -/
theorem timeText_tooManyDigits :
    countText ((10 ^ Text.digitLimit : Nat) : Int) = .error .tooManyDigits ∧
      timeText ((10 ^ Text.digitLimit * 1000 : Nat) : Int) = .error .tooManyDigits := by
  constructor
  · rw [countText, Text.ofInt?_eq_none_iff.2 (by rw [Int.natAbs_natCast])]
    rfl
  · rw [timeText, Text.ofMilliseconds?_eq_none_iff.2 (by rw [Int.natAbs_natCast, Nat.mul_div_cancel _ (by decide)])]
    rfl

/-- The places are filled up with zeros, and a full thousand is carried. -/
example : timeText (-1999) = .ok "-1.999" ∧ timeText (-2000) = .ok "-2.000" ∧ timeText (-2007) = .ok "-2.007" := by
  decide +kernel

end Exposition
