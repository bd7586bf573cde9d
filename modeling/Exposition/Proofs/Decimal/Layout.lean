import Exposition.Proofs.Decimal.Shortest
import Exposition.Proofs.Text.Words
import Mathlib.Data.Int.Log
import Mathlib.Data.Rat.Floor
/-!
# Layouts — a decimal is read back from either of its layouts

A text with a point in its place and one with an exponent are told apart by what ends their first run of digits.  Either way
the digits are read as one whole number, and the exponent makes up for those behind the point, so the value is the one that
was written (`read?_toText`).
-/
namespace Exposition

namespace Text

theorem isDigit_ofNat (n : Nat) : (ofNat n).all isDigit = true := by
  unfold ofNat
  split
  · rw [List.all_cons, isDigit_digit]
    rfl
  · rw [List.all_append, isDigit_ofNat (n / 10), List.all_cons, isDigit_digit]
    rfl

theorem length_ofNat {n : Nat} (hn : n ≠ 0) : (ofNat n).length = Decimal.length n := by
  unfold ofNat
  rw [Decimal.length, Nat.digits_def' (by decide) (Nat.pos_of_ne_zero hn), List.length_cons]
  split
  · rename_i h
    rw [Nat.div_eq_of_lt h, Nat.digits_zero]
    rfl
  · rw [List.length_append, length_ofNat (n := n / 10) (by omega), Decimal.length]
    rfl

end Text

namespace Decimal

open Text

/-! ## Digits -/

theorem foldl_digits (t : Text) :
    ∀ n : Nat, t.foldl (fun n c => 10 * n + (c.val - 48)) n = n * 10 ^ t.length + digitsValue t := by
  induction t with
  | nil =>
    intro n
    exact (Nat.mul_one n).symm
  | cons c t ih =>
    intro n
    rw [digitsValue, List.foldl_cons, List.foldl_cons, ih, ih (10 * 0 + _), List.length_cons, Nat.pow_succ]
    ring

theorem digitsValue_append (s t : Text) : digitsValue (s ++ t) = digitsValue s * 10 ^ t.length + digitsValue t := by
  rw [digitsValue, List.foldl_append, foldl_digits]
  rfl

theorem digitsValue_ofNat (n : Nat) : digitsValue (ofNat n) = n := by
  have hdigit : ∀ d : Nat, digitsValue [digit d] = d % 10 := by
    intro d
    show 10 * 0 + ((digit d).val - 48) = d % 10
    rw [val_digit]
    omega
  unfold ofNat
  split
  · rename_i h
    rw [hdigit, Nat.mod_eq_of_lt h]
  · rw [digitsValue_append, digitsValue_ofNat (n / 10), hdigit, List.length_singleton]
    omega

theorem digitsValue_zeros (n : Nat) : digitsValue (zeros n) = 0 := by
  induction n with
  | zero => rfl
  | succ n ih =>
    rw [zeros, List.replicate_succ', digitsValue_append, ← zeros, ih]
    rfl

theorem isDigit_zeros (n : Nat) : (zeros n).all isDigit = true := by
  apply List.all_eq_true.2
  intro c hc
  rw [List.eq_of_mem_replicate hc]
  decide

/-! ## Reading -/

section Reading

variable {whole places rest : Text}

theorem splitAtFirst_digits (h : whole.all isDigit = true) {c : CodePoint} (hc : isDigit c = false) :
    splitAtFirst (fun c => !isDigit c) (whole ++ c :: rest) = (whole, c :: rest) := by
  refine splitAtFirst_append (fun d hd => ?_) ?_ rest
  · rw [List.all_eq_true.1 h d hd]
    rfl
  · rw [hc]
    rfl

theorem splitAtFirst_onlyDigits (h : whole.all isDigit = true) :
    splitAtFirst (fun c => !isDigit c) whole = (whole, []) := by
  refine splitAtFirst_all (fun d hd => ?_)
  rw [List.all_eq_true.1 h d hd]
  rfl

theorem isDigit_letterE : isDigit letterE = false := by decide

theorem isDigit_point : isDigit point = false := by decide

/-- Digits on either side of a point, and perhaps an exponent behind them. -/
theorem read?_point (hw : whole ≠ []) (hp : places ≠ []) (hw' : whole.all isDigit = true) (hp' : places.all isDigit = true)
    (hrest : rest = [] ∨ ∃ r, rest = letterE :: r) :
    read? (whole ++ point :: (places ++ rest)) =
      (readExponent? rest).map (fun e => ⟨digitsValue (whole ++ places), e - places.length⟩) := by
  have hsplit : splitAtFirst (fun c => !isDigit c) (places ++ rest) = (places, rest) := by
    rcases hrest with rfl | ⟨r, rfl⟩
    · rw [List.append_nil]
      exact splitAtFirst_onlyDigits hp'
    · exact splitAtFirst_digits hp' isDigit_letterE
  unfold read?
  simp only [splitAtFirst_digits hw' isDigit_point, hsplit, if_neg hw, if_neg hp, if_true]

/-- Digits alone. -/
theorem read?_onlyDigits (hw : whole ≠ []) (hw' : whole.all isDigit = true) :
    read? whole = some ⟨digitsValue whole, 0⟩ := by
  unfold read?
  simp only [splitAtFirst_onlyDigits hw', if_neg hw]

/-- Digits and an exponent, without a point. -/
theorem read?_noPoint (hw : whole ≠ []) (hw' : whole.all isDigit = true) (r : Text) :
    read? (whole ++ letterE :: r) = (readExponent? (letterE :: r)).map (fun e => ⟨digitsValue whole, e⟩) := by
  have hne : letterE ≠ point := by decide
  unfold read?
  simp only [splitAtFirst_digits hw' isDigit_letterE, if_neg hw, if_neg hne]

end Reading

/-- The digits of an exponent: at least two. -/
def exponentDigits (e : Int) : Text := (if e.natAbs < 10 then [zero] else []) ++ ofNat e.natAbs

theorem exponentText_eq (e : Int) : exponentText e = (if e < 0 then minus else plus) :: exponentDigits e := rfl

theorem isDigit_exponentDigits (e : Int) : (exponentDigits e).all isDigit = true := by
  have hpad : (if e.natAbs < 10 then [zero] else []).all isDigit = true := by split <;> decide
  rw [exponentDigits, List.all_append, hpad, isDigit_ofNat]
  rfl

theorem two_le_length_exponentDigits (e : Int) : 2 ≤ (exponentDigits e).length := by
  rw [exponentDigits, List.length_append]
  split
  · have hpos := List.length_pos_iff.2 (ofNat_ne_nil e.natAbs)
    rw [List.length_singleton]
    omega
  · rename_i h
    have hlength : 1 < length e.natAbs := lt_length_iff.2 (by omega)
    rw [length_ofNat (by omega)]
    omega

theorem digitsValue_exponentDigits (e : Int) : digitsValue (exponentDigits e) = e.natAbs := by
  have hpad : digitsValue (if e.natAbs < 10 then [zero] else []) = 0 := by split <;> decide
  rw [exponentDigits, digitsValue_append, hpad, digitsValue_ofNat]
  omega

theorem readDigits?_exponentDigits (e : Int) : readDigits? (exponentDigits e) = some e.natAbs := by
  have hne : exponentDigits e ≠ [] := by
    intro h
    have hlength := two_le_length_exponentDigits e
    rw [h] at hlength
    exact absurd hlength (by decide)
  rw [readDigits?, if_pos ⟨hne, isDigit_exponentDigits e⟩, digitsValue_exponentDigits]

theorem readExponent?_exponentText (e : Int) : readExponent? (letterE :: exponentText e) = some e := by
  have hne : plus ≠ minus := by decide
  have hself : ¬letterE ≠ letterE := fun h => h rfl
  rw [exponentText_eq, readExponent?, if_neg hself]
  by_cases h : e < 0
  · have habs : -(e.natAbs : Int) = e := by omega
    simp only [if_pos h, if_true]
    rw [readDigits?_exponentDigits]
    exact congrArg some habs
  · have habs : (e.natAbs : Int) = e := by omega
    simp only [if_neg h, if_neg hne, if_true]
    rw [readDigits?_exponentDigits]
    exact congrArg some habs

/-! ## Layouts -/

/-- Digits, a point, and digits again, with at least one on either side. -/
def IsPositional (t : Text) : Prop :=
  ∃ whole places : Text, t = whole ++ point :: places ∧ whole ≠ [] ∧ places ≠ [] ∧ whole.all isDigit = true ∧
    places.all isDigit = true

/-- One digit, perhaps a point and more digits, and behind the letter the exponent: a sign and at least two digits. -/
def IsScientific (t : Text) (e : Int) : Prop :=
  ∃ c fraction sign digits, t = c :: (fraction ++ letterE :: sign :: digits) ∧ isDigit c = true ∧
    (fraction = [] ∨ ∃ places : Text, fraction = point :: places ∧ places ≠ [] ∧ places.all isDigit = true) ∧
    (sign = minus ∧ e = -(digitsValue digits : Int) ∨ sign = plus ∧ e = digitsValue digits) ∧
    2 ≤ digits.length ∧ digits.all isDigit = true

/-- Digits with a point between them are positional, and read as the whole number of all digits. -/
theorem positional_parts {whole places : Text} (hw : whole ≠ []) (hp : places ≠ []) (hw' : whole.all isDigit = true)
    (hp' : places.all isDigit = true) :
    IsPositional (whole ++ point :: places) ∧
      read? (whole ++ point :: places) = some ⟨digitsValue (whole ++ places), -(places.length : ℤ)⟩ := by
  refine ⟨⟨whole, places, rfl, hw, hp, hw', hp'⟩, ?_⟩
  have h := read?_point hw hp hw' hp' (.inl rfl)
  rw [List.append_nil] at h
  rw [h, readExponent?, Option.map_some, zero_sub]

/-- Digits whose first one has the exponent `e` are laid out with a point, and read as the number that they make. -/
def ReadsPositional (t : Text) (e : Int) : Prop :=
  IsPositional (positional t e) ∧
    ∃ d, read? (positional t e) = some d ∧ d.value = digitsValue t * 10 ^ (e + 1 - t.length)

section Positional

variable {t : Text} (ht : t.all isDigit = true) (hne : t ≠ []) {e : Int}
include ht hne

/-- A number below one: zeros stand before its digits. -/
theorem readsPositional_of_neg (he : e < 0) : ReadsPositional t e := by
  have hplaces : (zeros (-e - 1).toNat ++ t).all isDigit = true := by
    rw [List.all_append, isDigit_zeros, ht]
    rfl
  obtain ⟨hshape, hread⟩ := positional_parts (List.cons_ne_nil zero [])
    (List.append_ne_nil_of_right_ne_nil _ hne) (by decide) hplaces
  have hvalue : digitsValue ([zero] ++ (zeros (-e - 1).toNat ++ t)) = digitsValue t := by
    rw [digitsValue_append, digitsValue_append, digitsValue_zeros]
    show 0 * _ + _ = _
    omega
  have hexp : -((zeros (-e - 1).toNat ++ t).length : ℤ) = e + 1 - t.length := by
    rw [List.length_append, zeros, List.length_replicate]
    omega
  rw [hvalue, hexp] at hread
  rw [ReadsPositional, positional, if_pos he]
  exact ⟨hshape, _, hread, rfl⟩

/-- A whole number: zeros stand behind its digits, and one more behind the point. -/
theorem readsPositional_of_length_le (he : ¬e < 0) (hle : t.length ≤ e.toNat + 1) : ReadsPositional t e := by
  have hwhole : (t ++ zeros (e.toNat + 1 - t.length)).all isDigit = true := by
    rw [List.all_append, isDigit_zeros, ht]
    rfl
  obtain ⟨hshape, hread⟩ := positional_parts (List.append_ne_nil_of_left_ne_nil hne _) (List.cons_ne_nil zero []) hwhole
    (by decide)
  have hexp : e + 1 - t.length = ((e.toNat + 1 - t.length : Nat) : ℤ) + 0 := by omega
  rw [ReadsPositional, positional, if_neg he]
  simp only [if_pos hle]
  refine ⟨hshape, _, hread, ?_⟩
  rw [hexp, ten_zpow_add, value, digitsValue_append, digitsValue_append, digitsValue_zeros, zeros, List.length_replicate,
    List.length_singleton, show digitsValue [zero] = 0 from rfl, zpow_neg]
  push_cast
  field_simp
  ring

omit hne in
/-- Any other number: the point stands between two of its digits. -/
theorem readsPositional_of_lt_length (he : ¬e < 0) (hlt : e.toNat + 1 < t.length) : ReadsPositional t e := by
  have hwhole : (t.take (e.toNat + 1)).all isDigit = true :=
    List.all_eq_true.2 fun c hc => List.all_eq_true.1 ht c (List.mem_of_mem_take hc)
  have hplaces : (t.drop (e.toNat + 1)).all isDigit = true :=
    List.all_eq_true.2 fun c hc => List.all_eq_true.1 ht c (List.mem_of_mem_drop hc)
  have hlength : (t.drop (e.toNat + 1)).length = t.length - (e.toNat + 1) := List.length_drop
  obtain ⟨hshape, hread⟩ := positional_parts (List.ne_nil_of_length_pos (by rw [List.length_take]; omega))
    (List.ne_nil_of_length_pos (by omega)) hwhole hplaces
  have hexp : -((t.length - (e.toNat + 1) : Nat) : ℤ) = e + 1 - t.length := by omega
  rw [List.take_append_drop, hlength, hexp] at hread
  rw [ReadsPositional, positional, if_neg he]
  simp only [if_neg (not_le.2 hlt)]
  exact ⟨hshape, _, hread, rfl⟩

end Positional

theorem readsPositional_ofNat (n : Nat) (e : Int) : ReadsPositional (ofNat n) e := by
  have hdigits := isDigit_ofNat n
  have hne := ofNat_ne_nil n
  by_cases he : e < 0
  · exact readsPositional_of_neg hdigits hne he
  · rcases Nat.lt_or_ge (e.toNat + 1) (ofNat n).length with hlt | hle
    · exact readsPositional_of_lt_length hdigits he hlt
    · exact readsPositional_of_length_le hdigits hne he hle

theorem scientific_spec (n : Nat) (e : Int) :
    IsScientific (scientific (ofNat n) e) e ∧
      ∃ d, read? (scientific (ofNat n) e) = some d ∧ d.value = n * 10 ^ (e + 1 - (ofNat n).length) := by
  have hdigits := isDigit_ofNat n
  have hvalue := digitsValue_ofNat n
  have hsign : ((if e < 0 then minus else plus) = minus ∧ e = -(digitsValue (exponentDigits e) : Int)) ∨
      ((if e < 0 then minus else plus) = plus ∧ e = digitsValue (exponentDigits e)) := by
    rw [digitsValue_exponentDigits]
    split
    · exact .inl ⟨rfl, by omega⟩
    · exact .inr ⟨rfl, by omega⟩
  unfold scientific
  cases hn : ofNat n with
  | nil => exact absurd hn (ofNat_ne_nil n)
  | cons c cs =>
    rw [hn] at hvalue
    rw [hn, List.all_cons, Bool.and_eq_true] at hdigits
    cases cs with
    | nil =>
      refine ⟨⟨c, [], _, _, rfl, hdigits.1, .inl rfl, hsign, two_le_length_exponentDigits e, isDigit_exponentDigits e⟩, ?_⟩
      have hread := read?_noPoint (List.cons_ne_nil c []) (List.all_cons.trans (by rw [hdigits.1]; rfl)) (exponentText e)
      rw [readExponent?_exponentText, Option.map_some, hvalue] at hread
      refine ⟨_, hread, ?_⟩
      rw [value, List.length_singleton, Nat.cast_one, add_sub_cancel_right]
    | cons c' cs =>
      refine ⟨⟨c, point :: c' :: cs, _, _, rfl, hdigits.1, .inr ⟨_, rfl, List.cons_ne_nil _ _, hdigits.2⟩, hsign,
        two_le_length_exponentDigits e, isDigit_exponentDigits e⟩, ?_⟩
      have hread := read?_point (List.cons_ne_nil c []) (List.cons_ne_nil c' cs)
        (List.all_cons.trans (by rw [hdigits.1]; rfl)) hdigits.2 (.inr ⟨exponentText e, rfl⟩)
      have hall : digitsValue ([c] ++ c' :: cs) = n := hvalue
      have hexp : e - ((c' :: cs).length : ℤ) = e + 1 - (c :: c' :: cs).length := by
        simp only [List.length_cons]
        omega
      rw [readExponent?_exponentText, Option.map_some, hall, hexp] at hread
      exact ⟨_, hread, rfl⟩

/-- The exponent of the first digit. -/
theorem log_value {d : Decimal} (h : d.significand ≠ 0) : Int.log 10 d.value = d.leadingExponent := by
  have hlength := length_pos h
  have hlower : 10 ^ (length d.significand - 1) ≤ d.significand := lt_length_iff.1 (by omega)
  have hupper : d.significand < 10 ^ length d.significand := length_le_iff.1 le_rfl
  have hpos : 0 < d.value := mul_pos (Nat.cast_pos.2 (Nat.pos_of_ne_zero h)) (ten_zpow_pos _)
  have hlead : d.leadingExponent = ((length d.significand - 1 : Nat) : ℤ) + d.exponent := by
    rw [leadingExponent, length_ofNat h]
    omega
  have hnext : d.leadingExponent + 1 = (length d.significand : ℤ) + d.exponent := by omega
  apply le_antisymm
  · refine Int.lt_add_one_iff.1 ((Int.lt_zpow_iff_log_lt (b := 10) (by decide) hpos).1 ?_)
    rw [hnext, Nat.cast_ofNat, ten_zpow_add]
    exact mul_lt_mul_of_pos_right (Nat.cast_lt.2 hupper) (ten_zpow_pos _)
  · refine (Int.zpow_le_iff_le_log (b := 10) (by decide) hpos).1 ?_
    rw [hlead, Nat.cast_ofNat, ten_zpow_add]
    exact mul_le_mul_of_nonneg_right (Nat.cast_le.2 hlower) (ten_zpow_pos _).le

/-- The layout for a number: positional if its first digit stands for between a ten-thousandth and ten to the fifteenth, and
otherwise with an exponent. -/
def IsLaidOut (t : Text) (q : ℚ) : Prop :=
  if -4 ≤ Int.log 10 q ∧ Int.log 10 q ≤ 15 then IsPositional t else IsScientific t (Int.log 10 q)

theorem IsLaidOut.head {t : Text} {q : ℚ} (h : IsLaidOut t q) : ∃ c rest, t = c :: rest ∧ isDigit c = true := by
  unfold IsLaidOut at h
  split at h
  · obtain ⟨whole, places, rfl, hw, -, hdigits, -⟩ := h
    obtain ⟨c, cs, rfl⟩ := List.exists_cons_of_ne_nil hw
    rw [List.all_cons, Bool.and_eq_true] at hdigits
    exact ⟨c, _, rfl, hdigits.1⟩
  · obtain ⟨c, fraction, sign, digits, rfl, hc, -⟩ := h
    exact ⟨c, _, rfl, hc⟩

/-- **A decimal is laid out by its first digit, and its text is read as its value.** -/
theorem read?_toText {d : Decimal} (h : d.significand ≠ 0) :
    IsLaidOut d.toText d.value ∧ ∃ d', read? d.toText = some d' ∧ d'.value = d.value := by
  have hexp : d.leadingExponent + 1 - (ofNat d.significand).length = d.exponent := by
    rw [leadingExponent]
    omega
  obtain ⟨hpositional, hreadP⟩ := readsPositional_ofNat d.significand d.leadingExponent
  obtain ⟨hscientific, hreadS⟩ := scientific_spec d.significand d.leadingExponent
  rw [digitsValue_ofNat, hexp] at hreadP
  rw [hexp] at hreadS
  have hrange : (-4 ≤ d.leadingExponent ∧ d.leadingExponent ≤ 15) ↔
      (positionalFrom ≤ d.leadingExponent ∧ d.leadingExponent < positionalBelow) := by
    unfold positionalFrom positionalBelow
    omega
  unfold IsLaidOut toText
  rw [log_value h]
  simp only [hrange]
  split
  · exact ⟨hpositional, hreadP⟩
  · exact ⟨hscientific, hreadS⟩

end Decimal
end Exposition
