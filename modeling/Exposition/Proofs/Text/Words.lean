import Exposition.Record.Reader
/-!
# Words — texts that end where the next character says so

A *name* has none of the characters that give a document its structure, and a *numeral* has only ASCII characters above
the number sign.  Numbers and times are written as numerals.  Whoever reads a name or a numeral up to the character that
ends it gets the whole of it, and writing a numeral as UTF-8 loses nothing.
-/
namespace Exposition
namespace Text

def numberSign : CodePoint := .ofChar '#'

/-- The characters that give a document its structure: space, line feed, number sign, braces, equals sign, double quote
and comma. -/
def reserved : Text :=
  [space, lineFeed, numberSign, openingBrace, Labels.closingBrace, Labels.equalsSign, quote, Labels.comma]

def isName (t : Text) : Bool := t.all (fun c => !reserved.contains c)

/-- ASCII characters that come after the number sign. -/
def isFigure (c : CodePoint) : Bool := 35 < c.val && c.val < 127

def isNumeral (t : Text) : Bool := t.all isFigure

theorem isName_append (s t : Text) : isName (s ++ t) = (isName s && isName t) := List.all_append

theorem isNumeral_append (s t : Text) : isNumeral (s ++ t) = (isNumeral s && isNumeral t) := List.all_append

theorem isNumeral_cons (c : CodePoint) (t : Text) : isNumeral (c :: t) = (isFigure c && isNumeral t) := List.all_cons

theorem notMem_of_isName {t : Text} (h : isName t = true) {c : CodePoint} (hc : c ∈ reserved) : c ∉ t := by
  intro hm
  have := List.all_eq_true.1 h c hm
  simp [hc] at this

theorem notMem_of_isNumeral {t : Text} (h : isNumeral t = true) {c : CodePoint} (hc : isFigure c = false) : c ∉ t := by
  intro hm
  rw [List.all_eq_true.1 h c hm] at hc
  cases hc

/-! ## Reading up to an end -/

theorem after?_append : ∀ (s t : Text), after? s (s ++ t) = some t
  | [], _ => rfl
  | c :: s, t => by
    rw [List.cons_append, after?, if_pos rfl]
    exact after?_append s t

theorem splitAtFirst_append {stop : CodePoint → Bool} {t : Text} (h : ∀ c ∈ t, stop c = false) {d : CodePoint}
    (hd : stop d = true) (rest : Text) : splitAtFirst stop (t ++ d :: rest) = (t, d :: rest) := by
  have hp : ∀ c ∈ t, (fun c => !stop c) c = true := fun c hc => by simp [h c hc]
  unfold splitAtFirst
  rw [List.takeWhile_append_of_pos hp, List.dropWhile_append_of_pos hp]
  simp [hd]

theorem splitAtFirst_all {stop : CodePoint → Bool} {t : Text} (h : ∀ c ∈ t, stop c = false) :
    splitAtFirst stop t = (t, []) := by
  have hp : ∀ c ∈ t, (fun c => !stop c) c = true := fun c hc => by simp [h c hc]
  have h1 : (t ++ []).takeWhile (fun c => !stop c) = t ++ [] := List.takeWhile_append_of_pos hp
  have h2 : (t ++ []).dropWhile (fun c => !stop c) = [] := List.dropWhile_append_of_pos hp
  rw [List.append_nil] at h1 h2
  unfold splitAtFirst
  rw [h1, h2]

/-! ## Numbers are numerals -/

theorem isFigure_digit (d : Nat) : isFigure (digit d) = true := by
  unfold isFigure
  rw [val_digit]
  simp only [Bool.and_eq_true, decide_eq_true_eq]
  omega

theorem isNumeral_ofNat (n : Nat) : isNumeral (ofNat n) = true := by
  induction n using ofNat.induct with
  | case1 n h =>
    rw [ofNat, if_pos h, isNumeral_cons, isFigure_digit]
    rfl
  | case2 n h ih =>
    rw [ofNat, if_neg h, isNumeral_append, ih, isNumeral_cons, isFigure_digit]
    rfl

theorem isNumeral_ofInt (n : Int) : isNumeral (ofInt n) = true := by
  unfold ofInt
  split
  · rw [isNumeral_cons, isNumeral_ofNat]
    decide
  · exact isNumeral_ofNat _

theorem isNumeral_ofMilliseconds (t : Int) : isNumeral (ofMilliseconds t) = true := by
  have hs : isNumeral (if t < 0 then [minus] else []) = true := by split <;> decide
  unfold ofMilliseconds threeDigits
  rw [isNumeral_append, isNumeral_append, isNumeral_cons, isNumeral_cons, isNumeral_cons, isNumeral_cons, hs, isNumeral_ofNat,
    isFigure_digit, isFigure_digit, isFigure_digit]
  decide

end Text

namespace Decimal

open Text

theorem isNumeral_zeros (n : Nat) : isNumeral (zeros n) = true := by
  apply List.all_eq_true.2
  intro c hc
  rw [List.eq_of_mem_replicate hc]
  decide

theorem isNumeral_of_sublist {s t : Text} (hs : s.Sublist t) (ht : isNumeral t = true) : isNumeral s = true :=
  List.all_eq_true.2 (fun c hc => List.all_eq_true.1 ht c (hs.subset hc))

theorem isNumeral_positional {digits : Text} (h : isNumeral digits = true) (e : Int) :
    isNumeral (positional digits e) = true := by
  have hz : isFigure zero = true := by decide
  have hp : isFigure point = true := by decide
  unfold positional
  simp only
  split
  · rw [isNumeral_cons, isNumeral_cons, isNumeral_append, isNumeral_zeros, h, hz, hp]
    rfl
  · split
    · rw [isNumeral_append, isNumeral_append, isNumeral_zeros, h]
      decide
    · rw [isNumeral_append, isNumeral_cons, isNumeral_of_sublist (List.take_sublist _ _) h,
        isNumeral_of_sublist (List.drop_sublist _ _) h, hp]
      rfl

theorem isNumeral_exponentText (e : Int) : isNumeral (exponentText e) = true := by
  have hs : isFigure (if e < 0 then minus else plus) = true := by split <;> decide
  have hz : isNumeral (if e.natAbs < 10 then [zero] else []) = true := by split <;> decide
  unfold exponentText
  rw [isNumeral_cons, isNumeral_append, hs, hz, isNumeral_ofNat]
  rfl

theorem isNumeral_scientific {digits : Text} (h : isNumeral digits = true) (e : Int) :
    isNumeral (scientific digits e) = true := by
  have hp : isFigure point = true := by decide
  have he : isFigure letterE = true := by decide
  unfold scientific
  rw [isNumeral_append, isNumeral_cons, he, isNumeral_exponentText]
  match digits with
  | [] => rfl
  | [c] => rw [h]; rfl
  | c :: d :: cs =>
    rw [isNumeral_cons, Bool.and_eq_true] at h
    simp only
    rw [isNumeral_cons, isNumeral_cons, hp, h.1, h.2]
    rfl

theorem isNumeral_toText (d : Decimal) : isNumeral d.toText = true := by
  unfold toText
  simp only
  split
  · exact isNumeral_positional (isNumeral_ofNat _) _
  · exact isNumeral_scientific (isNumeral_ofNat _) _

end Decimal

theorem Binary64.isNumeral_toText (x : Binary64) : x.toText.isNumeral = true := by
  unfold toText toTextWith
  match x with
  | nan => decide
  | infinite false => decide
  | infinite true => decide
  | finite s r =>
    have hs : Text.isNumeral (if s then [Text.minus] else []) = true := by cases s <;> decide
    have hm : (magnitudeText r.val).isNumeral = true := by
      unfold magnitudeText
      split
      · decide
      · exact Decimal.isNumeral_toText _
    simp only
    rw [Text.isNumeral_append, hs, hm]
    rfl

end Exposition
