import Exposition.Text.Escape
import Exposition.Text.Utf8
/-!
# UTF-8 — what is encoded is decoded

The bytes of a code point are decoded as this code point whatever follows them, so a text that is encoded piece by
piece comes back as a whole (`decode_encode`).  A surrogate comes back as the question mark that stands for it.
-/
namespace Exposition

theorem CodePoint.isSurrogate_eq_false_iff {c : CodePoint} : c.isSurrogate = false ↔ c.val < 0xD800 ∨ 0xDFFF < c.val := by
  rw [isSurrogate, Bool.and_eq_false_iff, decide_eq_false_iff_not, decide_eq_false_iff_not, Nat.not_le, Nat.not_le]

namespace Utf8

theorem toNat_toUInt8 {n : Nat} (h : n < 256) : n.toUInt8.toNat = n := by
  rw [Nat.toUInt8_eq, UInt8.toNat_ofNat']
  exact Nat.mod_eq_of_lt h

theorem ofNat_val (c : CodePoint) : CodePoint.ofNat c.val = c := Fin.ext (Nat.mod_eq_of_lt c.isLt)

theorem decodeFrom_skip : ∀ (tail : Bytes) (offset : Nat) (rest : Bytes),
    decodeFrom tail.length offset (tail ++ rest) = decodeFrom 0 (offset + tail.length) rest
  | [], _, _ => rfl
  | b :: tail, offset, rest => by
    rw [List.length_cons, List.cons_append, decodeFrom, decodeFrom_skip tail (offset + 1) rest]
    congr 1
    omega

/-- Bytes that begin a character and go on with the rest of it are decoded as that character. -/
theorem decodeFrom_character {b : UInt8} (tail : Bytes) {rest : Bytes} {n : Nat}
    (h : decodeFirst b (tail ++ rest) = .ok (n, tail.length)) (offset : Nat) :
    decodeFrom 0 offset (b :: tail ++ rest) =
      (decodeFrom 0 (offset + 1 + tail.length) rest).map (CodePoint.ofNat n :: ·) := by
  rw [List.cons_append, decodeFrom, h]
  show (decodeFrom tail.length (offset + 1) (tail ++ rest)).map _ = _
  rw [decodeFrom_skip]

theorem isContinuation_low {n : Nat} (h : n < 0x40) : isContinuation (0x80 + n) = true := by
  unfold isContinuation
  simp only [Bool.and_eq_true, decide_eq_true_eq]
  omega

/-! ## One character of each length -/

theorem decodeFirst_one {n : Nat} (h : n < 0x80) (rest : Bytes) : decodeFirst n.toUInt8 rest = .ok (n, 0) := by
  have ha : announced? n = some 0 := by
    unfold announced?
    rw [if_pos h]
  unfold decodeFirst
  rw [toNat_toUInt8 (by omega), ha]

theorem decodeFirst_two {n : Nat} (h1 : 0x80 ≤ n) (h2 : n < 0x800) (rest : Bytes) :
    decodeFirst (0xC0 + n / 0x40).toUInt8 ((0x80 + n % 0x40).toUInt8 :: rest) = .ok (n, 1) := by
  have ha : announced? (0xC0 + n / 0x40) = some 1 := by
    unfold announced?
    rw [if_neg (by omega), if_neg (by omega), if_pos (by omega)]
  have hs : secondByteOk (0xC0 + n / 0x40) (0x80 + n % 0x40) = true := by
    unfold secondByteOk
    rw [if_neg (by omega), if_neg (by omega), if_neg (by omega), if_neg (by omega)]
    simp only [Bool.and_eq_true, decide_eq_true_eq]
    omega
  unfold decodeFirst
  rw [toNat_toUInt8 (by omega), ha]
  simp only
  rw [toNat_toUInt8 (by omega), if_pos hs]
  simp only [leadingBits, continueWith, Except.map]
  congr 2
  omega

theorem decodeFirst_three {n : Nat} (h1 : 0x800 ≤ n) (h2 : n < 0x10000) (h3 : n < 0xD800 ∨ 0xDFFF < n)
    (rest : Bytes) :
    decodeFirst (0xE0 + n / 0x1000).toUInt8
      ((0x80 + n / 0x40 % 0x40).toUInt8 :: (0x80 + n % 0x40).toUInt8 :: rest) = .ok (n, 2) := by
  have ha : announced? (0xE0 + n / 0x1000) = some 2 := by
    unfold announced?
    rw [if_neg (by omega), if_neg (by omega), if_neg (by omega), if_pos (by omega)]
  have hs : secondByteOk (0xE0 + n / 0x1000) (0x80 + n / 0x40 % 0x40) = true := by
    unfold secondByteOk
    rw [if_neg (show ¬ 0xE0 + n / 0x1000 = 0xF0 by omega), if_neg (show ¬ 0xE0 + n / 0x1000 = 0xF4 by omega)]
    simp only [Bool.and_eq_true, decide_eq_true_eq]
    constructor
    · split <;> omega
    · split <;> omega
  unfold decodeFirst
  rw [toNat_toUInt8 (by omega), ha]
  simp only
  rw [toNat_toUInt8 (by omega), if_pos hs]
  simp only [leadingBits, continueWith]
  rw [toNat_toUInt8 (by omega), if_pos (isContinuation_low (by omega))]
  simp only [Except.map]
  congr 2
  omega

theorem decodeFirst_four {n : Nat} (h1 : 0x10000 ≤ n) (h2 : n < 0x110000) (rest : Bytes) :
    decodeFirst (0xF0 + n / 0x40000).toUInt8
      ((0x80 + n / 0x1000 % 0x40).toUInt8 :: (0x80 + n / 0x40 % 0x40).toUInt8 :: (0x80 + n % 0x40).toUInt8 :: rest) =
      .ok (n, 3) := by
  have ha : announced? (0xF0 + n / 0x40000) = some 3 := by
    unfold announced?
    rw [if_neg (by omega), if_neg (by omega), if_neg (by omega), if_neg (by omega), if_pos (by omega)]
  have hs : secondByteOk (0xF0 + n / 0x40000) (0x80 + n / 0x1000 % 0x40) = true := by
    unfold secondByteOk
    rw [if_neg (show ¬ 0xF0 + n / 0x40000 = 0xE0 by omega), if_neg (show ¬ 0xF0 + n / 0x40000 = 0xED by omega)]
    simp only [Bool.and_eq_true, decide_eq_true_eq]
    constructor
    · split <;> omega
    · split <;> omega
  unfold decodeFirst
  rw [toNat_toUInt8 (by omega), ha]
  simp only
  rw [toNat_toUInt8 (by omega), if_pos hs]
  simp only [leadingBits, continueWith]
  rw [toNat_toUInt8 (by omega), if_pos (isContinuation_low (by omega)), toNat_toUInt8 (by omega),
    if_pos (isContinuation_low (by omega))]
  simp only [Except.map]
  congr 2
  omega

/-! ## Texts -/

/-- What a code point comes back as. -/
def replaceSurrogate (c : CodePoint) : CodePoint := if c.isSurrogate then .ofChar '?' else c

theorem replaceSurrogates_cons (c : CodePoint) (t : Text) :
    replaceSurrogates (c :: t) = replaceSurrogate c :: replaceSurrogates t := rfl

theorem replaceSurrogates_append (s t : Text) :
    replaceSurrogates (s ++ t) = replaceSurrogates s ++ replaceSurrogates t := List.map_append

theorem decodeFrom_encodeCodePoint (c : CodePoint) (offset : Nat) (rest : Bytes) :
    ∃ k, decodeFrom 0 offset (encodeCodePoint c ++ rest) =
      (decodeFrom 0 (offset + k) rest).map (replaceSurrogate c :: ·) := by
  have hlt := c.isLt
  unfold encodeCodePoint replaceSurrogate
  simp only
  by_cases h1 : c.val < 0x80
  · have hs : c.isSurrogate = false := CodePoint.isSurrogate_eq_false_iff.2 (by omega)
    rw [if_pos h1, hs, decodeFrom_character [] (decodeFirst_one h1 _), ofNat_val]
    exact ⟨_, rfl⟩
  rw [if_neg h1]
  by_cases h2 : c.val < 0x800
  · have hs : c.isSurrogate = false := CodePoint.isSurrogate_eq_false_iff.2 (by omega)
    rw [if_pos h2, hs, decodeFrom_character [_] (decodeFirst_two (by omega) h2 _), ofNat_val]
    exact ⟨_, by rw [Nat.add_assoc]; rfl⟩
  rw [if_neg h2]
  cases hs : c.isSurrogate with
  | true =>
    rw [if_pos rfl, if_pos rfl]
    have hq : questionMark = (63 : Nat).toUInt8 := rfl
    rw [hq, decodeFrom_character [] (decodeFirst_one (by omega) _)]
    exact ⟨_, rfl⟩
  | false =>
    simp only [Bool.false_eq_true, ↓reduceIte]
    have hn : c.val < 0xD800 ∨ 0xDFFF < c.val := CodePoint.isSurrogate_eq_false_iff.1 hs
    by_cases h3 : c.val < 0x10000
    · rw [if_pos h3, decodeFrom_character [_, _] (decodeFirst_three (by omega) h3 hn _), ofNat_val]
      exact ⟨_, by rw [Nat.add_assoc]⟩
    · rw [if_neg h3, decodeFrom_character [_, _, _] (decodeFirst_four (by omega) hlt _), ofNat_val]
      exact ⟨_, by rw [Nat.add_assoc]⟩

theorem encode_cons (c : CodePoint) (t : Text) : encode (c :: t) = encodeCodePoint c ++ encode t := rfl

theorem decodeFrom_encode : ∀ (t : Text) (offset : Nat),
    decodeFrom 0 offset (encode t) = .ok (replaceSurrogates t)
  | [], _ => rfl
  | c :: t, offset => by
    obtain ⟨k, hk⟩ := decodeFrom_encodeCodePoint c offset (encode t)
    rw [encode_cons, hk, decodeFrom_encode t (offset + k)]
    rfl

/-- **Encoding never leaves UTF-8, and only surrogates are lost.** -/
theorem decode_encode (t : Text) : decode (encode t) = .ok (replaceSurrogates t) := decodeFrom_encode t 0

/-! ## What the replacement leaves alone -/

theorem replaceSurrogate_ofChar (c : Char) : replaceSurrogate (.ofChar c) = .ofChar c := by
  unfold replaceSurrogate
  rw [CodePoint.isSurrogate_ofChar]
  rfl

theorem replaceSurrogates_ofString (s : String) : replaceSurrogates s = (s : Text) := by
  unfold replaceSurrogates Text.ofString
  rw [List.map_map]
  exact List.map_congr_left (fun c _ => replaceSurrogate_ofChar c)

end Utf8
end Exposition
