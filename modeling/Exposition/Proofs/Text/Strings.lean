import Exposition.Proofs.Text.Utf8
/-!
# Strings — what is encoded is a string's UTF-8

A code point that is no surrogate is a character, and its bytes are those that strings use for it.  So the bytes of a text
are the bytes of a string, of the text with its surrogates replaced (`exists_string`), and no bytes but such ones come about
wherever a text is cut into pieces (`flatten_map_encode`).
-/
namespace Exposition
namespace Utf8

/-- **A character has the bytes that it has in strings.** -/
theorem encodeCodePoint_ofChar (c : Char) : encodeCodePoint (.ofChar c) = String.utf8EncodeChar c := by
  have hlt : c.toNat < 0x110000 := (CodePoint.ofChar c).isLt
  have hval : c.val.toNat = c.toNat := rfl
  unfold encodeCodePoint String.utf8EncodeChar
  rw [CodePoint.isSurrogate_ofChar, CodePoint.val_ofChar]
  simp only [hval, Nat.toUInt8_eq, Bool.false_eq_true, ↓reduceIte]
  -- strings also cut the first byte to the bits that its marker leaves, of which none is lost at this length
  by_cases h1 : c.toNat < 0x80
  · rw [if_pos h1, if_pos (Nat.le_of_lt_succ h1)]
  rw [if_neg h1, if_neg (show ¬c.toNat ≤ 127 by omega)]
  by_cases h2 : c.toNat < 0x800
  · have hlead : 0xC0 + c.toNat / 0x40 = c.toNat / 64 % 32 + 192 := by omega
    rw [if_pos h2, if_pos (Nat.le_of_lt_succ h2), hlead, Nat.add_comm 0x80]
  rw [if_neg h2, if_neg (show ¬c.toNat ≤ 2047 by omega)]
  by_cases h3 : c.toNat < 0x10000
  · have hlead : 0xE0 + c.toNat / 0x1000 = c.toNat / 4096 % 16 + 224 := by omega
    rw [if_pos h3, if_pos (Nat.le_of_lt_succ h3), hlead, Nat.add_comm 0x80, Nat.add_comm 0x80]
  · have hlead : 0xF0 + c.toNat / 0x40000 = c.toNat / 262144 % 8 + 240 := by omega
    rw [if_neg h3, if_neg (show ¬c.toNat ≤ 65535 by omega), hlead, Nat.add_comm 0x80, Nat.add_comm 0x80, Nat.add_comm 0x80]

theorem encode_ofString (s : String) : encode s = s.toUTF8.data.toList := by
  have hbytes : s.toUTF8 = (s.toList.flatMap String.utf8EncodeChar).toByteArray := by
    conv => lhs; rw [← String.ofList_toList (s := s)]
    rfl
  rw [hbytes, List.toList_data_toByteArray, encode, Text.ofString, List.flatMap_map]
  exact congrArg (s.toList.flatMap ·) (funext encodeCodePoint_ofChar)

/-! ## Replacement -/

/-- A code point that is no surrogate is a character. -/
theorem exists_char {c : CodePoint} (h : c.isSurrogate = false) : ∃ d : Char, CodePoint.ofChar d = c := by
  have hvalid : c.val.isValidChar := by
    have hlt := c.isLt
    rw [CodePoint.isSurrogate_eq_false_iff] at h
    unfold Nat.isValidChar
    omega
  have hchar : Char.ofNat c.val = Char.ofNatAux c.val hvalid := dif_pos hvalid
  exact ⟨Char.ofNat c.val, Fin.ext (by rw [hchar]; rfl)⟩

theorem isSurrogate_replaceSurrogate (c : CodePoint) : (replaceSurrogate c).isSurrogate = false := by
  unfold replaceSurrogate
  cases h : c.isSurrogate with
  | true => exact CodePoint.isSurrogate_ofChar '?'
  | false => exact h

/-- A surrogate has the bytes of what replaces it. -/
theorem encodeCodePoint_replaceSurrogate (c : CodePoint) : encodeCodePoint (replaceSurrogate c) = encodeCodePoint c := by
  unfold replaceSurrogate
  cases h : c.isSurrogate with
  | false => rfl
  | true =>
    have hlarge : 0xD800 ≤ c.val := by
      simp only [CodePoint.isSurrogate, Bool.and_eq_true, decide_eq_true_eq] at h
      exact h.1
    unfold encodeCodePoint
    simp only [h, if_true]
    rw [if_neg (show ¬c.val < 0x80 by omega), if_neg (show ¬c.val < 0x800 by omega)]
    rfl

theorem encode_replaceSurrogates : ∀ (t : Text), encode (replaceSurrogates t) = encode t
  | [] => rfl
  | c :: t => by
    rw [replaceSurrogates_cons, encode_cons, encode_cons, encodeCodePoint_replaceSurrogate, encode_replaceSurrogates t]

theorem exists_chars : ∀ (t : Text), ∃ cs : List Char, cs.map CodePoint.ofChar = replaceSurrogates t
  | [] => ⟨[], rfl⟩
  | c :: t => by
    obtain ⟨d, hd⟩ := exists_char (isSurrogate_replaceSurrogate c)
    obtain ⟨cs, hcs⟩ := exists_chars t
    exact ⟨d :: cs, by rw [List.map_cons, hd, hcs, replaceSurrogates_cons]⟩

/-- **The bytes of a text are those of a string**, of the text with its surrogates replaced. -/
theorem exists_string (t : Text) : ∃ s : String, (s : Text) = replaceSurrogates t ∧ s.toUTF8.data.toList = encode t := by
  obtain ⟨cs, hcs⟩ := exists_chars t
  have htext : ((String.ofList cs : String) : Text) = replaceSurrogates t := by
    rw [Text.ofString, String.toList_ofList, hcs]
  exact ⟨String.ofList cs, htext, by rw [← encode_ofString, htext, encode_replaceSurrogates]⟩

/-! ## Pieces -/

/-- **Pieces are encoded as their concatenation is**, wherever they are cut. -/
theorem flatten_map_encode : ∀ (ts : List Text), (ts.map encode).flatten = encode ts.flatten
  | [] => rfl
  | t :: ts => by rw [List.map_cons, List.flatten_cons, List.flatten_cons, encode_append, flatten_map_encode ts]

end Utf8
end Exposition
