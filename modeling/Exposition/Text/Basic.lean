/-!
# Text — strings of code points

Metric names, help texts and label values come from programs that may hand over any string, unpaired
surrogates included, so text is a list of code points and not of scalar values.  A string literal of
the format itself is written as a `String` and read as text through a coercion.
-/
namespace Exposition

/-- A Unicode code point; surrogates are code points too. -/
abbrev CodePoint := Fin 0x110000

/-- A string of code points, two neighbouring surrogates being two of them. -/
abbrev Text := List CodePoint

namespace CodePoint

def ofChar (c : Char) : CodePoint :=
  ⟨c.toNat, by
    rcases c.valid with h | ⟨_, h⟩
    · exact Nat.lt_trans h (by decide)
    · exact h⟩

def ofNat (n : Nat) : CodePoint := ⟨n % 0x110000, Nat.mod_lt n (by decide)⟩

def isSurrogate (c : CodePoint) : Bool := 0xD800 ≤ c.val && c.val ≤ 0xDFFF

theorem val_ofChar (c : Char) : (ofChar c).val = c.toNat := rfl

theorem isSurrogate_ofChar (c : Char) : (ofChar c).isSurrogate = false := by
  have h : c.toNat < 0xD800 ∨ 0xDFFF < c.toNat := by
    rcases c.valid with h | ⟨h, _⟩
    · exact Or.inl h
    · exact Or.inr h
  rw [isSurrogate, val_ofChar, Bool.eq_false_iff, Ne, Bool.and_eq_true, decide_eq_true_eq,
    decide_eq_true_eq]
  omega

end CodePoint

namespace Text

def ofString (s : String) : Text := s.toList.map CodePoint.ofChar

instance : Coe String Text := ⟨ofString⟩

end Text
end Exposition
