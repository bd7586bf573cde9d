import Exposition.Text.Basic
/-!
# Casing — comparing names without regard to case

Names of settings and words of settings are ASCII, so only characters that have an ASCII counterpart
in the other case matter.  Lower case is that of ASCII.  In upper case some further letters are made
of ASCII ones: the dotless i, the long s, the sharp s and the Latin ligatures.
-/
namespace Exposition
namespace Text

def lowerCodePoint (c : CodePoint) : CodePoint :=
  if 65 ≤ c.val ∧ c.val ≤ 90 then .ofNat (c.val + 32) else c

def lower (t : Text) : Text := t.map lowerCodePoint

/-- Letters beyond ASCII whose upper-case form is ASCII. -/
def upperTable : List (Nat × Text) :=
  [(0xDF, "SS"), (0x131, "I"), (0x17F, "S"), (0xFB00, "FF"), (0xFB01, "FI"), (0xFB02, "FL"),
    (0xFB03, "FFI"), (0xFB04, "FFL"), (0xFB05, "ST"), (0xFB06, "ST")]

def upperCodePoint (c : CodePoint) : Text :=
  if 97 ≤ c.val ∧ c.val ≤ 122 then [.ofNat (c.val - 32)]
  else (upperTable.lookup c.val).getD [c]

def upper (t : Text) : Text := t.flatMap upperCodePoint

end Text
end Exposition
