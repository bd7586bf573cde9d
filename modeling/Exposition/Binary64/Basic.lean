/-!
# Binary64 — double precision numbers, exactly

The magnitudes of the finite doubles, put in order, are numbered by the first `2047 * 2 ^ 52` natural
numbers; this number is the *rank* of a magnitude, and it is also its bit pattern.  Every magnitude is
a whole number of units of `2 ^ -1074`, the least of them, so a double is compared, rounded and printed
through natural numbers, and no arithmetic of the machine is involved.
-/
namespace Exposition

/-- The number of ranks from one power of two up to the next. -/
def Binary64.binade : Nat := Nat.pow 2 52

/-- The rank that the magnitude `2 ^ 1024` would have, were it finite. -/
def Binary64.rankLimit : Nat := 2047 * binade

inductive Binary64
  | nan
  | infinite (negative : Bool)
  | finite (negative : Bool) (rank : Fin Binary64.rankLimit)
  deriving DecidableEq, Repr

namespace Binary64

def unitsInOne : Nat := Nat.pow 2 1074

/-- The magnitude of rank `r`, in units.  The first two binades lie one unit apart, and each further one
doubles the distance between neighbours. -/
def unitsOfRank (r : Nat) : Nat :=
  if r < binade then r else (binade + r % binade) * Nat.pow 2 (r / binade - 1)

def zero : Binary64 := finite false ⟨0, by decide⟩

def negate : Binary64 → Binary64
  | nan => nan
  | infinite s => infinite !s
  | finite s r => finite (!s) r

def signWeight : Nat := Nat.pow 2 63

/-- The double of a 64-bit pattern; every pattern above infinity's is no number. -/
def ofBits (w : UInt64) : Binary64 :=
  let negative : Bool := signWeight ≤ w.toNat
  let r := w.toNat % signWeight
  if h : r < rankLimit then finite negative ⟨r, h⟩
  else if r = rankLimit then infinite negative
  else nan

def signBit (negative : Bool) : Nat := if negative then signWeight else 0

def toBits : Binary64 → UInt64
  | nan => (rankLimit + binade / 2).toUInt64
  | infinite s => (signBit s + rankLimit).toUInt64
  | finite s r => (signBit s + r.val).toUInt64

end Binary64
end Exposition
