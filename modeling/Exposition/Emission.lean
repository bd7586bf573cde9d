import Exposition.Text.Digits
/-!
# Emissions — text that is produced piece by piece and may break off

A document is written as it is produced, so what stands before a fault has already left.  An emission
is therefore the pieces in order together with the fault that ended them, if one did; nothing follows a
fault.
-/
namespace Exposition

inductive Fault
  | integerTooLarge
  | powerTooLarge
  | tooManyDigits
  | unsupported (className : Text)
  deriving DecidableEq, Repr

def Fault.kind : Fault → Text
  | .integerTooLarge => "OverflowError"
  | .powerTooLarge => "OverflowError"
  | .tooManyDigits => "ValueError"
  | .unsupported _ => "TypeError"

def Fault.message : Fault → Text
  | .integerTooLarge => "int too large to convert to float"
  | .powerTooLarge => "(34, 'Numerical result out of range')"
  | .tooManyDigits => Text.tooManyDigitsMessage
  | .unsupported c => ("Unsupported metric snapshot type: " : Text) ++ c

def orFault {α : Type} (f : Fault) : Option α → Except Fault α
  | some a => .ok a
  | none => .error f

/-- Pieces of text in the order in which they leave, and the fault behind them. -/
structure Emission where
  pieces : List Text
  fault : Option Fault
  deriving DecidableEq, Repr

namespace Emission

def empty : Emission := ⟨[], none⟩

def ofPieces (ps : List Text) : Emission := ⟨ps, none⟩

def ofFault (f : Fault) : Emission := ⟨[], some f⟩

def ofExcept : Except Fault Text → Emission
  | .ok t => ⟨[t], none⟩
  | .error f => ofFault f

/-- The second emission follows the first unless that ended in a fault. -/
def append (a b : Emission) : Emission :=
  match a.fault with
  | some _ => a
  | none => ⟨a.pieces ++ b.pieces, b.fault⟩

instance : Append Emission := ⟨append⟩

def concat (es : List Emission) : Emission := es.foldr append empty

def text (e : Emission) : Text := e.pieces.flatten

theorem append_def (a b : Emission) : a ++ b = append a b := rfl

theorem empty_append (e : Emission) : empty ++ e = e := by
  simp [append_def, append, empty]

theorem append_empty (e : Emission) : e ++ empty = e := by
  cases e with
  | mk ps f => cases f <;> simp [append_def, append, empty]

theorem append_assoc (a b c : Emission) : a ++ b ++ c = a ++ (b ++ c) := by
  obtain ⟨pa, fa⟩ := a
  obtain ⟨pb, fb⟩ := b
  cases fa <;> cases fb <;> simp [append_def, append]

end Emission
end Exposition
