import Exposition.Decimal.Layout
import Exposition.Mapping
import Exposition.Text.Escape
/-!
# Labels — ordered names and values

A label set keeps the order in which its labels are given; a name may come twice and may be empty.
Values are escaped when a set is written, names are not.  One more label may be added behind them, and then
it needs a value.
-/
namespace Exposition

structure Label where
  name : Text
  value : Text
  deriving DecidableEq, Repr

abbrev Labels := List Label

inductive LabelValue
  | text (t : Text)
  | integer (n : Int)
  | float (x : Binary64)
  | boolean (b : Bool)
  | absent
  deriving DecidableEq, Repr

inductive LabelFault
  | valueMissing
  | tooManyDigits
  deriving DecidableEq, Repr

def LabelFault.kind : LabelFault → Text
  | .valueMissing => "AttributeError"
  | .tooManyDigits => "ValueError"

def LabelFault.message : LabelFault → Text
  | .valueMissing => "'NoneType' object has no attribute 'replace'"
  | .tooManyDigits => Text.tooManyDigitsMessage

def LabelValue.toText : LabelValue → Except LabelFault Text
  | .text t => .ok t
  | .integer n =>
    match Text.ofInt? n with
    | some t => .ok t
    | none => .error .tooManyDigits
  | .float x => .ok (x.toTextWith .plain)
  | .boolean true => .ok "True"
  | .boolean false => .ok "False"
  | .absent => .ok "None"

/-- The additional label of a name and a value: without a name there is none, and a name needs a value. -/
def Label.additional? (name value : Option Text) : Except LabelFault (Option Label) :=
  match name, value with
  | none, _ => .ok none
  | some n, some v => .ok (some ⟨n, v⟩)
  | some _, none => .error .valueMissing

namespace Labels

/-- Labels from names and values in turn, or nothing if the last name has no value. -/
def ofAlternating? : List Text → Option Labels
  | [] => some []
  | [_] => none
  | n :: v :: r => (ofAlternating? r).map (⟨n, v⟩ :: ·)

def unpairedMessage : Text := "Labels.of() expects an even number of arguments"

def ofMapping (m : Mapping Text LabelValue) : Except LabelFault Labels :=
  m.entries.mapM (fun e => e.2.toText.map (⟨e.1, ·⟩))

def names (ls : Labels) : List Text := ls.map Label.name
def values (ls : Labels) : List Text := ls.map Label.value

def labelPieces (l : Label) : List Text := [l.name, "=\"", l.value.escape, "\""]

def bodyPieces : Labels → List Text
  | [] => []
  | [l] => labelPieces l
  | l :: ls => labelPieces l ++ ("," : Text) :: bodyPieces ls

/-- The pieces of a label set in braces.  An additional label comes last, behind a comma if there are
others. -/
def pieces (ls : Labels) (additional : Option Label) : List Text :=
  ("\x7b" : Text) :: (bodyPieces ls ++
    ((match additional with
      | none => []
      | some l => (if ls.isEmpty then [] else [("," : Text)]) ++ labelPieces l) ++ [("\x7d" : Text)]))

def toText (ls : Labels) (additional : Option Label) : Text := (ls.pieces additional).flatten

end Labels

/-- The pieces of a series: its name, a suffix, the label set unless it would be empty, and the space
before the value. -/
def seriesPieces (name : Text) (suffix : Option Text) (ls : Labels) (additional : Option Label) :
    List Text :=
  name :: (suffix.toList ++
    ((if ls.isEmpty && additional.isNone then [] else ls.pieces additional) ++ [(" " : Text)]))

def seriesText (name : Text) (suffix : Option Text) (ls : Labels) (additional : Option Label) : Text :=
  (seriesPieces name suffix ls additional).flatten

end Exposition
