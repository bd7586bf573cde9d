import Exposition.Labels
import Exposition.Text.Scan
/-!
# Reading labels — a label set and what follows it

A name ends at the first equals sign and a value at the first quote that is not escaped, so the reader
finds the end of a set without knowing what follows.
-/
namespace Exposition
namespace Labels

def equalsSign : CodePoint := .ofChar '='
def comma : CodePoint := .ofChar ','
def closingBrace : CodePoint := .ofChar '\x7d'

def readLabel? (t : Text) : Option (Label × Text) :=
  let name := t.splitAtFirst (· = equalsSign)
  match Text.after? "=\"" name.2 with
  | none => none
  | some r => (Text.readQuoted? r).map (fun v => (⟨name.1, v.1⟩, v.2))

/-- Labels with commas between them, up to and with the closing brace, at most `n` of them. -/
def readBody? : Nat → Text → Option (Labels × Text)
  | 0, _ => none
  | n + 1, t =>
    match readLabel? t with
    | none => none
    | some (_, []) => none
    | some (l, c :: r) =>
      if c = comma then (readBody? n r).map (fun p => (l :: p.1, p.2))
      else if c = closingBrace then some ([l], r)
      else none

def read? (t : Text) : Option (Labels × Text) :=
  match Text.after? "\x7b" t with
  | none => none
  | some [] => none
  | some (c :: r) => if c = closingBrace then some ([], r) else readBody? (c :: r).length (c :: r)

end Labels
end Exposition
