import Exposition.Text.Basic
/-!
# Escaping — how help texts and label values are kept on one line

A backslash, a double quote and a line feed are each written as a backslash and one more character.
`escape` replaces one of the three after the other, the backslash first, because the later passes
bring in backslashes of their own; `escapeAtOnce` looks at each character once, and `unescape?`
reads an escaped text back.
-/
namespace Exposition
namespace Text

def lineFeed : CodePoint := .ofChar '\n'
def carriageReturn : CodePoint := .ofChar '\r'
def quote : CodePoint := .ofChar '"'
def backslash : CodePoint := .ofChar '\\'
def letterN : CodePoint := .ofChar 'n'

def substitute (t : Text) (c : CodePoint) (w : Text) : Text :=
  t.flatMap (fun x => if x = c then w else [x])

/-- The backslash goes first: a later pass for it would double the backslashes of the other two. -/
def escape (t : Text) : Text :=
  ((t.substitute backslash [backslash, backslash]).substitute quote [backslash, quote]).substitute
    lineFeed [backslash, letterN]

def escapeSequence (c : CodePoint) : Text :=
  if c = backslash then [backslash, backslash]
  else if c = quote then [backslash, quote]
  else if c = lineFeed then [backslash, letterN]
  else [c]

def escapeAtOnce (t : Text) : Text := t.flatMap escapeSequence

/-- Refuses a backslash that starts no escape sequence. -/
def unescape? : Text → Option Text
  | [] => some []
  | [c] => if c = backslash then none else some [c]
  | c :: d :: r =>
    if c = backslash then
      if d = backslash then (unescape? r).map (backslash :: ·)
      else if d = quote then (unescape? r).map (quote :: ·)
      else if d = letterN then (unescape? r).map (lineFeed :: ·)
      else none
    else (unescape? (d :: r)).map (c :: ·)

end Text
end Exposition
