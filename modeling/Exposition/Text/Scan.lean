import Exposition.Text.Escape
/-!
# Scanning — taking a text apart from its start

What the readers share: a fixed beginning, a run of characters up to one that ends it, and a quoted
text.
-/
namespace Exposition
namespace Text

def after? : Text → Text → Option Text
  | [], t => some t
  | _ :: _, [] => none
  | c :: cs, d :: ds => if c = d then after? cs ds else none

/-- The text up to the first character that passes the test, and the rest from there on. -/
def splitAtFirst (stop : CodePoint → Bool) (t : Text) : Text × Text :=
  (t.takeWhile (fun c => !stop c), t.dropWhile (fun c => !stop c))

/-- The text of a quotation whose opening quote has been taken, and the rest behind its closing one. -/
def readQuoted? : Text → Option (Text × Text)
  | [] => none
  | [c] => if c = quote then some ([], []) else none
  | c :: d :: r =>
    if c = quote then some ([], d :: r)
    else if c = backslash then
      if d = backslash then (readQuoted? r).map (fun p => (backslash :: p.1, p.2))
      else if d = quote then (readQuoted? r).map (fun p => (quote :: p.1, p.2))
      else if d = letterN then (readQuoted? r).map (fun p => (lineFeed :: p.1, p.2))
      else none
    else (readQuoted? (d :: r)).map (fun p => (c :: p.1, p.2))

end Text
end Exposition
