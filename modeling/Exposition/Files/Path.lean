import Exposition.Text.Utf8
/-!
# Paths — where they start from, and their components

A path is read by its slashes.  One that begins with a slash is absolute, and starts from the root; any
other is relative, and starts from the directory that is worked in, so that the relative path without
components is that directory.  Empty components and single dots say nothing and are dropped, double dots
are kept, for where they lead depends on the tree.  A path is handed over as bytes that end in a null byte,
so some texts are the path of nothing.
-/
namespace Exposition

/-- Where a path starts from.  Exactly two slashes at the beginning are kept as two, though they lead to the
root as one does. -/
inductive Anchor
  | here
  | root
  | twoSlashes
  deriving DecidableEq, Repr

structure Path where
  anchor : Anchor
  components : List Text
  deriving DecidableEq, Repr

namespace Path

def relative (cs : List Text) : Path := ⟨.here, cs⟩

def slash : CodePoint := .ofChar '/'

def dot : Text := "."

def above : Text := ".."

def split : Text → List Text
  | [] => [[]]
  | c :: cs =>
    if c = slash then [] :: split cs
    else
      match split cs with
      | [] => [[c]]
      | p :: ps => (c :: p) :: ps

def anchorOf (t : Text) : Anchor :=
  match (t.takeWhile (fun c => c = slash)).length with
  | 0 => .here
  | 2 => .twoSlashes
  | _ => .root

def ofText (t : Text) : Path := ⟨anchorOf t, (split t).filter (fun c => c ≠ [] ∧ c ≠ dot)⟩

end Path

def Anchor.toText : Anchor → Text
  | here => []
  | root => [Path.slash]
  | twoSlashes => [Path.slash, Path.slash]

namespace Path

def joined : List Text → Text
  | [] => []
  | [c] => c
  | c :: cs => c ++ slash :: joined cs

def toText (p : Path) : Text :=
  if p.anchor = .here ∧ p.components = [] then dot else p.anchor.toText ++ joined p.components

/-- The path without its last component; double dots are a component like others. -/
def parent (p : Path) : Path := ⟨p.anchor, p.components.dropLast⟩

def name? (p : Path) : Option Text := p.components.getLast?

def withName (p : Path) (n : Text) : Path := ⟨p.anchor, p.components.dropLast ++ [n]⟩

/-- Why a path cannot be handed over: `size` surrogates from `start` on, the first of them being `first`,
have no bytes, or there is a null character. -/
inductive Fault
  | surrogates (start size : Nat) (first : CodePoint)
  | nullCharacter
  deriving DecidableEq, Repr

def hexSurrogate (c : CodePoint) : Text :=
  ("\\u" : Text) ++ [Utf8.hexDigit (c.val / 0x1000 % 16), Utf8.hexDigit (c.val / 0x100 % 16),
    Utf8.hexDigit (c.val / 0x10 % 16), Utf8.hexDigit (c.val % 16)]

/-- One surrogate is told by its value, several by where the first and the last of them stand. -/
def Fault.message : Fault → Text
  | .surrogates start size first =>
    ("'utf-8' codec can't encode character" : Text) ++
      ((if size = 1 then (" '" : Text) ++ hexSurrogate first ++ "' in position " ++ Text.ofNat start
        else ("s in position " : Text) ++ Text.ofNat start ++ "-" ++ Text.ofNat (start + size - 1)) ++
        (": surrogates not allowed" : Text))
  | .nullCharacter => "embedded null byte"

/-- Surrogates that stand for the bytes of names that are not UTF-8. -/
def isByte (c : CodePoint) : Bool := 0xDC80 ≤ c.val && c.val ≤ 0xDCFF

/-- The first surrogates, from `offset` on, that stand for nothing. -/
def surrogateFault? (offset : Nat) : Text → Option Fault
  | [] => none
  | c :: cs =>
    if c.isSurrogate && !isByte c then
      some (.surrogates offset (1 + (cs.takeWhile CodePoint.isSurrogate).length) c)
    else surrogateFault? (offset + 1) cs

def fault? (p : Path) : Option Fault :=
  match surrogateFault? 0 p.toText with
  | some f => some f
  | none => if p.toText.any (fun c => c.val = 0) then some .nullCharacter else none

end Path
end Exposition
