import Exposition.Family
/-!
# Snapshots — what a program hands over

A snapshot is a family of a known kind, an object of a class that the format does not know, or an
object of a user's class that extends another one.  A class that extends a known kind, at any depth, is
written like that kind.
-/
namespace Exposition

inductive Snapshot
  | family (f : Family)
  | foreign (className : Text) (points : Nat)
  | extended (className : Text) (base : Snapshot)
  deriving DecidableEq

namespace Snapshot

def family? : Snapshot → Option Family
  | family f => some f
  | foreign _ _ => none
  | extended _ base => base.family?

def size : Snapshot → Nat
  | family f => f.points.size
  | foreign _ n => n
  | extended _ base => base.size

/-- The name of the class of an object that is not known, or of one that extends it. -/
def className : Snapshot → Text
  | family f => f.type.word
  | foreign c _ => c
  | extended c _ => c

def isEmpty (s : Snapshot) : Bool := s.size == 0

def emission (withCreated : Bool) (s : Snapshot) : Emission :=
  if s.isEmpty then .empty
  else
    match s.family? with
    | some f => f.emission withCreated
    | none => .ofFault (.unsupported s.className)

end Snapshot
end Exposition
