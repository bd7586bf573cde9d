import Exposition.Files.Path
import Exposition.Mapping
/-!
# File trees — entries by location

A tree tells for each location, the names on the way down from its root, what stands there.  There are
no links, so a path leads to one location: the walk starts at the root or in the directory that relative
paths start from, and takes one component after the other, each of which needs a directory to go on from.
Only the last component may lead to nothing.  A path that cannot be handed over is refused before any step.
-/
namespace Exposition

abbrev Location := List Text

inductive Entry
  | directory
  | file (mode : Nat) (bytes : Bytes)
  deriving DecidableEq, Repr

inductive FileError
  | notFound
  | alreadyExists
  | notADirectory
  | isADirectory
  | nameTooLong
  | faultyPath (f : Path.Fault)
  deriving DecidableEq, Repr

/-- A failure of the system, not of the path alone. -/
def FileError.IsSystem : FileError → Prop
  | faultyPath _ => False
  | _ => True

/-- What stands where, and the directory that relative paths start from. -/
structure Tree where
  entries : Mapping Location Entry
  here : Location
  deriving DecidableEq

namespace Tree

def entryAt? (t : Tree) (l : Location) : Option Entry :=
  if l = [] then some .directory else t.entries.get? l

def put (t : Tree) (l : Location) (e : Entry) : Tree := { t with entries := t.entries.put l e }

def erase (t : Tree) (l : Location) : Tree := { t with entries := t.entries.erase l }

theorem entryAt?_put (t : Tree) {l : Location} (h : l ≠ []) (e : Entry) (l' : Location) :
    (t.put l e).entryAt? l' = if l' = l then some e else t.entryAt? l' := by
  unfold entryAt? put
  by_cases hn : l' = []
  · subst hn
    rw [if_pos rfl, if_neg (Ne.symm h), if_pos rfl]
  · simp only [if_neg hn, Mapping.get?_put]

theorem entryAt?_erase (t : Tree) {l : Location} (h : l ≠ []) (l' : Location) :
    (t.erase l).entryAt? l' = if l' = l then none else t.entryAt? l' := by
  unfold entryAt? erase
  by_cases hn : l' = []
  · subst hn
    rw [if_pos rfl, if_neg (Ne.symm h), if_pos rfl]
  · simp only [if_neg hn, Mapping.get?_erase]

def nameLimit : Nat := 255

def pathLimit : Nat := 4095

def step (t : Tree) (l : Location) (c : Text) : Except FileError Location :=
  match t.entryAt? l with
  | none => .error .notFound
  | some (.file _ _) => .error .notADirectory
  | some .directory =>
    if c = Path.above then .ok l.dropLast
    else if nameLimit < (Utf8.encode c).length then .error .nameTooLong
    else .ok (l ++ [c])

def walk (t : Tree) (l : Location) : List Text → Except FileError Location
  | [] => .ok l
  | c :: cs =>
    match t.step l c with
    | .ok l' => t.walk l' cs
    | .error e => .error e

def startOf (t : Tree) : Anchor → Location
  | .here => t.here
  | .root => []
  | .twoSlashes => []

def locate (t : Tree) (p : Path) : Except FileError Location :=
  match p.fault? with
  | some f => .error (.faultyPath f)
  | none =>
    if pathLimit < (Utf8.encode p.toText).length then .error .nameTooLong
    else t.walk (t.startOf p.anchor) p.components

/-- The location that a path spells out from the root on, double dots taking back the name before them. -/
def spelledOut (t : Tree) (p : Path) : Location :=
  p.components.foldl (fun l c => if c = Path.above then l.dropLast else l ++ [c]) (t.startOf p.anchor)

/-- The path as it is spelled out from the root on; a relative one becomes absolute. -/
def absolute (t : Tree) (p : Path) : Path :=
  ⟨match p.anchor with
    | .here => .root
    | a => a, t.spelledOut p⟩

/-- Where a path leads that is spelled out from the root on before it is walked. -/
def locateSpelledOut (t : Tree) (p : Path) : Except FileError Location :=
  match p.fault? with
  | some f => .error (.faultyPath f)
  | none =>
    if pathLimit < (Utf8.encode (t.absolute p).toText).length then .error .nameTooLong
    else t.walk [] (t.spelledOut p)

def find (t : Tree) (p : Path) : Except FileError (Location × Entry) :=
  match t.locate p with
  | .error e => .error e
  | .ok l =>
    match t.entryAt? l with
    | some e => .ok (l, e)
    | none => .error .notFound

/-- Whether anything stands at the end of a path; a path that leads nowhere leads to nothing, and nothing
has a path that cannot be handed over. -/
def contains (t : Tree) (p : Path) : Except FileError Bool :=
  match t.find p with
  | .ok _ => .ok true
  | .error .notFound => .ok false
  | .error .notADirectory => .ok false
  | .error (.faultyPath _) => .ok false
  | .error e => .error e

def isDirectory (t : Tree) (p : Path) : Bool :=
  match t.find p with
  | .ok (_, .directory) => true
  | _ => false

def newFileMode : Nat := 0o600

/-- Opens a file for writing from its start: an existing one becomes empty and keeps its mode. -/
def truncate (t : Tree) (p : Path) : Except FileError (Tree × Location) :=
  match t.locate p with
  | .error e => .error e
  | .ok l =>
    match t.entryAt? l with
    | some .directory => .error .isADirectory
    | some (.file mode _) => .ok (t.put l (.file mode []), l)
    | none => .ok (t.put l (.file newFileMode []), l)

def openAtEnd (t : Tree) (p : Path) : Except FileError (Tree × Location) :=
  match t.locateSpelledOut p with
  | .error e => .error e
  | .ok l =>
    match t.entryAt? l with
    | some .directory => .error .isADirectory
    | some (.file _ _) => .ok (t, l)
    | none => .ok (t.put l (.file newFileMode []), l)

def setBytes (t : Tree) (l : Location) (b : Bytes) : Tree :=
  match t.entryAt? l with
  | some (.file mode _) => t.put l (.file mode b)
  | _ => t

def readFile (t : Tree) (p : Path) : Except FileError Bytes :=
  match t.find p with
  | .error e => .error e
  | .ok (_, .directory) => .error .isADirectory
  | .ok (_, .file _ b) => .ok b

def setMode (t : Tree) (p : Path) (mode : Nat) : Except FileError Tree :=
  match t.find p with
  | .error e => .error e
  | .ok (_, .directory) => .ok t
  | .ok (l, .file _ b) => .ok (t.put l (.file mode b))

def removeFile (t : Tree) (p : Path) : Except FileError Tree :=
  match t.find p with
  | .error e => .error e
  | .ok (_, .directory) => .error .isADirectory
  | .ok (l, .file _ _) => .ok (t.erase l)

/-- Moves a file to where another path leads, in place of a file that may stand there.  A directory is
not replaced. -/
def moveFile (t : Tree) (source target : Path) : Except FileError Tree :=
  match t.find source with
  | .error e => .error e
  | .ok (origin, e) =>
    match t.locate target with
    | .error e => .error e
    | .ok destination =>
      match e, t.entryAt? destination with
      | .directory, _ => .error .isADirectory
      | _, some .directory => .error .isADirectory
      | e, _ => .ok ((t.erase origin).put destination e)

def makeDirectory (t : Tree) (p : Path) : Except FileError Tree :=
  match t.locate p with
  | .error e => .error e
  | .ok l =>
    match t.entryAt? l with
    | some _ => .error .alreadyExists
    | none => .ok (t.put l .directory)

/-- Makes a directory with all the directories that lead to it, the components being given from the last
one on.  What is a directory already stays; directories that were made stay even if a later one cannot
be. -/
def ensureDirectoryAt (t : Tree) (a : Anchor) : List Text → Tree × Option FileError
  | [] => (t, if t.isDirectory ⟨a, []⟩ then none else some .alreadyExists)
  | c :: cs =>
    let p : Path := ⟨a, (c :: cs).reverse⟩
    let orExisting (t : Tree) (e : FileError) : Tree × Option FileError :=
      (t, if t.isDirectory p then none else some e)
    match t.makeDirectory p with
    | .ok t' => (t', none)
    | .error .notFound =>
      match t.ensureDirectoryAt a cs with
      | (t', some e) => (t', some e)
      | (t', none) =>
        match t'.makeDirectory p with
        | .ok t'' => (t'', none)
        | .error .notFound => (t', some .notFound)
        | .error e => orExisting t' e
    | .error e => orExisting t e

def ensureDirectory (t : Tree) (p : Path) : Tree × Option FileError :=
  t.ensureDirectoryAt p.anchor p.components.reverse

end Tree
end Exposition
