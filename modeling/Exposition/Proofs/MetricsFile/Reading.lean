import Exposition.Proofs.MetricsFile.Replacing
import Exposition.Proofs.Text.Utf8
/-!
# Reading — what calls leave to be read

A run of calls, each of which may fail at any of its steps, leaves the document of the last call in which the metrics
file was replaced (`Holds.foldl`).  What is read of it is its text with its line ends unified, which is the text itself
only if there is no carriage return in it (`read_after_calls`): escaping leaves carriage returns as they are, and the
file is read line by line.
-/
namespace Exposition
namespace MetricsFile

/-- A call: what it meets, such as a step at which the system fails, and the snapshots to write. -/
structure Call where
  circumstances : Circumstances
  snapshots : List Snapshot

/-- Whether the metrics file is replaced in a call. -/
def replaces (f : MetricsFile) (t : Tree) (c : Call) : Bool :=
  match f.temporary? with
  | none => false
  | some temporary => (f.replaced? c.circumstances t temporary c.snapshots).isSome

def treeAfter (f : MetricsFile) (t : Tree) (c : Call) : Tree := (f.writeAgainst c.circumstances t c.snapshots).tree

/-- The snapshots of the last call in which the metrics file is replaced. -/
def lastReplacing? (f : MetricsFile) : Tree → List Call → Option (List Snapshot)
  | _, [] => none
  | t, c :: cs => (f.lastReplacing? (f.treeAfter t c) cs).or (if f.replaces t c then some c.snapshots else none)

/-- What there is at the metrics file: the document of some snapshots, or nothing, in a directory that is there. -/
def Holds (f : MetricsFile) (t : Tree) : Option (List Snapshot) → Prop
  | none => t.isDirectory f.path.parent = true ∧ t.contains f.path = .ok false
  | some ss => ∃ l mode bytes, t.find f.path = .ok (l, .file mode bytes) ∧ Document.encode f.withCreated ss = .ok bytes

variable {f : MetricsFile} {t : Tree} {ss : List Snapshot}

/-- A call in which the metrics file is not replaced leaves there what there is. -/
theorem Holds.keep {o : Option (List Snapshot)} {c : Call} (h : f.Holds t o) (hreplaces : f.replaces t c = false) :
    f.Holds (f.treeAfter t c) o := by
  unfold replaces at hreplaces
  unfold MetricsFile.treeAfter
  cases hname : f.temporary? with
  | none =>
    rw [writeAgainst, hname]
    exact h
  | some temporary =>
    rw [hname] at hreplaces
    have hreplaced : f.replaced? c.circumstances t temporary c.snapshots = none := by simpa using hreplaces
    obtain ⟨hgrows, -⟩ := writeAgainst_of_not_replaced hname hreplaced
    have hother : t.spelledOut f.path ∉ [t.spelledOut temporary] := fun hm =>
      spelledOut_temporary_ne hname t (List.mem_singleton.1 hm).symm
    cases o with
    | none =>
      obtain ⟨hparent, habsent⟩ := h
      obtain ⟨n, hn, -⟩ := Option.map_eq_some_iff.1 hname
      exact ⟨hgrows.isDirectory hparent, hgrows.contains_eq_false hparent hn hother habsent⟩
    | some ss =>
      obtain ⟨l, mode, bytes, hfind, hencode⟩ := h
      obtain ⟨hlocate, hentry⟩ := Tree.find_eq_ok.1 hfind
      rw [← Tree.locate_eq_ok hlocate] at hother
      exact ⟨l, mode, bytes, Tree.find_eq_ok.2 ⟨hgrows.locate hlocate, hgrows.entry_of_some hother hentry⟩, hencode⟩

/-- A call in which the metrics file is replaced leaves its document there. -/
theorem holds_of_replaces {c : Call} (hreplaces : f.replaces t c = true) :
    f.Holds (f.treeAfter t c) (some c.snapshots) := by
  unfold replaces at hreplaces
  split at hreplaces
  · cases hreplaces
  · rename_i temporary hname
    obtain ⟨placed, hreplaced⟩ := Option.isSome_iff_exists.1 hreplaces
    obtain ⟨bytes, mode, hencode, hfind⟩ := writeAgainst_of_replaced hname hreplaced
    exact ⟨_, mode, bytes, hfind, hencode⟩

/-- **After a call the metrics file holds the document of the call, or what it held before.** -/
theorem Holds.treeAfter {o : Option (List Snapshot)} (h : f.Holds t o) (c : Call) :
    f.Holds (f.treeAfter t c) ((if f.replaces t c then some c.snapshots else none).or o) := by
  cases hreplaces : f.replaces t c with
  | false => exact h.keep hreplaces
  | true => exact holds_of_replaces hreplaces

/-- **After a run of calls the metrics file holds the document of the last call in which it was replaced.** -/
theorem Holds.foldl : ∀ (calls : List Call) {t : Tree} {o : Option (List Snapshot)}, f.Holds t o →
    f.Holds (calls.foldl f.treeAfter t) ((f.lastReplacing? t calls).or o)
  | [], _, _, h => h
  | c :: cs, t, o, h => by
    rw [List.foldl_cons, lastReplacing?, Option.or_assoc]
    exact Holds.foldl cs (h.treeAfter c)

/-- Whatever was there before, once the metrics file is replaced it holds the document of the last such call. -/
theorem holds_of_lastReplacing : ∀ {calls : List Call} {t : Tree}, f.lastReplacing? t calls = some ss →
    f.Holds (calls.foldl f.treeAfter t) (some ss)
  | c :: cs, t, h => by
    rw [lastReplacing?] at h
    rw [List.foldl_cons]
    cases hlater : f.lastReplacing? (f.treeAfter t c) cs with
    | some ss' =>
      rw [hlater, Option.some_or] at h
      exact holds_of_lastReplacing (hlater.trans h)
    | none =>
      rw [hlater, Option.none_or] at h
      cases hreplaces : f.replaces t c with
      | false =>
        rw [hreplaces] at h
        cases h
      | true =>
        rw [hreplaces] at h
        cases h
        have hend := (holds_of_replaces hreplaces).foldl cs
        rw [hlater] at hend
        exact hend

theorem read_of_holds_none (h : f.Holds t none) : f.read t = .ok none := by
  rw [read, h.2]

theorem decode_of_encode {withCreated : Bool} {bytes : Bytes} (h : Document.encode withCreated ss = .ok bytes) :
    Utf8.decode bytes = .ok (Utf8.replaceSurrogates (Document.emission withCreated ss).text) := by
  rw [(Document.encode_eq_ok_iff.1 h).2]
  exact Utf8.decode_encode _

theorem read_of_holds_some (h : f.Holds t (some ss)) :
    ∃ bytes text, Document.encode f.withCreated ss = .ok bytes ∧ Utf8.decode bytes = .ok text ∧
      f.read t = .ok (some text.unifyLineEnds) := by
  obtain ⟨l, mode, bytes, hfind, hencode⟩ := h
  have hdecode := decode_of_encode hencode
  refine ⟨bytes, _, hencode, hdecode, ?_⟩
  rw [read, Tree.contains, Tree.readFile, hfind]
  simp only
  rw [hdecode]

/-- **What is read after a run of calls is the text of the document of the last call in which the metrics file was
replaced**, its line ends unified, and nothing if there was no such call and nothing before, in the directory that was
made when the settings were loaded.  It is the text as it was written just if there is no carriage return in it. -/
theorem read_after_calls (f : MetricsFile) (t : Tree) (calls : List Call) :
    (t.isDirectory f.path.parent = true → t.contains f.path = .ok false → f.lastReplacing? t calls = none →
      f.read (calls.foldl f.treeAfter t) = .ok none) ∧
    (∀ ss, f.lastReplacing? t calls = some ss →
      ∃ bytes text, Document.encode f.withCreated ss = .ok bytes ∧ Utf8.decode bytes = .ok text ∧
        f.read (calls.foldl f.treeAfter t) = .ok (some text.unifyLineEnds) ∧
        (f.read (calls.foldl f.treeAfter t) = .ok (some text) ↔ Text.carriageReturn ∉ text)) := by
  constructor
  · intro hparent habsent hlast
    have hstart : f.Holds t none := ⟨hparent, habsent⟩
    have hend := hstart.foldl calls
    rw [hlast] at hend
    exact read_of_holds_none hend
  · intro ss hlast
    obtain ⟨bytes, text, hencode, hdecode, hread⟩ := read_of_holds_some (holds_of_lastReplacing hlast)
    refine ⟨bytes, text, hencode, hdecode, hread, ?_⟩
    rw [hread, Except.ok.injEq, Option.some.injEq]
    exact Text.unifyLineEnds_eq_self_iff

/-- Three calls that do not get as far as replacing the metrics file, without one before them and behind one that does. -/
theorem read_after_calls_between_failures :
    let f : MetricsFile := ⟨.relative ["run", "m.prom"], false⟩
    let t : Tree := ⟨Mapping.empty.put ["run"] .directory, []⟩
    let failures : List Call := 
      [⟨.obstructed .opening, []⟩, ⟨.obstructed (.writing 3), []⟩, ⟨.undisturbed, [.foreign "Custom" 1]⟩]
    f.read (failures.foldl f.treeAfter t) = .ok none ∧
      ∃ bytes text, Document.encode false [] = .ok bytes ∧ Utf8.decode bytes = .ok text ∧
        f.read ((⟨.undisturbed, []⟩ :: failures).foldl f.treeAfter t) = .ok (some text.unifyLineEnds) := by
  intro f t failures
  have hparent : t.isDirectory f.path.parent = true := by decide +kernel
  have habsent : t.contains f.path = .ok false := by rfl
  have hnone : f.lastReplacing? t failures = none := by decide +kernel
  have hlast : f.lastReplacing? t (⟨.undisturbed, []⟩ :: failures) = some [] := by decide +kernel
  obtain ⟨bytes, text, hencode, hdecode, hread, -⟩ := (read_after_calls f t (⟨.undisturbed, []⟩ :: failures)).2 [] hlast
  exact ⟨(read_after_calls f t failures).1 hparent habsent hnone, bytes, text, hencode, hdecode, hread⟩

/-- A family whose help text has a carriage return in it. -/
def returnFamily : Family := ⟨⟨"g", some "a\rb", none⟩, .info [⟨[], none⟩]⟩

/-- The carriage return of a help text is written, for no escape is needed, and is not read. -/
theorem read_returnFamily :
    let f : MetricsFile := ⟨.relative ["m.prom"], false⟩
    let t : Tree := ⟨Mapping.empty, []⟩
    let c : Call := ⟨.undisturbed, [.family returnFamily]⟩
    t.isDirectory f.path.parent = true ∧ t.contains f.path = .ok false ∧ f.replaces t c = true ∧
      ∃ bytes text, Document.encode false c.snapshots = .ok bytes ∧ Utf8.decode bytes = .ok text ∧
        f.read (f.treeAfter t c) ≠ .ok (some text) := by
  intro f t c
  have hreplaces : f.replaces t c = true := by decide +kernel
  obtain ⟨bytes, text, hencode, hdecode, hread⟩ := read_of_holds_some (holds_of_replaces hreplaces)
  have htext := Except.ok.inj ((decode_of_encode hencode).symm.trans hdecode)
  have hreturn : Text.carriageReturn ∈ Utf8.replaceSurrogates (Document.emission false c.snapshots).text := by
    decide +kernel
  rw [htext] at hreturn
  refine ⟨by decide +kernel, by rfl, hreplaces, bytes, text, hencode, hdecode, ?_⟩
  rw [hread]
  intro h
  exact Text.unifyLineEnds_eq_self_iff.1 (Option.some.inj (Except.ok.inj h)) hreturn

end MetricsFile
end Exposition
