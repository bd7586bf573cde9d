import Exposition.Proofs.Document.Accounting
import Exposition.Proofs.Files.Refusals
import Exposition.Proofs.MetricsFile.Clearing
/-!
# Answers — how a call ends and what the log is told of it

A call tells each failure of the system as a plain no, with one event, if it comes from the attempt.  What comes from
removing the temporary file is told as an error in spite of this, and it is so just if a directory stands in place of that
file, or its name is too long to ask for it (`Tree.Obstructs`), once the directory of the metrics file is there.
-/
namespace Exposition

/-- What the path leads to keeps a temporary file from being removed: a directory, or a name that is too long to ask for. -/
def Tree.Obstructs (t : Tree) (p : Path) : FileError → Prop
  | .isADirectory => ∃ l, t.find p = .ok (l, .directory)
  | .nameTooLong => t.find p = .error .nameTooLong
  | _ => False

namespace MetricsFile

def failureKind : Text := "textfile_error"

/-- The events that tell that a metrics file was not written. -/
def failures (log : List (Log.Event Nat)) : List (Log.Event Nat) := log.filter (fun e => e.kind? = some failureKind)

theorem failures_append (log log' : List (Log.Event Nat)) : failures (log ++ log') = failures log ++ failures log' :=
  List.filter_append log log'

/-- Writing a document tells of no metrics file. -/
theorem failures_write (withCreated : Bool) (elapsed : Binary64) (before : Sink) (ss : List Snapshot) :
    failures (Document.write withCreated elapsed before ss).log = [] := by
  have h : Document.Accounts withCreated elapsed before 0 0 ss (Document.write withCreated elapsed before ss) :=
    Document.writeFrom_accounts withCreated elapsed ss before 0 0
  unfold Document.Accounts at h
  split at h
  · rw [h]
    rfl
  · rw [h]
    rfl
  · obtain ⟨k, -, hlog⟩ := h
    rw [hlog]
    rfl

variable {f : MetricsFile} {c : Circumstances} {t : Tree} {temporary : Path} {ss : List Snapshot}

/-! ## Attempts -/

theorem failures_attempt (f : MetricsFile) (c : Circumstances) (t : Tree) (temporary : Path) (ss : List Snapshot) :
    failures (f.attempt c t temporary ss).2.2 = [] := by
  unfold attempt
  split
  · rfl
  unfold fill
  split
  · rfl
  split
  · rfl
  simp only
  split <;> exact failures_write ..

/-- What an attempt tells of its failure. -/
def Attempt.error? : Attempt → Option Text
  | .failed error => some error
  | _ => none

theorem failures_attemptLog (f : MetricsFile) (a : Attempt) :
    failures (f.attemptLog a) = (a.error?.map (.metricsFileFailed f.path.toText)).toList := by
  cases a <;> rfl

/-- A text that tells of a failure of the system: of the step at which it fails, or of an error about files. -/
def Circumstances.Tells (c : Circumstances) (error : Text) : Prop :=
  error = c.reason ∨ ∃ e : FileError, e.IsSystem ∧ error = c.wording e

/-- Why an attempt ends as it does: the system may fail, the snapshots may have no document, and the path of the temporary
file may be one that nothing can have. -/
def Attempt.Explained (f : MetricsFile) (c : Circumstances) (temporary : Path) (ss : List Snapshot) : Attempt → Prop
  | .done => True
  | .failed error => c.Tells error
  | .broken fault => Document.encode f.withCreated ss = .error fault
  | .refused _ => temporary.fault? ≠ none

theorem explained_failure (c : Circumstances) : c.failure.Explained f c temporary ss :=
  .inl rfl

theorem explained_ending {e : FileError} (h : temporary.fault? = none → e.IsSystem) :
    (c.ending e).Explained f c temporary ss := by
  cases e with
  | faultyPath g => exact h
  | _ => exact .inr ⟨_, by trivial, rfl⟩

/-- What can be handed over if the temporary file can. -/
theorem faults_of_temporary (hname : f.temporary? = some temporary) (hvalid : temporary.fault? = none) :
    f.path.fault? = none ∧ f.path.parent.fault? = none := by
  obtain ⟨cs, n, hcs, rfl⟩ := temporary?_eq_some hname
  have hpath : f.path = ⟨f.path.anchor, cs ++ [n]⟩ := by rw [← hcs]
  have hparent : f.path.parent = ⟨f.path.anchor, cs⟩ := by rw [Path.parent, hcs, List.dropLast_concat]
  rw [hparent]
  exact ⟨hpath ▸ Path.fault?_of_longer_name hvalid, Path.fault?_of_longer_path (List.prefix_append cs _) hvalid⟩

theorem explained_makeParent (hname : f.temporary? = some temporary) (c : Circumstances) (t : Tree) {a : Attempt}
    (h : (f.makeParent c t).2 = some a) : a.Explained f c temporary ss := by
  unfold makeParent at h
  split at h
  · cases h
    exact explained_failure c
  · split at h
    · rename_i hdir
      cases h
      refine explained_ending fun hvalid => ?_
      exact Tree.isSystem_of_ensureDirectory (faults_of_temporary hname hvalid).2 (congrArg Prod.snd hdir)
    · cases h

theorem explained_install (hname : f.temporary? = some temporary) (c : Circumstances) (full : Tree) :
    (f.install c full temporary).2.Explained f c temporary ss := by
  unfold install
  split
  · exact explained_failure c
  split
  · rename_i hmove
    refine explained_ending fun hvalid => ?_
    exact Tree.isSystem_of_moveFile hvalid (faults_of_temporary hname hvalid).1 hmove
  split
  · exact explained_failure c
  split
  · rename_i hmode
    refine explained_ending fun hvalid => ?_
    exact Tree.isSystem_of_setMode (faults_of_temporary hname hvalid).1 hmode
  · trivial

theorem writeError_sink {c : Circumstances} {n : Nat} (h : c.sink.fits n = false) : c.sink.writeError = c.reason := by
  unfold Circumstances.sink at h ⊢
  split at h
  · rfl
  · cases h
  · cases h

theorem flushError_sink {c : Circumstances} {reason : Text} (h : c.sink.flushError = some reason) :
    reason = c.reason := by
  unfold Circumstances.sink at h
  split at h
  · cases h
  · exact (Option.some.inj h).symm
  · cases h

/-- A document that goes to the temporary file fails as the system does, or as it would in memory. -/
theorem explained_write {fault : Document.WriteFault}
    (h : (Document.write f.withCreated c.elapsed c.sink ss).fault = some fault) :
    match fault with
    | .document fault => Document.encode f.withCreated ss = .error fault
    | .sink reason => reason = c.reason := by
  rw [(Document.write_streamed f.withCreated c.elapsed c.sink ss).fault, Document.endOf] at h
  split at h
  · split at h
    · rename_i hfault
      cases h
      simp only [Document.encode_eq, hfault]
    · obtain ⟨reason, hflush, rfl⟩ := Option.map_eq_some_iff.1 h
      exact flushError_sink hflush
  · rename_i hfits
    cases h
    exact writeError_sink (eq_false_of_ne_true hfits)

theorem explained_fill (hname : f.temporary? = some temporary) (c : Circumstances) (made : Tree) :
    (f.fill c made temporary ss).2.1.Explained f c temporary ss := by
  unfold fill
  split
  · exact explained_failure c
  split
  · rename_i htruncate
    exact explained_ending fun hvalid => Tree.isSystem_of_truncate hvalid htruncate
  simp only
  split
  · rename_i hfault
    exact explained_write hfault
  · rename_i hfault
    exact .inl (explained_write hfault)
  · exact explained_install hname c _

/-- **Every attempt is explained.** -/
theorem explained_attempt (hname : f.temporary? = some temporary) (c : Circumstances) (t : Tree) (ss : List Snapshot) :
    (f.attempt c t temporary ss).2.1.Explained f c temporary ss := by
  unfold attempt
  rcases hdir : f.makeParent c t with ⟨made, _ | failure⟩
  · exact explained_fill hname c made
  · exact explained_makeParent hname c t (congrArg Prod.snd hdir)

/-- **If there is a document, and a path for the temporary file that can be handed over, nothing but the system breaks off
an attempt.** -/
theorem attempt_done_or_failed {bytes : Bytes} (hencode : Document.encode f.withCreated ss = .ok bytes)
    (hname : f.temporary? = some temporary) (hvalid : temporary.fault? = none) (c : Circumstances) (t : Tree) :
    (f.attempt c t temporary ss).2.1 = .done ∨ ∃ error, (f.attempt c t temporary ss).2.1 = .failed error := by
  have hexplained := explained_attempt hname c t ss
  cases h : (f.attempt c t temporary ss).2.1 with
  | done => exact .inl rfl
  | failed error => exact .inr ⟨error, rfl⟩
  | broken fault =>
    rw [h] at hexplained
    cases hencode.symm.trans hexplained
  | refused g =>
    rw [h] at hexplained
    exact absurd hvalid hexplained

/-! ## Removing the temporary file -/

theorem cleanUp_eq_error_iff {e : FileError} : cleanUp t temporary = .error e ↔ t.Obstructs temporary e := by
  unfold cleanUp Tree.contains Tree.removeFile
  cases hfind : t.find temporary with
  | error e' =>
    have hcases : (∃ g, e' = .faultyPath g) ∨ Tree.WalkError e' := by
      rcases Tree.find_eq_error hfind with ⟨g, -, hg⟩ | ⟨-, hwalk⟩
      · exact .inl ⟨g, hg⟩
      · exact .inr hwalk
    rcases hcases with ⟨g, rfl⟩ | rfl | rfl | rfl <;> cases e <;> simp [Tree.Obstructs, hfind]
  | ok found =>
    obtain ⟨l, e'⟩ := found
    cases e' <;> cases e <;> simp [Tree.Obstructs, hfind]

theorem not_obstructs_of_takesFile {l : Location} (h : t.TakesFile temporary l) (e : FileError) :
    ¬t.Obstructs temporary e := by
  obtain ⟨t', hclean, -⟩ := cleanUp_of_takesFile h
  rw [← cleanUp_eq_error_iff, hclean]
  exact fun h => by cases h

theorem fault?_of_obstructs {e : FileError} (h : t.Obstructs temporary e) : temporary.fault? = none := by
  cases e with
  | isADirectory =>
    obtain ⟨l, hfind⟩ := h
    exact Tree.fault?_of_locate (Tree.find_eq_ok.1 hfind).1
  | nameTooLong =>
    rcases Tree.find_eq_error h with ⟨g, -, hg⟩ | ⟨hvalid, -⟩
    · cases hg
    · exact hvalid
  | _ => exact h.elim

/-- **The temporary file cannot be removed just if it could not have been when the attempt came to it**, and then the
attempt has failed. -/
theorem cleanUp_attempt (hname : f.temporary? = some temporary) (c : Circumstances) (t : Tree)
    (ss : List Snapshot) (e : FileError) :
    (cleanUp (f.attempt c t temporary ss).1 temporary = .error e ↔ (f.prepared c t).Obstructs temporary e) ∧
      ((f.prepared c t).Obstructs temporary e → (f.attempt c t temporary ss).2.1 ≠ .done) := by
  rcases attempt_reaches hname c t ss with ⟨htree, hdone⟩ | ⟨hbefore, hafter⟩
  · rw [htree]
    exact ⟨cleanUp_eq_error_iff, fun _ => hdone⟩
  · have hnot := not_obstructs_of_takesFile hbefore e
    rw [cleanUp_eq_error_iff]
    exact ⟨iff_of_false (not_obstructs_of_takesFile hafter e) hnot, fun h => absurd h hnot⟩

/-! ## Calls -/

/-- A call ends as its attempt does, unless the temporary file cannot be removed. -/
theorem writeAgainst_cases (hname : f.temporary? = some temporary) (c : Circumstances) (t : Tree)
    (ss : List Snapshot) :
    (∃ e, (f.prepared c t).Obstructs temporary e ∧ (f.writeAgainst c t ss).outcome = .error (.file e)) ∨
    ((∀ e, ¬(f.prepared c t).Obstructs temporary e) ∧
      (f.writeAgainst c t ss).outcome = attemptOutcome (f.attempt c t temporary ss).2.1) := by
  have hclean := cleanUp_attempt hname c t ss
  unfold writeAgainst
  rw [hname]
  simp only
  cases h : cleanUp (f.attempt c t temporary ss).1 temporary with
  | error e => exact .inl ⟨e, (hclean e).1.1 h, rfl⟩
  | ok t' =>
    refine .inr ⟨fun e hobstructs => ?_, rfl⟩
    rw [(hclean e).1.2 hobstructs] at h
    cases h

/-- Nothing but what is in the way of the temporary file lets a failure of the system through. -/
theorem attemptOutcome_ne_system {e : FileError} (he : e.IsSystem) (a : Attempt) :
    attemptOutcome a ≠ .error (.file e) := by
  cases a with
  | refused g =>
    intro h
    cases h
    exact he
  | _ => exact fun h => by cases h

theorem attemptOutcome_eq_ok {a : Attempt} {done : Bool} (h : attemptOutcome a = .ok done) :
    if done then a = .done else ∃ error, a = .failed error := by
  cases a with
  | done =>
    cases h
    exact rfl
  | failed error =>
    cases h
    exact ⟨error, rfl⟩
  | broken fault => cases h
  | refused g => cases h

/-- **A failure of the system is let through just if something is in the way of the temporary file.** -/
theorem writeAgainst_lets_through (hname : f.temporary? = some temporary) {e : FileError} (he : e.IsSystem) :
    (f.writeAgainst c t ss).outcome = .error (.file e) ↔ (f.prepared c t).Obstructs temporary e := by
  rcases writeAgainst_cases hname c t ss with ⟨e', hobstructs, houtcome⟩ | ⟨hnot, houtcome⟩
  · rw [houtcome]
    constructor
    · intro h
      cases h
      exact hobstructs
    · intro h
      rw [← cleanUp_eq_error_iff] at h hobstructs
      rw [h] at hobstructs
      cases hobstructs
      rfl
  · rw [houtcome]
    exact iff_of_false (attemptOutcome_ne_system he _) (hnot e)

/-- The answer tells whether the attempt was made to the end. -/
theorem attempt_of_answer (hname : f.temporary? = some temporary) {done : Bool}
    (h : (f.writeAgainst c t ss).outcome = .ok done) :
    if done then (f.attempt c t temporary ss).2.1 = .done
    else ∃ error, (f.attempt c t temporary ss).2.1 = .failed error := by
  rcases writeAgainst_cases hname c t ss with ⟨e, -, houtcome⟩ | ⟨-, houtcome⟩
  · rw [houtcome] at h
    cases h
  · exact attemptOutcome_eq_ok (houtcome.symm.trans h)

/-- An attempt behind which something is in the way of the temporary file was broken off by the system. -/
theorem attempt_of_obstructs {bytes : Bytes} (hencode : Document.encode f.withCreated ss = .ok bytes)
    (hname : f.temporary? = some temporary) {e : FileError} (h : (f.prepared c t).Obstructs temporary e) :
    ∃ error, (f.attempt c t temporary ss).2.1 = .failed error :=
  (attempt_done_or_failed hencode hname (fault?_of_obstructs h) c t).resolve_left ((cleanUp_attempt hname c t ss e).2 h)

/-- A call tells of a metrics file that was not written just what its attempt tells. -/
theorem failures_writeAgainst (hname : f.temporary? = some temporary) (c : Circumstances) (t : Tree)
    (ss : List Snapshot) : failures (f.writeAgainst c t ss).log =
      ((f.attempt c t temporary ss).2.1.error?.map (.metricsFileFailed f.path.toText)).toList := by
  have hlog : (f.writeAgainst c t ss).log = (f.attempt c t temporary ss).2.2 ++
      f.attemptLog (f.attempt c t temporary ss).2.1 := by
    unfold writeAgainst
    rw [hname]
    simp only
    split <;> rfl
  rw [hlog, failures_append, failures_attempt, failures_attemptLog, List.nil_append]

/-- The log is told that the system broke off an attempt. -/
theorem failures_of_failed (hname : f.temporary? = some temporary)
    (h : ∃ error, (f.attempt c t temporary ss).2.1 = .failed error) :
    ∃ error, c.Tells error ∧ failures (f.writeAgainst c t ss).log = [.metricsFileFailed f.path.toText error] := by
  obtain ⟨error, hfailed⟩ := h
  have hexplained := explained_attempt hname c t ss
  rw [hfailed] at hexplained
  refine ⟨error, hexplained, ?_⟩
  rw [failures_writeAgainst hname, hfailed]
  rfl

/-- **How a call ends.**  If the snapshots have a document, and the metrics file has a path that can be handed over and whose
last component is not empty, the answer is yes or no, unless a directory stands in place of the temporary file or its name
is too long, once the directory of the metrics file is there; then, and only then, a failure of the system is let through,
namely that of removing the temporary file.  Whenever the answer is no, and whenever a failure is let through, the log is
told exactly once that the metrics file was not written, and in the words of the system why; and it is not told so if the
answer is yes. -/
theorem writeAgainst_answers (f : MetricsFile) (c : Circumstances) (t : Tree) (ss : List Snapshot) {bytes : Bytes}
    (hencode : Document.encode f.withCreated ss = .ok bytes) :
    let r := f.writeAgainst c t ss
    let told := ∃ error, c.Tells error ∧ failures r.log = [.metricsFileFailed f.path.toText error]
    (f.temporary? = none → r.outcome = .error .emptyName) ∧
    (∀ temporary, f.temporary? = some temporary →
      (∀ e, e.IsSystem → (r.outcome = .error (.file e) ↔ (f.prepared c t).Obstructs temporary e)) ∧
      ((∀ e, ¬(f.prepared c t).Obstructs temporary e) → temporary.fault? = none → ∃ done, r.outcome = .ok done)) ∧
    (r.outcome = .ok true → failures r.log = []) ∧ (r.outcome = .ok false → told) ∧
    ∀ e, e.IsSystem → r.outcome = .error (.file e) → told := by
  intro r told
  have hempty : f.temporary? = none → r.outcome = .error .emptyName := by
    intro hname
    simp only [r, writeAgainst, hname]
  have hnamed : ∀ {o : Except WriteError Bool}, r.outcome = o → o ≠ .error .emptyName →
      ∃ temporary, f.temporary? = some temporary := by
    intro o houtcome ho
    cases hname : f.temporary? with
    | none => exact absurd (houtcome.symm.trans (hempty hname)) ho
    | some temporary => exact ⟨temporary, rfl⟩
  refine ⟨hempty, fun temporary hname => ⟨fun e he => writeAgainst_lets_through hname he, fun hnone hvalid => ?_⟩,
    fun houtcome => ?_, fun houtcome => ?_, fun e he houtcome => ?_⟩
  · rcases writeAgainst_cases hname c t ss with ⟨e, hobstructs, -⟩ | ⟨-, houtcome⟩
    · exact absurd hobstructs (hnone e)
    · rcases attempt_done_or_failed hencode hname hvalid c t with h | ⟨error, h⟩
      · exact ⟨true, by rw [houtcome, h]; rfl⟩
      · exact ⟨false, by rw [houtcome, h]; rfl⟩
  · obtain ⟨temporary, hname⟩ := hnamed houtcome (fun h => by cases h)
    have hdone : (f.attempt c t temporary ss).2.1 = .done := attempt_of_answer hname houtcome
    rw [failures_writeAgainst hname, hdone]
    rfl
  · obtain ⟨temporary, hname⟩ := hnamed houtcome (fun h => by cases h)
    exact failures_of_failed hname (attempt_of_answer hname houtcome)
  · obtain ⟨temporary, hname⟩ := hnamed houtcome (fun h => by cases h)
    exact failures_of_failed hname
      (attempt_of_obstructs hencode hname ((writeAgainst_lets_through hname he).1 houtcome))

/-- A file that cannot be put in place is told as a plain no. -/
theorem writeAgainst_answers_replacing :
    let f : MetricsFile := ⟨.relative ["m.prom"], false⟩
    let r := f.writeAgainst (.obstructed .replacing) ⟨Mapping.empty, []⟩ []
    (∃ bytes, Document.encode f.withCreated [] = .ok bytes) ∧ r.outcome = .ok false ∧
      ∃ error, failures r.log = [.metricsFileFailed "m.prom" error] := by
  intro f r
  have hencode : ∃ bytes, Document.encode f.withCreated [] = .ok bytes := ⟨_, rfl⟩
  obtain ⟨bytes, hbytes⟩ := hencode
  have houtcome : r.outcome = .ok false := by rfl
  obtain ⟨-, -, -, htold, -⟩ := writeAgainst_answers f (.obstructed .replacing) ⟨Mapping.empty, []⟩ [] hbytes
  obtain ⟨error, -, hlog⟩ := htold houtcome
  exact ⟨⟨bytes, hbytes⟩, houtcome, error, hlog⟩

/-- A directory in place of the temporary file makes a call end in an error of the system. -/
theorem write_letsThrough :
    let f : MetricsFile := ⟨.relative ["m.prom"], false⟩
    let t : Tree := Tree.put ⟨Mapping.empty, []⟩ ["m.prom.tmp"] .directory
    (∃ bytes, Document.encode f.withCreated [] = .ok bytes) ∧ (f.write t []).outcome = .error (.file .isADirectory) ∧
      ¬∃ done, (f.write t []).outcome = .ok done := by
  intro f t
  have houtcome : (f.write t []).outcome = .error (.file .isADirectory) := by rfl
  refine ⟨⟨_, rfl⟩, houtcome, fun ⟨done, h⟩ => ?_⟩
  rw [houtcome] at h
  cases h

end MetricsFile
end Exposition
