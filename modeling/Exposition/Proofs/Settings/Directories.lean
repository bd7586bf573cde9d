import Exposition.Proofs.Settings.Loading
/-!
# Directories — those of the configured paths

The directory of the metrics file is made first, then that of the log file (`Loaded`).  The first one that the system refuses
ends loading with the error of the system, whatever else is wrong with the settings; what was made until then stays.  Once
there are settings, both directories are there, and so loading the same settings again finds them and makes nothing
(`load_makesDirectories`).
-/
namespace Exposition
namespace Settings

open Exposition.Tree (Grows)

variable {P : Package} {t : Tree} {s : Setting} {env : Environment} {args : Arguments}

/-! ## One path -/

/-- What comes of a path once its directory is made: there is no path, the directory is there, nothing has such a path, or
the system refuses. -/
inductive Prepared (t : Tree) (f : Field) :
    Except Problem Value → Tree × Except FileError (Except Complaint Value) → Prop
  | unread {q : Problem} : Prepared t f (.error q) (t, .ok (.error ⟨f.name, q⟩))
  | noPath {x : Value} (noPath : ∀ p, x ≠ .path p) : Prepared t f (.ok x) (t, .ok (.ok x))
  | made {p : Path} {t' : Tree} (make : t.ensureDirectory p.parent = (t', none)) :
    Prepared t f (.ok (.path p)) (t', .ok (.ok (.path p)))
  | unusable {p : Path} {fault : Path.Fault} (fault : p.parent.fault? = some fault) :
    Prepared t f (.ok (.path p)) (t, .ok (.error ⟨f.name, .unusablePath⟩))
  | refused {p : Path} {t' : Tree} {e : FileError} (make : t.ensureDirectory p.parent = (t', some e))
      (system : e.IsSystem) :
    Prepared t f (.ok (.path p)) (t', .error e)

theorem prepared {f : Field} (hf : f.after = ensureParent) (t : Tree) (r : Except Problem Value) :
    Prepared t f r (finish f t r) := by
  cases r with
  | error q => exact .unread
  | ok x =>
    cases x with
    | path p =>
      rcases hmake : t.ensureDirectory p.parent with ⟨t', e?⟩
      cases e? with
      | none =>
        simp only [finish, hf, ensureParent, hmake]
        exact .made hmake
      | some e =>
        cases e with
        | faultyPath fault =>
          simp only [finish, hf, ensureParent, hmake]
          cases hfault : p.parent.fault? with
          | none => exact ((Tree.isSystem_iff_of_ensureDirectory hmake).2 hfault).elim
          | some fault' =>
            rw [Tree.ensureDirectory_of_fault hfault] at hmake
            cases hmake
            exact .unusable hfault
        | _ =>
          simp only [finish, hf, ensureParent, hmake]
          exact .refused hmake (by trivial)
    | _ =>
      simp only [finish, hf, ensureParent]
      exact .noPath (by simp)

/-- The path that is read, if there is one. -/
def pathOf : Except Problem Value → Option Path
  | .ok (.path p) => some p
  | _ => none

/-- Makes the directory of a path, if there is one. -/
def makeParent (t : Tree) : Option Path → Tree × Option FileError
  | none => (t, none)
  | some p => t.ensureDirectory p.parent

/-- The system refuses to make the directory of a path. -/
def Refuses (t : Tree) (p : Option Path) (e : FileError) : Prop := e.IsSystem ∧ (makeParent t p).2 = some e

theorem not_refuses_of_made {p : Option Path} (h : (makeParent t p).2 = none) (e : FileError) : ¬Refuses t p e := by
  rintro ⟨-, hrefused⟩
  rw [h] at hrefused
  cases hrefused

/-- What is read for a path is the path that is given. -/
theorem pathOf_told (hP : P.Documented) (hs : s = .textfilePath ∨ s = .logFile) :
    pathOf (told env args s P) = pathGiven? env args s := by
  have hread : told env args s P = P.read .path (chosen env args s) := by rcases hs with rfl | rfl <;> rfl
  rw [hread, pathGiven?]
  cases hchosen : chosen env args s with
  | text w =>
    rw [hP.path.2 (.inr ⟨w, rfl, rfl⟩)]
    rfl
  | absent =>
    rw [hP.path.2 (.inl ⟨rfl, rfl⟩)]
    rfl
  | _ =>
    unfold pathOf
    split
    · rename_i p hp
      rcases hP.path.1 hp with ⟨hv, -⟩ | ⟨w, hv, -⟩ <;> cases hv
    · rfl

section Finish

variable {f : Field} (hf : f.after = ensureParent) {r : Except Problem Value}

include hf

theorem finish_of_refuses {e : FileError} (h : Refuses t (pathOf r) e) :
    finish f t r = ((makeParent t (pathOf r)).1, .error e) := by
  obtain ⟨hsystem, hrefused⟩ := h
  generalize hout : finish f t r = out
  cases hout ▸ prepared hf t r with
  | unread => cases hrefused
  | @noPath x hnone =>
    cases x with
    | path p => exact absurd rfl (hnone p)
    | _ => cases hrefused
  | made hmake =>
    rw [pathOf, makeParent, hmake] at hrefused
    cases hrefused
  | unusable hfault =>
    rw [pathOf, makeParent, Tree.ensureDirectory_of_fault hfault] at hrefused
    cases hrefused
    exact hsystem.elim
  | refused hmake _ =>
    rw [pathOf, makeParent, hmake] at hrefused ⊢
    cases hrefused
    rfl

theorem finish_of_not_refuses (h : ∀ e, ¬Refuses t (pathOf r) e) :
    ∃ r', finish f t r = ((makeParent t (pathOf r)).1, .ok r') := by
  generalize hout : finish f t r = out
  cases hout ▸ prepared hf t r with
  | unread => exact ⟨_, rfl⟩
  | @noPath x hnone =>
    cases x with
    | path p => exact absurd rfl (hnone p)
    | _ => exact ⟨_, rfl⟩
  | made hmake =>
    rw [pathOf, makeParent, hmake]
    exact ⟨_, rfl⟩
  | unusable hfault =>
    rw [pathOf, makeParent, Tree.ensureDirectory_of_fault hfault]
    exact ⟨_, rfl⟩
  | refused hmake hsystem => exact absurd ⟨hsystem, congrArg Prod.snd hmake⟩ (h _)

/-- A path that is accepted is the one that was read, and its directory is there. -/
theorem directory_of_finish {t' : Tree} {y : Value} (h : finish f t r = (t', .ok (.ok y))) :
    r = .ok y ∧ ∀ p, y = .path p → t'.isDirectory p.parent = true := by
  cases h ▸ prepared hf t r with
  | noPath hnone => exact ⟨rfl, fun p hp => absurd hp (hnone p)⟩
  | made hmake =>
    refine ⟨rfl, fun p hp => ?_⟩
    cases hp
    exact Tree.isDirectory_of_ensureDirectory hmake

/-- Where the directory of a path is there already, nothing is made. -/
theorem finish_of_directory {y : Value} (h : ∀ p, y = .path p → t.isDirectory p.parent = true) :
    finish f t (.ok y) = (t, .ok (.ok y)) := by
  cases y with
  | path p => simp only [finish, hf, ensureParent, Tree.ensureDirectory_of_isDirectory (h p rfl)]
  | _ => simp only [finish, hf, ensureParent]

end Finish

/-! ## Both paths -/

/-- The system refuses the directory of neither path. -/
def Unrefused (t : Tree) (env : Environment) (args : Arguments) : Prop :=
  let metricsFile := pathGiven? env args .textfilePath
  (∀ e, ¬Refuses t metricsFile e) ∧ ∀ e, ¬Refuses (makeParent t metricsFile).1 (pathGiven? env args .logFile) e

/-- If the system refuses neither directory, both are prepared. -/
theorem exists_finished (hP : P.Documented) (h : Unrefused t env args) :
    let first := (makeParent t (pathGiven? env args .textfilePath)).1
    ∃ textfilePath logFile,
      finish Setting.textfilePath.field t (told env args .textfilePath P) = (first, .ok textfilePath) ∧
      finish Setting.logFile.field first (told env args .logFile P) =
        ((makeParent first (pathGiven? env args .logFile)).1, .ok logFile) := by
  intro first
  obtain ⟨hmetrics, hlog⟩ := h
  rw [← pathOf_told hP (.inl rfl)] at hmetrics
  rw [← pathOf_told hP (.inr rfl)] at hlog
  obtain ⟨textfilePath, htextfile⟩ := finish_of_not_refuses (f := Setting.textfilePath.field) rfl hmetrics
  obtain ⟨logFile, hlogFile⟩ := finish_of_not_refuses (f := Setting.logFile.field) rfl hlog
  rw [pathOf_told hP (.inl rfl)] at htextfile
  rw [pathOf_told hP (.inr rfl)] at hlogFile
  exact ⟨textfilePath, logFile, htextfile, hlogFile⟩

/-- Either there are settings, with the paths that were accepted, or there are complaints. -/
theorem withPaths_cases (P : Package) (env : Environment) (args : Arguments)
    (textfilePath logFile : Except Complaint Value) :
    (∃ x, withPaths P env args textfilePath logFile = .ok x ∧ textfilePath = .ok (.ofPath? x.textfilePath) ∧
      logFile = .ok (.ofPath? x.logFile)) ∨
      ∃ complaints, withPaths P env args textfilePath logFile = .error (.invalid complaints) := by
  cases h : withPaths P env args textfilePath logFile with
  | ok x =>
    obtain ⟨hvalues, -⟩ := assemble_eq_ok h
    obtain ⟨-, hvalues⟩ := List.cons.inj hvalues
    obtain ⟨htextfile, hvalues⟩ := List.cons.inj hvalues
    obtain ⟨-, hvalues⟩ := List.cons.inj hvalues
    obtain ⟨hlog, -⟩ := List.cons.inj hvalues
    exact .inl ⟨x, rfl, htextfile, hlog⟩
  | error e =>
    obtain ⟨complaints, rfl⟩ := assemble_eq_error h
    exact .inr ⟨complaints, rfl⟩

theorem withPaths_ne_file (textfilePath logFile : Except Complaint Value) (e : FileError) :
    withPaths P env args textfilePath logFile ≠ .error (.file e) := by
  intro h
  rcases withPaths_cases P env args textfilePath logFile with ⟨_, hx, -⟩ | ⟨_, hx⟩ <;> cases hx.symm.trans h

theorem ofPath?_eq_path {p? : Option Path} {p : Path} : Value.ofPath? p? = .path p ↔ p? = some p := by
  cases p? with
  | none => exact ⟨nofun, nofun⟩
  | some q => exact ⟨fun h => by cases h; rfl, fun h => by cases h; rfl⟩

theorem pathOf_ofPath? (p? : Option Path) : pathOf (.ok (.ofPath? p?)) = p? := by
  cases p? <;> rfl

/-- **Once there are settings, their paths are those that were given, the directories of these are there, and loading the
settings again makes nothing.** -/
theorem directories_of_load (hP : P.Documented) {t' : Tree} {x : Settings} (h : load P t env args = (t', .ok x)) :
    x.textfilePath = pathGiven? env args .textfilePath ∧ x.logFile = pathGiven? env args .logFile ∧
      (∀ p, x.textfilePath = some p ∨ x.logFile = some p → t'.isDirectory p.parent = true) ∧
      load P t' env args = (t', .ok x) := by
  generalize hout : (Except.ok x : Except LoadError Settings) = out at h
  cases h ▸ loaded hP t env args with
  | metricsFileRefused => cases hout
  | logFileRefused => cases hout
  | @assembled t₁ _ textfilePath logFile hfirst hsecond =>
    rcases withPaths_cases P env args textfilePath logFile with ⟨x', hx', htextfile, hlog⟩ | ⟨_, hx'⟩
    · rw [hx'] at hout
      cases hout
      subst htextfile hlog
      obtain ⟨hreadTextfile, htextfile⟩ := directory_of_finish (f := Setting.textfilePath.field) rfl hfirst
      obtain ⟨hreadLog, hlog⟩ := directory_of_finish (f := Setting.logFile.field) rfl hsecond
      have hgrows := finish_grows (f := Setting.logFile.field) rfl t₁ (told env args .logFile P)
      rw [hsecond] at hgrows
      have hkept : ∀ p, Value.ofPath? x.textfilePath = .path p → t'.isDirectory p.parent = true := fun p hp =>
        hgrows.isDirectory (htextfile p hp)
      refine ⟨?_, ?_, fun p hp => hp.elim (fun hp => hkept p (ofPath?_eq_path.2 hp)) fun hp => hlog p (ofPath?_eq_path.2 hp), ?_⟩
      · rw [← pathOf_told hP (.inl rfl), hreadTextfile, pathOf_ofPath?]
      · rw [← pathOf_told hP (.inr rfl), hreadLog, pathOf_ofPath?]
      have hagain := finish_of_directory (f := Setting.textfilePath.field) rfl hkept
      have hagain' := finish_of_directory (f := Setting.logFile.field) rfl hlog
      rw [← hreadTextfile] at hagain
      rw [← hreadLog] at hagain'
      exact load_eq_of_loaded hP (.assembled hagain hagain')
    · rw [hx'] at hout
      cases hout

theorem makeParent_grows (t : Tree) (p : Option Path) :
    Grows t (makeParent t p).1 [] (fun l => ∃ q, p = some q ∧ t.OnTheWay q.parent l) := by
  cases p with
  | none => exact .refl ..
  | some q => exact (t.ensureDirectory_grows q.parent).mono (List.Subset.refl _) fun l hl => ⟨q, rfl, hl⟩

/-- **Loading settings makes the directories of their paths.**  Whether there are settings in the end or not, what stood
anywhere stands there as it was, and what is new is a directory on the way to that of the metrics file or that of the log
file.  If there are settings, they have the paths that were given, whose directories are there, and loading once more gives
the same settings and makes nothing.  If the system refuses the directory of the metrics file, its error is the outcome,
whatever else was given, and nothing is made for the log file; the same holds for the directory of the log file when the other
one is not refused.  There is no other way to an error of the system. -/
theorem load_makesDirectories (P : Package) (hP : P.Documented) (t : Tree) (env : Environment) (args : Arguments) :
    let metricsFile := pathGiven? env args .textfilePath
    let logFile := pathGiven? env args .logFile
    let first := (makeParent t metricsFile).1
    let second := (makeParent first logFile).1
    let t' := (load P t env args).1
    (∀ l, t'.entryAt? l = t.entryAt? l ∨
      (t.entryAt? l = none ∧ t'.entryAt? l = some .directory ∧ OnPathWay env args t l)) ∧
    (∀ x, (load P t env args).2 = .ok x →
      x.textfilePath = metricsFile ∧ x.logFile = logFile ∧
      (∀ p, x.textfilePath = some p ∨ x.logFile = some p → t'.isDirectory p.parent = true) ∧
      load P t' env args = (t', .ok x)) ∧
    (∀ e, Refuses t metricsFile e → load P t env args = (first, .error (.file e)) ∧
      ∀ l, first.entryAt? l = t.entryAt? l ∨ ∃ p, metricsFile = some p ∧ t.OnTheWay p.parent l) ∧
    (∀ e, (∀ e', ¬Refuses t metricsFile e') → Refuses first logFile e →
      load P t env args = (second, .error (.file e))) ∧
    (Unrefused t env args → t' = second ∧ ∀ e, (load P t env args).2 ≠ .error (.file e)) := by
  intro metricsFile logFile first second t'
  have hmetrics : pathOf (told env args .textfilePath P) = metricsFile := pathOf_told hP (.inl rfl)
  have hlogFile : pathOf (told env args .logFile P) = logFile := pathOf_told hP (.inr rfl)
  refine ⟨fun l => (load_grows hP t env args).entry l List.not_mem_nil, fun x hx => ?_, fun e he => ⟨?_, fun l => ?_⟩,
    fun e hfirst he => ?_, fun hunrefused => ?_⟩
  · exact directories_of_load hP (Prod.ext rfl hx)
  · rw [← hmetrics] at he
    have hload := load_eq_of_loaded hP (.metricsFileRefused (finish_of_refuses (f := Setting.textfilePath.field) rfl he))
    rw [hmetrics] at hload
    exact hload
  · exact ((makeParent_grows t metricsFile).entry l List.not_mem_nil).imp_right fun ⟨_, _, hl⟩ => hl
  · rw [← hmetrics] at hfirst
    rw [← hlogFile] at he
    obtain ⟨r, hr⟩ := finish_of_not_refuses (f := Setting.textfilePath.field) rfl hfirst
    rw [hmetrics] at hr
    have hload := load_eq_of_loaded hP (.logFileRefused hr (finish_of_refuses (f := Setting.logFile.field) rfl he))
    rw [hlogFile] at hload
    exact hload
  · obtain ⟨r, r', hr, hr'⟩ := exists_finished hP hunrefused
    have hload := load_eq_of_loaded hP (.assembled hr hr')
    refine ⟨congrArg Prod.fst hload, fun e => ?_⟩
    rw [hload]
    exact withPaths_ne_file r r' e

/-- A relative path that goes up again, and one that starts from the root. -/
theorem load_makesDirectories_twoPaths :
    let t : Tree := ⟨⟨[(["w"], .directory)], by decide⟩, ["w"]⟩
    let env : Environment := ⟨[("Textfile_Path", "a/../b//./c/x.prom"), ("LOG_FILE", "/w/d/y.log")], by decide⟩
    let t' := (load .standard t env .empty).1
    Package.standard.Documented ∧
    ∃ x, (load .standard t env .empty).2 = .ok x ∧
      x.textfilePath = some (.relative ["a", "..", "b", "c", "x.prom"]) ∧ x.logFile = some ⟨.root, ["w", "d", "y.log"]⟩ ∧
      (∀ p, x.textfilePath = some p ∨ x.logFile = some p → t'.isDirectory p.parent = true) ∧
      load .standard t' env .empty = (t', .ok x) := by
  intro t env t'
  have hok : (load .standard t env .empty).2.isOk = true := by decide +kernel
  obtain ⟨-, hdirectories, -⟩ := load_makesDirectories .standard Package.standard_documented t env .empty
  cases hload : (load .standard t env .empty).2 with
  | error e =>
    rw [hload] at hok
    cases hok
  | ok x =>
    obtain ⟨htextfile, hlog, hthere, hagain⟩ := hdirectories x hload
    have hmetrics : x.textfilePath = some (.relative ["a", "..", "b", "c", "x.prom"]) :=
      htextfile.trans (by decide +kernel)
    have hlogFile : x.logFile = some ⟨.root, ["w", "d", "y.log"]⟩ := hlog.trans (by decide +kernel)
    exact ⟨Package.standard_documented, x, rfl, hmetrics, hlogFile, hthere, hagain⟩

/-- A directory that is only passed on the way up is made as well, and also where a level is wrong. -/
example :
    let result := load .standard ⟨⟨[(["w"], .directory)], by decide⟩, ["w"]⟩
      ⟨[("TEXTFILE_PATH", "a/../b//./c/x.prom"), ("LOG_LEVEL", "loud")], by decide⟩ .empty
    result.1.entries.entries.map Prod.fst = ([["w"], ["w", "a"], ["w", "b"], ["w", "b", "c"]] : List Location) ∧
      result.2.isOk = false := by
  intro result
  decide +kernel

end Settings
end Exposition
