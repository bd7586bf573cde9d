import Exposition.Proofs.Files.Directories
import Exposition.Proofs.Settings.Packages
/-!
# Loading — what reading settings does to the tree

Of the six fields only the two paths do anything to the tree, and they are checked in this order (`Loaded`).  The
directory of a path is made as soon as the path is read, so loading settings makes directories on the way to those of
the metrics file and of the log file, whether all settings are found valid or not, and changes nothing else
(`load_grows`).
-/
namespace Exposition
namespace Settings

open Exposition.Tree (Grows)

/-! ## What is given -/

section Given

variable (env : Environment) (args : Arguments) (s : Setting)

/-- The value of the first argument with the name of the setting, names being matched in any case. -/
def fromArguments? : Option RawValue := (args.entries.find? (fun e => e.1.lower = s.name)).map Prod.snd

/-- The value of the last entry of the environment with the name of the setting. -/
def fromEnvironment? : Option RawValue :=
  (env.entries.reverse.find? (fun e => e.1.lower = s.name)).map (fun e => .text e.2)

/-- The value that is chosen for a setting. -/
def chosen : RawValue := ((fromArguments? args s).or (fromEnvironment? env s)).getD s.field.default

/-- The path that is given for a setting. -/
def pathGiven? : Option Path :=
  match chosen env args s with
  | .text t => some (.ofText t)
  | _ => none

/-- What is read of the value that is chosen for a setting. -/
def told (P : Package) : Except Problem Value := P.read s.field.kind (s.field.before (chosen env args s))

def outcome (P : Package) : Except Complaint Value := (told env args s P).mapError (⟨s.name, ·⟩)

end Given

/-- The names of the arguments that name no setting. -/
def strangers (args : Arguments) : List Text :=
  (args.entries.map Prod.fst).filter fun m => !(names.map Text.lower).contains m.lower

/-- What becomes of the settings, given what came of the two paths. -/
def withPaths (P : Package) (env : Environment) (args : Arguments) (textfilePath logFile : Except Complaint Value) :
    Except LoadError Settings :=
  assemble [outcome env args .createdTimestamps P, textfilePath, outcome env args .logLevel P, logFile,
    outcome env args .serviceName P, outcome env args .serviceVersion P] (strangers args)

variable {P : Package} {t t' : Tree} {s : Setting} {env : Environment} {args : Arguments}

/-! ## Fields in turn -/

theorem chosen_eq (s : Setting) (read : Kind → RawValue → Except Problem Value) :
    s.field.chosen ((Package.reading read).given? names env args) = chosen env args s := by
  have hlower : s.field.name.lower = s.name := s.lower_name
  have hmem : s.field.name ∈ names := s.name_mem
  simp only [Field.chosen, Package.reading, if_pos hmem, hlower]
  rfl

/-- Checks that start with a field whose values are taken as they are. -/
theorem checkAll_plain {read : Kind → RawValue → Except Problem Value} {given : Text → Option RawValue} {f : Field}
    (h : f.after = fun t v => (t, .ok v)) (fs : List Field) (t : Tree) :
    Package.checkAll read (f :: fs) given t = (Package.checkAll read fs given t).behind
      ((read f.kind (f.before (f.chosen given))).mapError (⟨f.name, ·⟩)) := by
  rw [Package.checkAll]
  cases read f.kind (f.before (f.chosen given)) with
  | error p => rfl
  | ok x =>
    simp only [finish, h]
    rfl

/-- How loading ends: the system refuses the directory of the metrics file, or that of the log file, or both are prepared
and the settings are put together. -/
inductive Loaded (P : Package) (t : Tree) (env : Environment) (args : Arguments) :
    Tree × Except LoadError Settings → Prop
  | metricsFileRefused {t₁ : Tree} {e : FileError}
      (first : finish Setting.textfilePath.field t (told env args .textfilePath P) = (t₁, .error e)) :
    Loaded P t env args (t₁, .error (.file e))
  | logFileRefused {t₁ t₂ : Tree} {textfilePath : Except Complaint Value} {e : FileError}
      (first : finish Setting.textfilePath.field t (told env args .textfilePath P) = (t₁, .ok textfilePath))
      (second : finish Setting.logFile.field t₁ (told env args .logFile P) = (t₂, .error e)) :
    Loaded P t env args (t₂, .error (.file e))
  | assembled {t₁ t₂ : Tree} {textfilePath logFile : Except Complaint Value}
      (first : finish Setting.textfilePath.field t (told env args .textfilePath P) = (t₁, .ok textfilePath))
      (second : finish Setting.logFile.field t₁ (told env args .logFile P) = (t₂, .ok logFile)) :
    Loaded P t env args (t₂, withPaths P env args textfilePath logFile)

theorem behind_ok (r : Except Complaint Value) (rs : List (Except Complaint Value)) :
    Checks.behind r (t, .ok rs) = (t, .ok (r :: rs)) := rfl

/-- **Of the checks only those of the two paths do anything to the tree, or end loading.** -/
theorem loaded (hP : P.Documented) (t : Tree) (env : Environment) (args : Arguments) :
    Loaded P t env args (load P t env args) := by
  rw [hP.load_eq_reading]
  generalize hgiven : (Package.reading P.read).given? names env args = given
  have hread : ∀ s : Setting, P.read s.field.kind (s.field.before (s.field.chosen given)) = told env args s P := by
    intro s
    rw [← hgiven, chosen_eq]
    rfl
  have hload : load (Package.reading P.read) t env args =
      (Package.checkAll P.read fields given t).conclude (strangers args) := by
    rw [← hgiven]
    rfl
  have hlast : ∀ t : Tree, Package.checkAll P.read [Setting.serviceName.field, Setting.serviceVersion.field] given t =
      (t, .ok [outcome env args .serviceName P, outcome env args .serviceVersion P]) := by
    intro t
    rw [checkAll_plain rfl, checkAll_plain rfl, hread, hread]
    rfl
  have hfields : fields = [Setting.createdTimestamps.field, Setting.textfilePath.field, Setting.logLevel.field,
    Setting.logFile.field, Setting.serviceName.field, Setting.serviceVersion.field] := rfl
  rw [hload, hfields, checkAll_plain rfl, Package.checkAll, hread .textfilePath]
  rcases hfirst : finish Setting.textfilePath.field t (told env args .textfilePath P) with ⟨t₁, e | textfilePath⟩
  · exact .metricsFileRefused hfirst
  · simp only
    rw [checkAll_plain rfl, Package.checkAll, hread .logFile]
    rcases hsecond : finish Setting.logFile.field t₁ (told env args .logFile P) with ⟨t₂, e | logFile⟩
    · exact .logFileRefused hfirst hsecond
    · simp only [hlast, behind_ok, hread]
      exact .assembled hfirst hsecond

/-- There is one way for loading to end. -/
theorem Loaded.unique {r r' : Tree × Except LoadError Settings} (h : Loaded P t env args r) (h' : Loaded P t env args r') :
    r = r' := by
  cases h with
  | metricsFileRefused first =>
    cases h' with
    | metricsFileRefused first' =>
      cases first.symm.trans first'
      rfl
    | logFileRefused first' | assembled first' => cases first.symm.trans first'
  | logFileRefused first second =>
    cases h' with
    | metricsFileRefused first' => cases first.symm.trans first'
    | logFileRefused first' second' =>
      cases first.symm.trans first'
      cases second.symm.trans second'
      rfl
    | assembled first' second' =>
      cases first.symm.trans first'
      cases second.symm.trans second'
  | assembled first second =>
    cases h' with
    | metricsFileRefused first' => cases first.symm.trans first'
    | logFileRefused first' second' =>
      cases first.symm.trans first'
      cases second.symm.trans second'
    | assembled first' second' =>
      cases first.symm.trans first'
      cases second.symm.trans second'
      rfl

theorem load_eq_of_loaded (hP : P.Documented) {r : Tree × Except LoadError Settings} (h : Loaded P t env args r) :
    load P t env args = r :=
  (loaded hP t env args).unique h

/-! ## The tree -/

/-- What a field that makes directories does to the tree. -/
theorem finish_grows {f : Field} (h : f.after = ensureParent) (t : Tree) (r : Except Problem Value) :
    Grows t (finish f t r).1 [] (fun l => ∃ p, r = .ok (.path p) ∧ t.OnTheWay p.parent l) := by
  cases r with
  | error p => exact .refl ..
  | ok x =>
    have hensure : Grows t (ensureParent t x).1 [] (fun l => ∃ p, Except.ok (ε := Problem) x = .ok (.path p) ∧
        t.OnTheWay p.parent l) := by
      unfold ensureParent
      split
      · rename_i p
        have hgrows := (t.ensureDirectory_grows p.parent).mono (List.Subset.refl _)
          fun l hl => (⟨p, rfl, hl⟩ : ∃ q, Except.ok (ε := Problem) (Value.path p) = .ok (.path q) ∧
            t.OnTheWay q.parent l)
        split <;> rename_i hmade <;> rw [hmade] at hgrows <;> exact hgrows
      · exact .refl ..
    unfold finish
    simp only [h]
    split <;> rename_i hafter <;> rw [hafter] at hensure <;> exact hensure

/-- A location on the way to the directory of the metrics file or of the log file. -/
def OnPathWay (env : Environment) (args : Arguments) (t : Tree) (l : Location) : Prop :=
  ∃ s ∈ [Setting.textfilePath, .logFile], ∃ p, pathGiven? env args s = some p ∧ t.OnTheWay p.parent l

/-- The path that is read for a setting is the one that is given. -/
theorem pathGiven?_of_told (hP : P.Documented) {p : Path} (hs : s = .textfilePath ∨ s = .logFile)
    (h : told env args s P = .ok (.path p)) : pathGiven? env args s = some p := by
  have hread : P.read .path (chosen env args s) = .ok (.path p) := by
    rcases hs with rfl | rfl <;> exact h
  rcases hP.path.1 hread with ⟨-, hnothing⟩ | ⟨w, hw, hp⟩
  · cases hnothing
  · cases hp
    rw [pathGiven?, hw]

/-- **Loading settings makes directories on the way to their paths and changes nothing else.** -/
theorem load_grows (hP : P.Documented) (t : Tree) (env : Environment) (args : Arguments) :
    Grows t (load P t env args).1 [] (OnPathWay env args t) := by
  have hfirst := (finish_grows (f := Setting.textfilePath.field) rfl t (told env args .textfilePath P)).mono
    (List.Subset.refl _) fun l ⟨p, hp, hl⟩ => (⟨_, List.mem_cons_self, p, pathGiven?_of_told hP (.inl rfl) hp, hl⟩ :
      OnPathWay env args t l)
  have hsecond : ∀ t₁ : Tree, (∀ p, t₁.spelledOut p = t.spelledOut p) →
      Grows t₁ (finish Setting.logFile.field t₁ (told env args .logFile P)).1 [] (OnPathWay env args t) := by
    intro t₁ hspelled
    refine (finish_grows (f := Setting.logFile.field) rfl t₁ (told env args .logFile P)).mono (List.Subset.refl _) ?_
    rintro l ⟨p, hp, ds, hds, hl⟩
    exact ⟨_, List.mem_cons_of_mem _ List.mem_cons_self, p, pathGiven?_of_told hP (.inr rfl) hp, ds, hds,
      by rw [hl, hspelled]⟩
  generalize hout : load P t env args = out
  cases hout ▸ loaded hP t env args with
  | metricsFileRefused first =>
    rw [first] at hfirst
    exact hfirst
  | logFileRefused first second =>
    rw [first] at hfirst
    have hgrows := hsecond _ hfirst.spelledOut
    rw [second] at hgrows
    exact hfirst.trans hgrows
  | assembled first second =>
    rw [first] at hfirst
    have hgrows := hsecond _ hfirst.spelledOut
    rw [second] at hgrows
    exact hfirst.trans hgrows

end Settings
end Exposition
