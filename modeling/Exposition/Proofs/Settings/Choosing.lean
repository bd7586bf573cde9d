import Mathlib.Data.List.Basic
import Exposition.Proofs.Log.Levels
import Exposition.Proofs.Settings.Directories
/-!
# Choosing — where each setting comes from, and what is wrong with it

For each setting one value is chosen: the first argument with its name, else the last entry of the environment with its name,
else the default (`Chosen`).  What was not chosen is never looked at, and what was is checked, also where something else is
found wrong.  So the complaints are those about each setting in turn, and then those about the arguments that name none
(`load_takesChosen`).
-/
namespace Exposition

/-! ## What becomes of a value -/

namespace Setting

/-- What a setting holds if it is given a value that is valid for it.  A path is valid only if nothing is wrong with that of
its directory. -/
def Takes (s : Setting) (v : RawValue) (x : Value) : Prop :=
  s.field.kind.Takes (s.field.before v) x ∧ ∀ p, x = .path p → p.parent.fault? = none

/-- A path can only be used if nothing is wrong with that of its directory. -/
def usable : Except Problem Value → Except Problem Value
  | .ok (.path p) => if p.parent.fault?.isSome then .error .unusablePath else .ok (.path p)
  | r => r

/-- What is made of a value for a setting, if the system refuses no directory. -/
def check (P : Settings.Package) (s : Setting) (v : RawValue) : Except Problem Value :=
  usable (P.read s.field.kind (s.field.before v))

/-- What is wrong with a value for a setting, if anything is. -/
def problem? (P : Settings.Package) (s : Setting) (v : RawValue) : Option Problem :=
  match s.check P v with
  | .ok _ => none
  | .error p => some p

variable {P : Settings.Package} {s : Setting} {v : RawValue} {x : Value}

theorem usable_eq_ok_iff {r : Except Problem Value} :
    usable r = .ok x ↔ r = .ok x ∧ ∀ p, x = .path p → p.parent.fault? = none := by
  rcases r with q | y
  · exact ⟨nofun, fun h => nomatch h.1⟩
  · cases y with
    | path p =>
      simp only [usable]
      cases hfault : p.parent.fault? with
      | none => exact ⟨fun h => ⟨h, fun q hq => by cases h; cases hq; exact hfault⟩, And.left⟩
      | some fault =>
        refine ⟨nofun, fun ⟨h, hnone⟩ => ?_⟩
        cases h
        exact nomatch hfault.symm.trans (hnone p rfl)
    | _ => exact ⟨fun h => ⟨h, fun q hq => by cases h; cases hq⟩, And.left⟩

theorem check_eq_ok_iff (hP : P.Documented) : s.check P v = .ok x ↔ s.Takes v x := by
  rw [check, usable_eq_ok_iff, hP.read_iff, Takes]

theorem problem?_eq_none_iff (hP : P.Documented) : s.problem? P v = none ↔ ∃ x, s.Takes v x := by
  simp only [← check_eq_ok_iff hP, problem?]
  cases s.check P v with
  | ok x => exact ⟨fun _ => ⟨x, rfl⟩, fun _ => rfl⟩
  | error p => exact ⟨nofun, fun ⟨_, h⟩ => nomatch h⟩

/-- A level is a text that is one of the five names in upper case. -/
theorem takes_logLevel_iff : logLevel.Takes v x ↔ ∃ w : Text, v = .text w ∧ w.upper ∈ Log.levelNames ∧ x = .text w.upper := by
  constructor
  · rintro ⟨⟨t, ht, hv, rfl⟩, -⟩
    cases v with
    | text w =>
      obtain rfl : w.upper = t := RawValue.text.inj hv
      exact ⟨w, rfl, ht, rfl⟩
    | _ => cases hv
  · rintro ⟨w, rfl, hw, rfl⟩
    exact ⟨⟨w.upper, hw, rfl, rfl⟩, nofun⟩

end Setting

namespace Settings

variable {P : Package} {t t' : Tree} {s : Setting} {env env' : Environment} {args : Arguments}

/-! ## The value that is chosen -/

/-- Where the value of a setting comes from: the first argument with its name, else the last entry of the environment with
its name, else its default. -/
inductive Chosen (env : Environment) (args : Arguments) (s : Setting) : RawValue → Prop
  | argument {before after : List (Text × RawValue)} {n : Text} {v : RawValue}
      (split : args.entries = before ++ (n, v) :: after) (name : n.lower = s.name)
      (first : ∀ e ∈ before, e.1.lower ≠ s.name) :
    Chosen env args s v
  | environment {before after : List (Text × Text)} {n t : Text} (noArgument : ∀ e ∈ args.entries, e.1.lower ≠ s.name)
      (split : env.entries = before ++ (n, t) :: after) (name : n.lower = s.name)
      (last : ∀ e ∈ after, e.1.lower ≠ s.name) :
    Chosen env args s (.text t)
  | default (noArgument : ∀ e ∈ args.entries, e.1.lower ≠ s.name) (noEntry : ∀ e ∈ env.entries, e.1.lower ≠ s.name) :
    Chosen env args s s.field.default

theorem fromArguments?_eq_none_iff : fromArguments? args s = none ↔ ∀ e ∈ args.entries, e.1.lower ≠ s.name := by
  simp only [fromArguments?, Option.map_eq_none_iff, List.find?_eq_none, decide_eq_true_eq, ne_eq]

theorem fromArguments?_eq_some_iff {v : RawValue} : fromArguments? args s = some v ↔
    ∃ before n after, args.entries = before ++ (n, v) :: after ∧ n.lower = s.name ∧
      ∀ e ∈ before, e.1.lower ≠ s.name := by
  simp only [fromArguments?, Option.map_eq_some_iff, List.find?_eq_some_iff_append, decide_eq_true_eq,
    Bool.not_eq_true', decide_eq_false_iff_not]
  constructor
  · rintro ⟨⟨n, _⟩, ⟨hname, before, after, hsplit, hfirst⟩, rfl⟩
    exact ⟨before, n, after, hsplit, hname, hfirst⟩
  · rintro ⟨before, n, after, hsplit, hname, hfirst⟩
    exact ⟨(n, v), ⟨hname, before, after, hsplit, hfirst⟩, rfl⟩

theorem fromEnvironment?_eq_none_iff : fromEnvironment? env s = none ↔ ∀ e ∈ env.entries, e.1.lower ≠ s.name := by
  simp only [fromEnvironment?, Option.map_eq_none_iff, List.find?_eq_none, List.mem_reverse, decide_eq_true_eq, ne_eq]

theorem fromEnvironment?_eq_some_iff {v : RawValue} : fromEnvironment? env s = some v ↔
    ∃ before n t after, v = .text t ∧ env.entries = before ++ (n, t) :: after ∧ n.lower = s.name ∧
      ∀ e ∈ after, e.1.lower ≠ s.name := by
  simp only [fromEnvironment?, Option.map_eq_some_iff, List.find?_eq_some_iff_append, decide_eq_true_eq,
    Bool.not_eq_true', decide_eq_false_iff_not]
  constructor
  · rintro ⟨⟨n, t⟩, ⟨hname, after, before, hsplit, hlast⟩, rfl⟩
    refine ⟨before.reverse, n, t, after.reverse, rfl, ?_, hname, fun e he => hlast e (List.mem_reverse.1 he)⟩
    rw [← List.reverse_reverse env.entries, hsplit, List.reverse_append, List.reverse_cons, List.append_assoc]
    rfl
  · rintro ⟨before, n, t, after, rfl, hsplit, hname, hlast⟩
    refine ⟨(n, t), ⟨hname, after.reverse, before.reverse, ?_, fun e he => hlast e (List.mem_reverse.1 he)⟩, rfl⟩
    rw [hsplit, List.reverse_append, List.reverse_cons, List.append_assoc]
    rfl

/-- What is given for a setting. -/
def given? (env : Environment) (args : Arguments) (s : Setting) : Option RawValue :=
  (fromArguments? args s).or (fromEnvironment? env s)

theorem chosen_of_given (env : Environment) (args : Arguments) (s : Setting) :
    chosen env args s = (given? env args s).getD s.field.default := rfl

theorem given?_of_argument {v : RawValue} (h : fromArguments? args s = some v) : given? env args s = some v := by
  rw [given?, h, Option.some_or]

theorem given?_of_noArgument (h : ∀ e ∈ args.entries, e.1.lower ≠ s.name) :
    given? env args s = fromEnvironment? env s := by
  rw [given?, fromArguments?_eq_none_iff.2 h, Option.none_or]

/-- There is always one value that is chosen. -/
theorem chosen_iff {v : RawValue} : Chosen env args s v ↔ chosen env args s = v := by
  rw [chosen_of_given]
  constructor
  · intro h
    cases h with
    | argument hsplit hname hfirst =>
      rw [given?_of_argument (fromArguments?_eq_some_iff.2 ⟨_, _, _, hsplit, hname, hfirst⟩), Option.getD_some]
    | environment hno hsplit hname hlast =>
      rw [given?_of_noArgument hno, fromEnvironment?_eq_some_iff.2 ⟨_, _, _, _, rfl, hsplit, hname, hlast⟩,
        Option.getD_some]
    | default hno hnone => rw [given?_of_noArgument hno, fromEnvironment?_eq_none_iff.2 hnone, Option.getD_none]
  · rintro rfl
    cases hargument : fromArguments? args s with
    | some v =>
      obtain ⟨before, n, after, hsplit, hname, hfirst⟩ := fromArguments?_eq_some_iff.1 hargument
      rw [given?_of_argument hargument, Option.getD_some]
      exact .argument hsplit hname hfirst
    | none =>
      have hno := fromArguments?_eq_none_iff.1 hargument
      rw [given?_of_noArgument hno]
      cases hentry : fromEnvironment? env s with
      | some v =>
        obtain ⟨before, n, t, after, rfl, hsplit, hname, hlast⟩ := fromEnvironment?_eq_some_iff.1 hentry
        exact .environment hno hsplit hname hlast
      | none => exact .default hno (fromEnvironment?_eq_none_iff.1 hentry)

/-! ## Entries that are never looked at -/

/-- A name in the environment that counts: that of a setting, in some case, which no argument gives. -/
def Consulted (args : Arguments) (n : Text) : Prop :=
  ∃ s ∈ Setting.all, n.lower = s.name ∧ ∀ e ∈ args.entries, e.1.lower ≠ s.name

instance (args : Arguments) (n : Text) : Decidable (Consulted args n) :=
  inferInstanceAs (Decidable (∃ s ∈ Setting.all, _))

theorem fromEnvironment?_filter (h : ∀ e ∈ args.entries, e.1.lower ≠ s.name) :
    fromEnvironment? env s =
      ((env.entries.filter (Consulted args ·.1)).reverse.find? (·.1.lower = s.name)).map (.text ·.2) := by
  rw [fromEnvironment?, ← List.filter_reverse, List.find?_filter]
  congr 2
  funext e
  by_cases he : e.1.lower = s.name
  · have hconsulted : Consulted args e.1 := ⟨s, s.mem_all, he, h⟩
    simp [he, hconsulted]
  · simp [he]

theorem given?_congr
    (h : env'.entries.filter (Consulted args ·.1) = env.entries.filter (Consulted args ·.1)) (s : Setting) :
    given? env' args s = given? env args s := by
  cases hargument : fromArguments? args s with
  | some v => rw [given?_of_argument hargument, given?_of_argument hargument]
  | none =>
    have hno := fromArguments?_eq_none_iff.1 hargument
    rw [given?_of_noArgument hno, given?_of_noArgument hno, fromEnvironment?_filter hno, fromEnvironment?_filter hno, h]

/-- Of the environment and the arguments, loading sees what is given for each setting, and the names of the arguments. -/
theorem load_congr (hP : P.Documented) (h : ∀ s, given? env' args s = given? env args s) :
    load P t env' args = load P t env args := by
  have hgiven : ∀ (env : Environment) (s : Setting),
      (Package.reading P.read).given? names env args s.name = given? env args s := by
    intro env s
    simp only [Package.reading, if_pos s.name_mem, s.lower_name]
    rfl
  have hsame : (Package.reading P.read).given? names env' args = (Package.reading P.read).given? names env args := by
    funext n
    by_cases hn : n ∈ names
    · obtain ⟨f, hf, rfl⟩ := List.mem_map.1 hn
      obtain ⟨s, -, rfl⟩ := List.mem_map.1 hf
      exact (hgiven env' s).trans ((h s).trans (hgiven env s).symm)
    · simp only [Package.reading, if_neg hn]
  rw [hP.load_eq_reading, hP.load_eq_reading, load, load, hsame]

/-! ## Putting the settings together -/

/-- What is found for a setting, a problem being told as a complaint about it. -/
def found (P : Package) (chosen : Setting → RawValue) (s : Setting) : Except Complaint Value :=
  (s.check P (chosen s)).mapError (⟨s.name, ·⟩)

section Assembly

variable {chosen : Setting → RawValue} {strangers : List Text}

theorem found_eq_ok_iff (hP : P.Documented) {x : Value} : found P chosen s = .ok x ↔ s.Takes (chosen s) x := by
  rw [← Setting.check_eq_ok_iff hP, found]
  cases s.check P (chosen s) with
  | ok y => exact ⟨fun h => by cases h; rfl, fun h => by cases h; rfl⟩
  | error p => exact ⟨nofun, nofun⟩

theorem complaints_map_found : ∀ (ss : List Setting),
    complaints (ss.map (found P chosen)) = ss.filterMap fun s => (s.problem? P (chosen s)).map (⟨s.name, ·⟩)
  | [] => rfl
  | s :: ss => by
    rw [List.map_cons, complaints_cons, complaints_map_found ss, List.filterMap_cons]
    simp only [found, Setting.problem?]
    cases s.check P (chosen s) <;> rfl

/-- There are settings just if they hold what was chosen, which is valid, and no argument is a stranger. -/
theorem assemble_found_eq_ok_iff (hP : P.Documented) {x : Settings} :
    assemble (Setting.all.map (found P chosen)) strangers = .ok x ↔
      (∀ s : Setting, s.Takes (chosen s) (x.value s)) ∧ strangers = [] := by
  constructor
  · intro h
    obtain ⟨hvalues, hstrangers⟩ := assemble_eq_ok h
    rw [List.map_map] at hvalues
    refine ⟨fun s => ?_, hstrangers⟩
    have hfound : found P chosen s = .ok (x.value s) := List.map_inj_left.1 hvalues s s.mem_all
    exact (found_eq_ok_iff hP).1 hfound
  · rintro ⟨htakes, rfl⟩
    have hvalues : Setting.all.map (found P chosen) = (Setting.all.map x.value).map .ok := by
      rw [List.map_map]
      exact List.map_congr_left fun s _ => (found_eq_ok_iff hP).2 (htakes s)
    rw [hvalues, assemble_values]

theorem exists_assemble_found_iff (hP : P.Documented) :
    (∃ x, assemble (Setting.all.map (found P chosen)) strangers = .ok x) ↔
      (∀ s : Setting, ∃ x, s.Takes (chosen s) x) ∧ strangers = [] := by
  simp only [assemble_found_eq_ok_iff hP]
  constructor
  · rintro ⟨x, htakes, hstrangers⟩
    exact ⟨fun s => ⟨_, htakes s⟩, hstrangers⟩
  · rintro ⟨hvalid, hstrangers⟩
    choose value hvalue using hvalid
    have hholds : List.Forall₂ (fun s x => s.field.kind.Holds x) Setting.all (Setting.all.map value) := by
      rw [List.forall₂_map_right_iff, List.forall₂_same]
      exact fun s _ => (hvalue s).1.holds
    obtain ⟨x, hx⟩ := exists_of_holds hholds
    exact ⟨x, fun s => List.map_inj_left.1 hx s s.mem_all ▸ hvalue s, hstrangers⟩

/-- If there are none, every problem is told, in the order of the settings. -/
theorem assemble_found_eq_error (hP : P.Documented) {e : LoadError}
    (h : assemble (Setting.all.map (found P chosen)) strangers = .error e) :
    e = .invalid (Setting.all.filterMap (fun s => (s.problem? P (chosen s)).map (⟨s.name, ·⟩)) ++
      Package.unknown strangers) := by
  by_cases hnone : complaints (Setting.all.map (found P chosen)) ++ Package.unknown strangers = []
  · rw [complaints_map_found, List.append_eq_nil_iff] at hnone
    have hvalid : ∀ s : Setting, ∃ x, s.Takes (chosen s) x := fun s =>
      (Setting.problem?_eq_none_iff hP).1 (Option.map_eq_none_iff.1 (List.filterMap_eq_nil_iff.1 hnone.1 s s.mem_all))
    obtain ⟨x, hx⟩ := (exists_assemble_found_iff hP).2 ⟨hvalid, List.map_eq_nil_iff.1 hnone.2⟩
    cases hx.symm.trans h
  · rw [assemble_of_complaints hnone, complaints_map_found] at h
    exact (Except.error.inj h).symm

end Assembly

/-- What is found for a path whose directory is prepared does not depend on the tree. -/
theorem found_of_finish (hs : s.field.after = ensureParent) {r : Except Complaint Value}
    (h : finish s.field t (told env args s P) = (t', .ok r)) : r = found P (chosen env args) s := by
  show r = (Setting.usable (told env args s P)).mapError (Complaint.mk s.name)
  generalize told env args s P = read at h ⊢
  cases h ▸ prepared hs t read with
  | unread => rfl
  | @noPath x hnone =>
    cases x with
    | path p => exact absurd rfl (hnone p)
    | _ => rfl
  | made hmake =>
    simp only [Setting.usable, Tree.fault?_of_ensureDirectory hmake]
    rfl
  | unusable hfault =>
    simp only [Setting.usable, hfault]
    rfl

/-- What is read for a field that makes no directory is no path. -/
theorem outcome_eq_found (hP : P.Documented) (hs : s.field.kind ≠ .path) :
    outcome env args s P = found P (chosen env args) s := by
  show (told env args s P).mapError (Complaint.mk s.name) = (Setting.usable (told env args s P)).mapError (Complaint.mk s.name)
  unfold Setting.usable
  split
  · rename_i p hread
    have htakes := hP.read_iff.1 hread
    generalize s.field.kind = k at htakes hs
    cases k with
    | boolean => exact nomatch htakes
    | oneOf words => exact nomatch htakes
    | path => exact absurd rfl hs
    | text => exact nomatch htakes
  · rfl

/-- Unless the system refuses a directory, the settings are put together from what is found for each. -/
theorem load_of_unrefused (hP : P.Documented) (h : Unrefused t env args) :
    (load P t env args).2 = assemble (Setting.all.map (found P (chosen env args))) (strangers args) := by
  obtain ⟨textfilePath, logFile, hfirst, hsecond⟩ := exists_finished hP h
  rw [load_eq_of_loaded hP (.assembled hfirst hsecond), found_of_finish (s := .textfilePath) rfl hfirst,
    found_of_finish (s := .logFile) rfl hsecond, withPaths, outcome_eq_found hP (by decide),
    outcome_eq_found hP (by decide), outcome_eq_found hP (by decide), outcome_eq_found hP (by decide)]
  rfl

theorem strangers_eq (args : Arguments) :
    strangers args = (args.entries.map Prod.fst).filter fun n => ∀ s ∈ Setting.all, n.lower ≠ s.name := by
  unfold strangers
  congr 1
  funext n
  have hname : n.lower ∈ names.map Text.lower ↔ ∃ s : Setting, n.lower = s.name := by
    simp only [names, fields, List.mem_map, exists_exists_and_eq_and]
    exact ⟨fun ⟨s, _, hs⟩ => ⟨s, hs.symm.trans s.lower_name⟩, fun ⟨s, hs⟩ => ⟨s, s.mem_all, s.lower_name.trans hs.symm⟩⟩
  rw [Bool.eq_iff_iff, Bool.not_eq_true', ← Bool.not_eq_true, List.contains_iff_mem, hname, decide_eq_true_eq, not_exists]
  exact ⟨fun h s _ => h s, fun h s => h s s.mem_all⟩

theorem strangers_eq_nil_iff : strangers args = [] ↔ ∀ e ∈ args.entries, ∃ s : Setting, e.1.lower = s.name := by
  rw [strangers_eq, List.filter_eq_nil_iff, List.forall_mem_map]
  refine forall₂_congr fun e _ => ?_
  simp only [decide_eq_true_eq, ne_eq, not_forall, not_not]
  exact ⟨fun ⟨s, _, hs⟩ => ⟨s, hs⟩, fun ⟨s, hs⟩ => ⟨s, s.mem_all, hs⟩⟩

end Settings
end Exposition
