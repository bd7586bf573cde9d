import Exposition.Proofs.Mapping
import Exposition.Settings.Standard
/-!
# Packages — what the documentation settles

The laws of a package say of each step of loading what it does, so of two packages that read values alike neither can do
anything else than the other: a package does what is written out for its way of reading (`load_eq_reading`).  The standard
package obeys the laws (`standard_documented`).
-/
namespace Exposition

namespace Kind

/-- What a value that is valid for a kind is read as. -/
def Takes : Kind → RawValue → Value → Prop
  | boolean, v, x => ∃ b, v.Means b ∧ x = .boolean b
  | oneOf words, v, x => ∃ t ∈ words, v = .text t ∧ x = .text t
  | path, v, x => (v = .absent ∧ x = .nothing) ∨ ∃ t, v = .text t ∧ x = .path (.ofText t)
  | text, v, x => ∃ t, v = .text t ∧ x = .text t

/-- What a value of a kind may be. -/
def Holds : Kind → Value → Prop
  | boolean, x => ∃ b, x = .boolean b
  | oneOf words, x => ∃ t ∈ words, x = .text t
  | path, x => ∃ p, x = .ofPath? p
  | text, x => ∃ t, x = .text t

theorem Takes.holds {k : Kind} {v : RawValue} {x : Value} (h : k.Takes v x) : k.Holds x := by
  cases k with
  | boolean =>
    obtain ⟨b, -, rfl⟩ := h
    exact ⟨b, rfl⟩
  | oneOf words =>
    obtain ⟨w, hw, -, rfl⟩ := h
    exact ⟨w, hw, rfl⟩
  | path =>
    rcases h with ⟨-, rfl⟩ | ⟨w, -, rfl⟩
    · exact ⟨none, rfl⟩
    · exact ⟨some _, rfl⟩
  | text =>
    obtain ⟨w, -, rfl⟩ := h
    exact ⟨w, rfl⟩

end Kind

namespace Setting

theorem mem_all (s : Setting) : s ∈ all := by
  cases s <;> decide

theorem lower_name (s : Setting) : s.name.lower = s.name := by
  cases s <;> decide

theorem name_mem (s : Setting) : s.name ∈ Settings.names :=
  List.mem_map_of_mem (List.mem_map_of_mem s.mem_all)

end Setting

namespace Settings

/-! ## Records and their values -/

theorem complaints_cons (r : Except Complaint Value) (rs : List (Except Complaint Value)) :
    complaints (r :: rs) = complaints [r] ++ complaints rs := by
  cases r <;> rfl

theorem complaints_eq_nil_iff {rs : List (Except Complaint Value)} :
    complaints rs = [] ↔ ∃ xs : List Value, rs = xs.map .ok := by
  induction rs with
  | nil => exact ⟨fun _ => ⟨[], rfl⟩, fun _ => rfl⟩
  | cons r rs ih =>
    cases r with
    | error c => exact ⟨nofun, fun ⟨xs, h⟩ => by cases xs <;> cases h⟩
    | ok x =>
      rw [complaints_cons]
      refine ih.trans ⟨fun ⟨xs, h⟩ => ⟨x :: xs, by rw [h]; rfl⟩, fun ⟨xs, h⟩ => ?_⟩
      cases xs with
      | nil => cases h
      | cons y ys => exact ⟨ys, (List.cons.inj h).2⟩

theorem accepted_map_ok (xs : List Value) : accepted (xs.map .ok) = xs := by
  induction xs with
  | nil => rfl
  | cons x xs ih => exact congrArg (x :: ·) ih

/-- A value for each field, of its kind, makes a record. -/
theorem exists_of_holds {xs : List Value} (h : List.Forall₂ (fun s x => s.field.kind.Holds x) Setting.all xs) :
    ∃ x : Settings, xs = Setting.all.map x.value := by
  unfold Setting.all at h
  rcases h with _ | ⟨⟨c, rfl⟩, _ | ⟨⟨p, rfl⟩, _ | ⟨⟨l, -, rfl⟩, _ | ⟨⟨f, rfl⟩, _ | ⟨⟨n, rfl⟩, _ | ⟨⟨v, rfl⟩, _ | _⟩⟩⟩⟩⟩⟩
  exact ⟨⟨c, p, l, f, n, v⟩, rfl⟩

theorem assemble_values (x : Settings) : assemble ((Setting.all.map x.value).map .ok) [] = .ok x := by
  unfold assemble
  rw [complaints_eq_nil_iff.2 ⟨_, rfl⟩, accepted_map_ok, ofValues?_values]
  rfl

theorem ofValues?_eq_some {xs : List Value} {x : Settings} (h : ofValues? xs = some x) :
    xs = Setting.all.map x.value := by
  unfold ofValues? at h
  split at h
  · split at h <;> cases h <;> rfl
  · cases h

/-- A record is put together of values for its fields, without a complaint. -/
theorem assemble_eq_ok {rs : List (Except Complaint Value)} {strangers : List Text} {x : Settings}
    (h : assemble rs strangers = .ok x) : rs = (Setting.all.map x.value).map .ok ∧ strangers = [] := by
  unfold assemble at h
  split at h
  · rename_i x' hnone hvalues
    cases h
    obtain ⟨hok, hstrangers⟩ := List.append_eq_nil_iff.1 hnone
    obtain ⟨xs, rfl⟩ := complaints_eq_nil_iff.1 hok
    rw [accepted_map_ok] at hvalues
    rw [ofValues?_eq_some hvalues]
    exact ⟨rfl, List.map_eq_nil_iff.1 hstrangers⟩
  · cases h

theorem assemble_eq_error {rs : List (Except Complaint Value)} {strangers : List Text} {e : LoadError}
    (h : assemble rs strangers = .error e) : ∃ cs, e = .invalid cs := by
  unfold assemble at h
  split at h
  · cases h
  · exact ⟨_, (Except.error.inj h).symm⟩

theorem assemble_of_complaints {rs : List (Except Complaint Value)} {strangers : List Text}
    (h : complaints rs ++ Package.unknown strangers ≠ []) :
    assemble rs strangers = .error (.invalid (complaints rs ++ Package.unknown strangers)) := by
  unfold assemble
  split
  · rename_i hnone _
    exact absurd hnone h
  · rfl

/-! ## Checks -/

section Finish

variable {f : Field} {t t' : Tree} {r : Except Problem Value}

/-- What a field of the record accepts is the value that was read. -/
theorem eq_of_finish {s : Setting} {y : Value} (h : finish s.field t r = (t', .ok (.ok y))) : r = .ok y := by
  cases r with
  | error p => cases h
  | ok x =>
    have hafter : ∀ {o : Except FileError Value}, s.field.after t x = (t', o) → ∀ z, o = .ok z → z = x := by
      intro o ho z hz
      subst hz
      have hensure : ensureParent t x = (t', .ok z) → z = x := by
        unfold ensureParent
        split
        · split
          · exact fun h => by cases h; rfl
          · exact fun h => by cases h
        · exact fun h => by cases h; rfl
      cases s with
      | textfilePath => exact hensure ho
      | logFile => exact hensure ho
      | _ => exact by cases ho; rfl
    unfold finish at h
    simp only at h
    split at h
    · rename_i t₁ z hz
      cases h
      rw [hafter hz y rfl]
    · cases h
    · cases h

end Finish

namespace Package

variable {read : Kind → RawValue → Except Problem Value} {given given' : Text → Option RawValue} {t t' : Tree}

/-- Of what is given, the checks see what is given for the names of the fields. -/
theorem checkAll_congr : ∀ {fs : List Field} {t : Tree}, (∀ f ∈ fs, given f.name = given' f.name) →
    checkAll read fs given t = checkAll read fs given' t
  | [], _, _ => rfl
  | f :: fs, t, h => by
    have hchosen : f.chosen given = f.chosen given' := by rw [Field.chosen, Field.chosen, h f List.mem_cons_self]
    unfold checkAll
    rw [hchosen]
    split
    · rfl
    · rw [checkAll_congr fun f hf => h f (List.mem_cons_of_mem _ hf)]

/-- What is accepted for settings is what was read for them. -/
theorem forall₂_of_checkAll {Q : Setting → Value → Prop} (hread : ∀ (s : Setting) (x : Value),
      read s.field.kind (s.field.before (s.field.chosen given)) = .ok x → Q s x) :
    ∀ {ss : List Setting} {xs : List Value} {t t' : Tree},
      checkAll read (ss.map Setting.field) given t = (t', .ok (xs.map .ok)) → List.Forall₂ Q ss xs
  | [], xs, _, _, h => by
    have hnil := Except.ok.inj (congrArg Prod.snd h)
    rw [List.map_eq_nil_iff.1 hnil.symm]
    exact .nil
  | s :: ss, xs, t, t', h => by
    rw [List.map_cons, checkAll] at h
    split at h
    · cases h
    · rename_i t₁ r hfinish
      obtain ⟨rs, hrs, hcons⟩ : ∃ rs, (checkAll read (ss.map Setting.field) given t₁).2 = .ok rs ∧ r :: rs = xs.map .ok := by
        have hsnd := congrArg Prod.snd h
        cases hrest : (checkAll read (ss.map Setting.field) given t₁).2 with
        | error e =>
          rw [Checks.behind, hrest] at hsnd
          cases hsnd
        | ok rs =>
          rw [Checks.behind, hrest] at hsnd
          exact ⟨rs, rfl, Except.ok.inj hsnd⟩
      cases xs with
      | nil => cases hcons
      | cons x xs =>
        obtain ⟨rfl, rfl⟩ := List.cons.inj hcons
        exact .cons (hread s x (eq_of_finish hfinish)) (forall₂_of_checkAll hread (Prod.ext rfl hrs))

end Package

/-! ## Documented packages -/

namespace Package.Documented

variable {P : Package} (h : P.Documented) {given : Text → Option RawValue} {t : Tree} {strangers : List Text}
  {env : Environment} {args : Arguments}

include h

/-- What is read is what the value is valid for. -/
theorem read_iff {k : Kind} {v : RawValue} {x : Value} : P.read k v = .ok x ↔ k.Takes v x := by
  cases k with
  | boolean => exact h.boolean
  | oneOf words => exact h.oneOf
  | path => exact h.path
  | text => exact h.text

theorem check_eq (given : Text → Option RawValue) : ∀ (fs : List Field) (t : Tree),
    P.check fs given t = checkAll P.read fs given t
  | [], _ => h.noField
  | f :: fs, t => by
    unfold checkAll
    cases hread : P.readField f given with
    | error p =>
      rw [h.unreadable hread, check_eq given fs]
      rw [readField] at hread
      rw [hread]
      rfl
    | ok x =>
      have hread' : P.read f.kind (f.before (f.chosen given)) = .ok x := hread
      rw [hread']
      rcases hafter : f.after t x with ⟨t', e | y⟩
      · cases e with
        | faultyPath fault =>
          rw [h.unusable hread hafter, check_eq given fs]
          simp only [finish, hafter]
        | _ =>
          rw [h.escaped hread hafter (by trivial)]
          simp only [finish, hafter]
      · rw [h.accepted hread hafter, check_eq given fs]
        simp only [finish, hafter]

theorem construct_eq : P.construct given strangers t = (reading P.read).construct given strangers t := by
  have hcheck := h.check_eq given fields t
  rcases hall : checkAll P.read fields given t with ⟨t', e | rs⟩
  · rw [hall] at hcheck
    rw [h.letThrough hcheck]
    simp only [reading, hall, Checks.conclude]
  · rw [hall] at hcheck
    simp only [reading, hall, Checks.conclude]
    by_cases hnone : complaints rs ++ unknown strangers = []
    · obtain ⟨hok, hstrangers⟩ := List.append_eq_nil_iff.1 hnone
      obtain rfl := List.map_eq_nil_iff.1 hstrangers
      obtain ⟨xs, rfl⟩ := complaints_eq_nil_iff.1 hok
      obtain ⟨x, rfl⟩ := exists_of_holds (forall₂_of_checkAll (fun _ _ hread => (h.read_iff.1 hread).holds) hall)
      rw [assemble_values]
      refine h.valid ?_
      rw [hcheck, List.map_map]
      rfl
    · rw [assemble_of_complaints hnone, h.invalid hcheck hnone]

theorem given?_eq {n : Text} (hn : n ∈ names) : P.given? names env args n = (reading P.read).given? names env args n := by
  rw [h.argumentsFirst, h.argument hn, h.environment hn, Mapping.get?_ofList, ← List.map_reverse, List.find?_map]
  simp only [reading, if_pos hn, Option.map_map]
  rfl

/-- **A documented package does what is written out for its way of reading.** -/
theorem load_eq_reading : load P t env args = load (reading P.read) t env args := by
  have hfields : ∀ f ∈ fields, P.given? names env args f.name = (reading P.read).given? names env args f.name :=
    fun f hf => h.given?_eq (List.mem_map_of_mem hf)
  rw [load, h.construct_eq, h.stranger]
  show (checkAll P.read fields _ t).conclude _ = _
  rw [checkAll_congr hfields]
  rfl

end Package.Documented

/-! ## The standard package -/

section Standard

open RawValue

theorem toBoolean_eq_ok_iff {v : RawValue} {b : Bool} : v.toBoolean = .ok b ↔ v.Means b := by
  have hdisjoint : ∀ w ∈ falseWords, w ∉ trueWords := by decide
  cases v with
  | text w =>
    rw [toBoolean, Means]
    by_cases hsurrogate : w.any CodePoint.isSurrogate = true
    · rw [if_pos hsurrogate, hsurrogate]
      exact ⟨nofun, fun h => nomatch h.1⟩
    · rw [if_neg hsurrogate, eq_false_of_ne_true hsurrogate, eq_self_iff_true, true_and]
      by_cases htrue : w.lower ∈ trueWords
      · have hfalse : w.lower ∉ falseWords := fun hf => hdisjoint _ hf htrue
        cases b <;> simp [htrue, hfalse]
      · by_cases hfalse : w.lower ∈ falseWords
        · cases b <;> simp [htrue, hfalse]
        · cases b <;> simp [htrue, hfalse]
  | number x =>
    rw [toBoolean, Means]
    cases x.word? with
    | none => exact ⟨nofun, nofun⟩
    | some n =>
      simp only [Option.some.injEq]
      by_cases hone : n = 1
      · cases b <;> simp [hone]
      · by_cases hzero : n = 0
        · cases b <;> simp [hzero]
        · cases b <;> simp [hone, hzero]
  | boolean b' => simp [toBoolean, Means]
  | absent => simp [toBoolean, Means]
  | other => simp [toBoolean, Means]

theorem toWord_eq_ok_iff {words : List Text} {v : RawValue} {w : Text} :
    v.toWord words = .ok w ↔ w ∈ words ∧ v = .text w := by
  cases v with
  | text u =>
    simp only [toWord]
    by_cases hu : u ∈ words
    · rw [if_pos hu]
      exact ⟨fun h => by cases h; exact ⟨hu, rfl⟩, fun ⟨_, h⟩ => by cases h; rfl⟩
    · rw [if_neg hu]
      refine ⟨fun h => ?_, fun ⟨hw, h⟩ => ?_⟩
      · split at h <;> cases h
      · cases h
        exact absurd hw hu
  | _ => exact ⟨nofun, fun ⟨_, h⟩ => nomatch h⟩

theorem map_eq_ok_iff {α β ε : Type} {r : Except ε α} {g : α → β} {y : β} :
    r.map g = .ok y ↔ ∃ x, r = .ok x ∧ y = g x := by
  cases r with
  | error e => exact ⟨nofun, fun ⟨_, h, _⟩ => nomatch h⟩
  | ok x => exact ⟨fun h => ⟨x, rfl, (Except.ok.inj h).symm⟩, fun ⟨x', h, hy⟩ => by cases h; rw [hy]; rfl⟩

theorem toPath_eq_ok_iff {v : RawValue} {x : Value} :
    v.toPath = .ok x ↔ (v = .absent ∧ x = .nothing) ∨ ∃ t, v = .text t ∧ x = .path (.ofText t) := by
  cases v <;> simp [toPath, eq_comm]

theorem toText_eq_ok_iff {v : RawValue} {w : Text} : v.toText = .ok w ↔ v = .text w := by
  cases v <;> simp [toText]

namespace Package

/-- **The standard package does what the documentation says.** -/
theorem standard_documented : standard.Documented where
  argument hn := if_pos hn
  stranger := rfl
  environment {names env n} hn := by
    rw [Mapping.get?_ofList, ← List.map_reverse, List.find?_map]
    simp only [standard, reading, if_pos hn, Option.map_map]
    rfl
  argumentsFirst {names env args n} := by
    simp only [standard, reading]
    split <;> rfl
  boolean {v x} := map_eq_ok_iff.trans (exists_congr fun b => and_congr_left fun _ => toBoolean_eq_ok_iff)
  oneOf {words v x} := map_eq_ok_iff.trans (exists_congr fun w => by rw [toWord_eq_ok_iff, and_assoc])
  path {v x} := toPath_eq_ok_iff
  text {v x} := map_eq_ok_iff.trans (exists_congr fun w => and_congr_left fun _ => toText_eq_ok_iff)
  noField := rfl
  accepted {f fs given t t' x y} hread hafter := by
    have hread' : RawValue.toValue f.kind (f.before (f.chosen given)) = .ok x := hread
    simp only [standard, reading, checkAll, hread', finish, hafter]
  unreadable {f fs given t p} hread := by
    have hread' : RawValue.toValue f.kind (f.before (f.chosen given)) = .error p := hread
    simp only [standard, reading, checkAll, hread', finish]
  unusable {f fs given t t' x fault} hread hafter := by
    have hread' : RawValue.toValue f.kind (f.before (f.chosen given)) = .ok x := hread
    simp only [standard, reading, checkAll, hread', finish, hafter]
  escaped {f fs given t t' x e} hread hafter hsystem := by
    have hread' : RawValue.toValue f.kind (f.before (f.chosen given)) = .ok x := hread
    cases e with
    | faultyPath fault => exact hsystem.elim
    | _ => simp only [standard, reading, checkAll, hread', finish, hafter]
  letThrough {given strangers t t' e} hcheck := by
    have hcheck' : checkAll RawValue.toValue fields given t = (t', .error e) := hcheck
    simp only [standard, reading, hcheck', Checks.conclude]
  valid {given t t' x} hcheck := by
    have hcheck' : checkAll RawValue.toValue fields given t = (t', .ok ((Setting.all.map x.value).map .ok)) := by
      rw [List.map_map]
      exact hcheck
    simp only [standard, reading, hcheck', Checks.conclude, assemble_values]
  invalid {given strangers t t' rs} hcheck hnone := by
    have hcheck' : checkAll RawValue.toValue fields given t = (t', .ok rs) := hcheck
    simp only [standard, reading, hcheck', Checks.conclude, assemble_of_complaints hnone]

end Package
end Standard
end Settings
end Exposition
