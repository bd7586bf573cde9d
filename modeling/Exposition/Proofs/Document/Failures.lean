import Exposition.Proofs.Document.Streaming
import Exposition.Proofs.Family.Numbers
import Exposition.Proofs.Histogram.Bounds
/-!
# Failures — which documents cannot be produced, and why

Four things may fail while a document is written: a class may be unknown, the bound of a native bucket may be too large to
be computed, a whole number may be too large for a double where a measurement stands, and a count or a time may have too
many digits.  In the order of writing these are the *steps* of the document, and it fails as the first of them that does
(`Document.encode_eq_error`).  What is not written is no step: no snapshot without data, no number that its point does
not show, and no time of a beginning unless it is asked for.
-/
namespace Exposition

open Native

inductive Step
  | lookUp (s : Snapshot)
  | bound (schema index : Int)
  | number (v : SampleValue)

def Step.fault? : Step → Option Fault
  | lookUp s =>
    match s.family? with
    | some _ => none
    | none => some (.unsupported s.className)
  | bound schema index => faultOf (upperBound schema index)
  | number v => v.fault?

/-! ## Native points -/

namespace NativePoint

/-- The steps of a conversion: the negative bounds from the lowest up, the positive ones, and then the threshold. -/
def steps (p : NativePoint) : List Step :=
  (descending p.negative).map (fun e => .bound p.schema (e.1 - 1)) ++
    ((ascending p.positive).map (fun e => .bound p.schema e.1) ++
      (if 0 < p.zeroCount then [.number (.measurement p.zeroThreshold)] else []))

theorem faultOf_zeroBucket (p : NativePoint) :
    faultOf p.zeroBucket =
      (if 0 < p.zeroCount then [Step.number (.measurement p.zeroThreshold)] else []).findSome? Step.fault? := by
  unfold zeroBucket
  split
  · rw [findSome?_singleton, Step.fault?, SampleValue.fault?, Number.fault?_eq]
    cases p.zeroThreshold.toBinary64? with
    | none => rw [if_pos rfl]; rfl
    | some z => rw [if_neg (fun h => by cases h)]; rfl
  · rfl

theorem faultOf_negativeBucket (schema : Int) (e : Int × Int) :
    faultOf (negativeBucket schema e) = faultOf (upperBound schema (e.1 - 1)) := by
  rw [negativeBucket, faultOf_map]

theorem faultOf_positiveBucket (schema : Int) (e : Int × Int) :
    faultOf (positiveBucket schema e) = faultOf (upperBound schema e.1) := by
  rw [positiveBucket, faultOf_map]

/-- **A conversion fails as the first of its steps that does.** -/
theorem faultOf_toClassic (p : NativePoint) : faultOf p.toClassic = p.steps.findSome? Step.fault? := by
  have hneg : faultOf ((descending p.negative).mapM (negativeBucket p.schema)) =
      ((descending p.negative).map (fun e => Step.bound p.schema (e.1 - 1))).findSome? Step.fault? := by
    have hstep : (fun e => faultOf (negativeBucket p.schema e)) =
        Step.fault? ∘ fun e => Step.bound p.schema (e.1 - 1) := by
      funext e
      rw [Function.comp_apply, Step.fault?, faultOf_negativeBucket]
    rw [faultOf_mapM, List.findSome?_map, hstep]
  have hpos : faultOf ((ascending p.positive).mapM (positiveBucket p.schema)) =
      ((ascending p.positive).map (fun e => Step.bound p.schema e.1)).findSome? Step.fault? := by
    have hstep : (fun e => faultOf (positiveBucket p.schema e)) = Step.fault? ∘ fun e => Step.bound p.schema e.1 := by
      funext e
      rw [Function.comp_apply, Step.fault?, faultOf_positiveBucket]
    rw [faultOf_mapM, List.findSome?_map, hstep]
  have hobserved : faultOf p.toClassic = faultOf p.observedBuckets := by
    unfold toClassic
    rw [faultOf_bind]
    cases p.observedBuckets with
    | ok bs => rfl
    | error f => rfl
  rw [hobserved, steps, List.findSome?_append, List.findSome?_append, ← hneg, ← hpos, ← faultOf_zeroBucket]
  unfold observedBuckets
  refine faultOf_bind_of_forall fun _ => faultOf_bind_of_forall fun _ => ?_
  rw [faultOf_bind]
  cases p.zeroBucket with
  | ok bs => rfl
  | error f => rfl

end NativePoint

/-! ## Families and snapshots -/

def Points.conversions : Points → List Step
  | native _ ps => ps.flatMap NativePoint.steps
  | _ => []

/-- The steps of a family: a native histogram is converted as a whole before any number is written. -/
def Family.steps (withCreated : Bool) (f : Family) : List Step :=
  f.points.conversions ++ (f.points.numbers withCreated).map .number

/-- The steps of a snapshot; one without data points has none. -/
def Snapshot.steps (withCreated : Bool) (s : Snapshot) : List Step :=
  if s.isEmpty then []
  else
    .lookUp s ::
      (match s.family? with
      | some f => f.steps withCreated
      | none => [])

theorem Family.faultOf_records (withCreated : Bool) (f : Family) :
    faultOf (f.records withCreated) = f.points.conversions.findSome? Step.fault? := by
  obtain ⟨m, points⟩ := f
  unfold records
  cases points with
  | native g ps =>
    simp only [Points.conversions]
    rw [faultOf_map, faultOf_mapM, findSome?_flatMap]
    congr 1
    funext p
    exact p.faultOf_toClassic
  | _ => rfl

theorem Family.fault_emission (withCreated : Bool) (f : Family) :
    (f.emission withCreated).fault = (f.steps withCreated).findSome? Step.fault? := by
  have hr := f.faultOf_records withCreated
  unfold emission steps
  rw [List.findSome?_append, ← hr, List.findSome?_map]
  cases h : f.records withCreated with
  | error e => rfl
  | ok rs =>
    simp only
    rw [fault_concat_records, numbers_records h]
    rfl

theorem Snapshot.fault_emission (withCreated : Bool) (s : Snapshot) :
    (s.emission withCreated).fault = (s.steps withCreated).findSome? Step.fault? := by
  unfold emission steps
  cases s.isEmpty with
  | true => rfl
  | false =>
    rw [if_neg (by decide), if_neg (by decide), List.findSome?_cons, Step.fault?]
    cases s.family? with
    | none => rfl
    | some f => exact f.fault_emission withCreated

def Document.steps (withCreated : Bool) (ss : List Snapshot) : List Step := ss.flatMap (·.steps withCreated)

theorem Document.fault_emission (withCreated : Bool) (ss : List Snapshot) :
    (emission withCreated ss).fault = (steps withCreated ss).findSome? Step.fault? := by
  unfold emission steps
  rw [Emission.fault_append, Emission.fault_ofPieces, Option.or_none, Emission.fault_concat, List.findSome?_map,
    findSome?_flatMap]
  congr 1
  funext s
  exact s.fault_emission withCreated

/-! ## Causes -/

/-- A snapshot is of the class of another one, or extends it at some depth. -/
inductive Snapshot.Extends : Snapshot → Snapshot → Prop
  | refl (s : Snapshot) : s.Extends s
  | step {className : Text} {s t : Snapshot} (h : s.Extends t) : (extended className s).Extends t

theorem Snapshot.family?_eq_some_iff {f : Family} : ∀ {s : Snapshot}, s.family? = some f ↔ s.Extends (.family f)
  | .family g => by
    rw [family?]
    constructor
    · intro h
      cases h
      exact .refl _
    · intro h
      cases h
      rfl
  | .foreign c n => by
    rw [family?]
    constructor
    · intro h
      cases h
    · intro h
      cases h
  | .extended c s => by
    rw [family?, family?_eq_some_iff]
    constructor
    · intro h
      exact .step h
    · intro h
      cases h with
      | step h => exact h

/-- No class that a snapshot is of or extends is a known one. -/
def Snapshot.Unsupported (s : Snapshot) : Prop := ∀ f, ¬s.Extends (.family f)

theorem Snapshot.unsupported_iff {s : Snapshot} : s.Unsupported ↔ s.family? = none := by
  rw [Option.eq_none_iff_forall_not_mem]
  exact forall_congr' fun f => not_congr family?_eq_some_iff.symm

/-- A bound, or the threshold of a zero bucket that counts something, cannot be computed. -/
def NativePoint.Unbounded (p : NativePoint) : Prop :=
  (∃ e ∈ p.negative.entries, ∀ x, upperBound p.schema (e.1 - 1) ≠ .ok x) ∨
    (∃ e ∈ p.positive.entries, ∀ x, upperBound p.schema e.1 ≠ .ok x) ∨
    (0 < p.zeroCount ∧ p.zeroThreshold.TooLarge)

def Snapshot.Unbounded (s : Snapshot) : Prop :=
  ∃ f isGauge ps, s.Extends (.family f) ∧ f.points = .native isGauge ps ∧ ∃ p ∈ ps, p.Unbounded

def Snapshot.WritesTooLarge (withCreated : Bool) (s : Snapshot) : Prop :=
  ∃ f, s.Extends (.family f) ∧ ∃ v ∈ f.points.numbers withCreated, v.TooLarge

def Snapshot.WritesTooLong (withCreated : Bool) (s : Snapshot) : Prop :=
  ∃ f, s.Extends (.family f) ∧ ∃ v ∈ f.points.numbers withCreated, v.TooLong

def Fault.IsOverflow (f : Fault) : Prop := f = .integerTooLarge ∨ f = .powerTooLarge

theorem Native.isOverflow_of_upperBound {schema index : Int} {f : Fault} (h : upperBound schema index = .error f) :
    f.IsOverflow := by
  have hdouble : ∀ {n : Int} {g : Fault}, toDouble n = .error g → g.IsOverflow := by
    intro n g h
    exact .inl (orFault_eq_error_iff.1 h).2
  have hpower : ∀ {x : Binary64} {g : Fault}, twoPow x = .error g → g.IsOverflow := by
    intro x g h
    exact .inr (orFault_eq_error_iff.1 h).2
  rw [upperBound_eq_bind] at h
  rcases bind_eq_error_iff.1 h with h | ⟨c, -, h⟩
  · rcases bind_eq_error_iff.1 h with h | ⟨d, -, h⟩
    · exact hdouble h
    · exact hpower h
  · rcases bind_eq_error_iff.1 h with h | ⟨i, -, h⟩
    · exact hdouble h
    · exact hpower h

theorem Step.bound_fails_iff {schema index : Int} :
    (∃ f, (Step.bound schema index).fault? = some f) ↔ ∀ x, upperBound schema index ≠ .ok x := by
  rw [fault?, ← Option.isSome_iff_exists, ← Option.ne_none_iff_isSome, Ne, faultOf_eq_none_iff]
  exact not_exists

theorem Step.measurement_fails_iff {x : Number} :
    (∃ f, (Step.number (.measurement x)).fault? = some f) ↔ x.TooLarge := by
  constructor
  · rintro ⟨f, hf⟩
    exact (Number.fault?_eq_some_iff.1 hf).1
  · intro h
    exact ⟨_, Number.fault?_eq_some_iff.2 ⟨h, rfl⟩⟩

theorem NativePoint.mem_steps_iff {p : NativePoint} {st : Step} :
    st ∈ p.steps ↔ (∃ e ∈ p.negative.entries, st = .bound p.schema (e.1 - 1)) ∨
      (∃ e ∈ p.positive.entries, st = .bound p.schema e.1) ∨
      (0 < p.zeroCount ∧ st = .number (.measurement p.zeroThreshold)) := by
  have hneg : st ∈ (descending p.negative).map (fun e => Step.bound p.schema (e.1 - 1)) ↔
      ∃ e ∈ p.negative.entries, st = .bound p.schema (e.1 - 1) := by
    simp only [List.mem_map, (descending_perm p.negative).mem_iff, eq_comm]
  have hpos : st ∈ (ascending p.positive).map (fun e => Step.bound p.schema e.1) ↔
      ∃ e ∈ p.positive.entries, st = .bound p.schema e.1 := by
    simp only [List.mem_map, (ascending_perm p.positive).mem_iff, eq_comm]
  have hzero : (st ∈ if 0 < p.zeroCount then [Step.number (.measurement p.zeroThreshold)] else []) ↔
      0 < p.zeroCount ∧ st = .number (.measurement p.zeroThreshold) := by
    by_cases hcount : 0 < p.zeroCount
    · simp [hcount]
    · simp [hcount]
  rw [steps, List.mem_append, List.mem_append, hneg, hpos, hzero]

/-- **A conversion fails if and only if something cannot be computed.** -/
theorem NativePoint.exists_step_iff {p : NativePoint} :
    (∃ st ∈ p.steps, ∃ f, st.fault? = some f) ↔ p.Unbounded := by
  unfold Unbounded
  constructor
  · rintro ⟨st, hst, hf⟩
    rcases mem_steps_iff.1 hst with ⟨e, he, rfl⟩ | ⟨e, he, rfl⟩ | ⟨hcount, rfl⟩
    · exact .inl ⟨e, he, Step.bound_fails_iff.1 hf⟩
    · exact .inr (.inl ⟨e, he, Step.bound_fails_iff.1 hf⟩)
    · exact .inr (.inr ⟨hcount, Step.measurement_fails_iff.1 hf⟩)
  · rintro (⟨e, he, h⟩ | ⟨e, he, h⟩ | ⟨hcount, h⟩)
    · exact ⟨_, mem_steps_iff.2 (.inl ⟨e, he, rfl⟩), Step.bound_fails_iff.2 h⟩
    · exact ⟨_, mem_steps_iff.2 (.inr (.inl ⟨e, he, rfl⟩)), Step.bound_fails_iff.2 h⟩
    · exact ⟨_, mem_steps_iff.2 (.inr (.inr ⟨hcount, rfl⟩)), Step.measurement_fails_iff.2 h⟩

theorem NativePoint.isOverflow_of_step {p : NativePoint} {st : Step} {f : Fault} (hst : st ∈ p.steps)
    (hf : st.fault? = some f) : f.IsOverflow := by
  rcases mem_steps_iff.1 hst with ⟨e, -, rfl⟩ | ⟨e, -, rfl⟩ | ⟨-, rfl⟩
  · rw [Step.fault?, faultOf_eq_some_iff] at hf
    exact isOverflow_of_upperBound hf
  · rw [Step.fault?, faultOf_eq_some_iff] at hf
    exact isOverflow_of_upperBound hf
  · exact .inl (Number.fault?_eq_some_iff.1 hf).2

namespace Snapshot

theorem isEmpty_iff {s : Snapshot} : s.isEmpty = true ↔ ¬0 < s.size := by
  unfold isEmpty
  rw [beq_iff_eq]
  omega

variable {withCreated : Bool}

theorem steps_of_family {s : Snapshot} {f : Family} (hs : 0 < s.size) (hf : s.family? = some f) :
    s.steps withCreated = .lookUp s :: f.steps withCreated := by
  unfold steps
  rw [if_neg (fun h => isEmpty_iff.1 h hs), hf]

/-- What makes a snapshot fail, and with which fault. -/
def FailsWith (withCreated : Bool) (s : Snapshot) (f : Fault) : Prop :=
  (s.Unsupported ∧ f = .unsupported s.className) ∨ (s.Unbounded ∧ f.IsOverflow) ∨
    (s.WritesTooLarge withCreated ∧ f = .integerTooLarge) ∨ (s.WritesTooLong withCreated ∧ f = .tooManyDigits)

/-- **Every failing step has its cause in the snapshot.** -/
theorem cause_of_step {s : Snapshot} {st : Step} {f : Fault} (hst : st ∈ s.steps withCreated)
    (hf : st.fault? = some f) : 0 < s.size ∧ s.FailsWith withCreated f := by
  have hs : 0 < s.size := by
    by_contra hs
    rw [steps, if_pos (isEmpty_iff.2 hs)] at hst
    cases hst
  refine ⟨hs, ?_⟩
  cases hfamily : s.family? with
  | none =>
    unfold steps at hst
    rw [if_neg (fun h => isEmpty_iff.1 h hs), hfamily, List.mem_singleton] at hst
    subst hst
    rw [Step.fault?, hfamily] at hf
    cases hf
    exact .inl ⟨unsupported_iff.2 hfamily, rfl⟩
  | some g =>
    have hg := family?_eq_some_iff.1 hfamily
    rw [steps_of_family hs hfamily] at hst
    rcases List.mem_cons.1 hst with rfl | hst
    · rw [Step.fault?, hfamily] at hf
      cases hf
    rcases List.mem_append.1 hst with hst | hst
    · cases hpoints : g.points with
      | native isGauge ps =>
        rw [hpoints] at hst
        obtain ⟨p, hp, hst⟩ := List.mem_flatMap.1 hst
        have hp' := NativePoint.exists_step_iff.1 ⟨st, hst, f, hf⟩
        exact .inr (.inl ⟨⟨g, isGauge, ps, hg, hpoints, p, hp, hp'⟩, NativePoint.isOverflow_of_step hst hf⟩)
      | _ => rw [hpoints] at hst; cases hst
    · obtain ⟨v, hv, rfl⟩ := List.mem_map.1 hst
      rcases SampleValue.fault?_eq_some_iff.1 hf with ⟨hlarge, rfl⟩ | ⟨hlong, rfl⟩
      · exact .inr (.inr (.inl ⟨⟨g, hg, v, hv, hlarge⟩, rfl⟩))
      · exact .inr (.inr (.inr ⟨⟨g, hg, v, hv, hlong⟩, rfl⟩))

/-- A number that a snapshot with data points writes is a step of it. -/
theorem exists_step_of_number {s : Snapshot} (hs : 0 < s.size) {f : Family} (hf : s.Extends (.family f))
    {v : SampleValue} (hv : v ∈ f.points.numbers withCreated) {fault : Fault} (hfault : v.fault? = some fault) :
    ∃ st ∈ s.steps withCreated, ∃ f, st.fault? = some f := by
  refine ⟨.number v, ?_, fault, hfault⟩
  rw [steps_of_family hs (family?_eq_some_iff.2 hf), Family.steps]
  exact List.mem_cons_of_mem _ (List.mem_append_right _ (List.mem_map.2 ⟨v, hv, rfl⟩))

/-- **Every cause in a snapshot that has data points makes a step fail.** -/
theorem exists_step {s : Snapshot} (hs : 0 < s.size)
    (h : s.Unsupported ∨ s.Unbounded ∨ s.WritesTooLarge withCreated ∨ s.WritesTooLong withCreated) :
    ∃ st ∈ s.steps withCreated, ∃ f, st.fault? = some f := by
  rcases h with h | ⟨f, isGauge, ps, hf, hpoints, p, hp, h⟩ | ⟨f, hf, v, hv, h⟩ | ⟨f, hf, v, hv, h⟩
  · have hfamily := unsupported_iff.1 h
    refine ⟨.lookUp s, ?_, .unsupported s.className, ?_⟩
    · unfold steps
      rw [if_neg (fun h => isEmpty_iff.1 h hs)]
      exact List.mem_cons_self
    · rw [Step.fault?, hfamily]
  · obtain ⟨st, hst, hfault⟩ := NativePoint.exists_step_iff.2 h
    refine ⟨st, ?_, hfault⟩
    rw [steps_of_family hs (family?_eq_some_iff.2 hf), Family.steps, hpoints]
    exact List.mem_cons_of_mem _ (List.mem_append_left _ (List.mem_flatMap.2 ⟨p, hp, hst⟩))
  · exact exists_step_of_number hs hf hv (SampleValue.fault?_eq_some_iff.2 (.inl ⟨h, rfl⟩))
  · exact exists_step_of_number hs hf hv (SampleValue.fault?_eq_some_iff.2 (.inr ⟨h, rfl⟩))

end Snapshot

namespace Document

theorem encode_eq_error {withCreated : Bool} {ss : List Snapshot} {f : Fault} :
    encode withCreated ss = .error f ↔ (steps withCreated ss).findSome? Step.fault? = some f := by
  rw [encode_eq, ← fault_emission withCreated]
  cases (emission withCreated ss).fault with
  | none => exact iff_of_false (fun h => by cases h) (fun h => by cases h)
  | some g => rw [Except.error.injEq, Option.some.injEq]

theorem cause_of_encode {withCreated : Bool} {ss : List Snapshot} {f : Fault} (h : encode withCreated ss = .error f) :
    ∃ s ∈ ss, 0 < s.size ∧ s.FailsWith withCreated f := by
  obtain ⟨st, hst, hfault⟩ := List.exists_of_findSome?_eq_some (encode_eq_error.1 h)
  obtain ⟨s, hs, hst⟩ := List.mem_flatMap.1 hst
  exact ⟨s, hs, Snapshot.cause_of_step hst hfault⟩

/-- **Which documents cannot be produced, and why.**  A document fails as the first of its steps that does.  There is one
if and only if a snapshot with data points is of no known class, has a native bucket whose bound cannot be computed,
writes a whole number beyond the doubles in place of a measurement, or writes a count or the seconds of a time with more
digits than a number has room for.  The fault tells which: an unknown class is named, the digits are an invalid value, and
all else is an overflow. -/
theorem encode_fails (withCreated : Bool) (ss : List Snapshot) :
    (∀ f, encode withCreated ss = .error f ↔ (steps withCreated ss).findSome? Step.fault? = some f) ∧
    ((∃ f, encode withCreated ss = .error f) ↔
      ∃ s ∈ ss, 0 < s.size ∧
        (s.Unsupported ∨ s.Unbounded ∨ s.WritesTooLarge withCreated ∨ s.WritesTooLong withCreated)) ∧
    ∀ f, encode withCreated ss = .error f → ∃ s ∈ ss, 0 < s.size ∧
      ((s.Unsupported ∧ f = .unsupported s.className ∧ f.kind = ("TypeError" : Text)) ∨
        ((s.Unbounded ∨ s.WritesTooLarge withCreated) ∧ f.kind = ("OverflowError" : Text)) ∨
        (s.WritesTooLong withCreated ∧ f = .tooManyDigits ∧ f.kind = ("ValueError" : Text))) := by
  refine ⟨fun f => encode_eq_error, ⟨?_, ?_⟩, ?_⟩
  · rintro ⟨f, hf⟩
    obtain ⟨s, hs, hsize, hcause⟩ := cause_of_encode hf
    refine ⟨s, hs, hsize, ?_⟩
    rcases hcause with ⟨h, -⟩ | ⟨h, -⟩ | ⟨h, -⟩ | ⟨h, -⟩
    · exact .inl h
    · exact .inr (.inl h)
    · exact .inr (.inr (.inl h))
    · exact .inr (.inr (.inr h))
  · rintro ⟨s, hs, hsize, hcause⟩
    obtain ⟨st, hst, f, hf⟩ := Snapshot.exists_step hsize hcause
    have hsome : ((steps withCreated ss).findSome? Step.fault?).isSome = true := by
      rw [List.findSome?_isSome_iff]
      exact ⟨st, List.mem_flatMap.2 ⟨s, hs, hst⟩, by rw [hf]; rfl⟩
    obtain ⟨g, hg⟩ := Option.isSome_iff_exists.1 hsome
    exact ⟨g, encode_eq_error.2 hg⟩
  · intro f hf
    obtain ⟨s, hs, hsize, hcause⟩ := cause_of_encode hf
    refine ⟨s, hs, hsize, ?_⟩
    rcases hcause with ⟨h, rfl⟩ | ⟨h, rfl | rfl⟩ | ⟨h, rfl⟩ | ⟨h, rfl⟩
    · exact .inl ⟨h, rfl, rfl⟩
    · exact .inr (.inl ⟨.inl h, rfl⟩)
    · exact .inr (.inl ⟨.inl h, rfl⟩)
    · exact .inr (.inl ⟨.inr h, rfl⟩)
    · exact .inr (.inr ⟨h, rfl, rfl⟩)

/-- A histogram of two buckets, of which the second one counts one. -/
def oneMore (n : Int) : Family where
  metadata := ⟨"power", none, none⟩
  points := .histogram false
    [{ buckets := [⟨.float .zero, n⟩, ⟨.float (.infinite false), 1⟩], labels := [], count := none, sum := none
       exemplars := [], created := none, scrape := none }]

theorem encode_oneMore {n : Int} (hn : n.natAbs < 10 ^ Text.digitLimit) (hmore : 10 ^ Text.digitLimit ≤ (n + 1).natAbs) :
    encode false [.family (oneMore n)] = .error .tooManyDigits := by
  have hfirst : (SampleValue.count (0 + n)).fault? = none := by
    rw [SampleValue.fault?, Int.zero_add, if_pos (Text.isWritable_iff.2 hn)]
  have hsecond : (SampleValue.count (0 + n + 1)).fault? = some .tooManyDigits := by
    rw [Int.zero_add]
    exact SampleValue.fault?_eq_some_iff.2 (.inr ⟨hmore, rfl⟩)
  have hsteps : steps false [.family (oneMore n)] =
      [.lookUp (.family (oneMore n)), .number (.measurement (.float .zero)), .number (.count (0 + n)),
        .number (.measurement (.float (.infinite false))), .number (.count (0 + n + 1))] := rfl
  rw [encode_eq_error, hsteps]
  simp only [List.findSome?_cons, Step.fault?, hfirst, hsecond]
  rfl

/-- **A known class, no bound to compute and no whole number in place of a measurement are not enough**: the running total
of the second bucket may have too many digits, although no count has. -/
theorem encode_fails_oneMore :
    let s := Snapshot.family (oneMore ((10 ^ Text.digitLimit - 1 : Nat) : Int))
    ¬s.Unsupported ∧ ¬s.Unbounded ∧ ¬s.WritesTooLarge false ∧
      ∃ f, encode false [s] = .error f ∧ f.kind = ("ValueError" : Text) := by
  have hpos : 0 < 10 ^ Text.digitLimit := Nat.pow_pos (by decide)
  have hencode := encode_oneMore (n := ((10 ^ Text.digitLimit - 1 : Nat) : Int)) (by omega) (by omega)
  revert hencode
  generalize ((10 ^ Text.digitLimit - 1 : Nat) : Int) = n
  intro hencode
  refine ⟨fun h => h _ (.refl _), ?_, ?_, .tooManyDigits, hencode, rfl⟩
  · rintro ⟨f, isGauge, ps, hf, hpoints, -⟩
    cases hf
    cases hpoints
  · rintro ⟨f, hf, v, hv, x, rfl, m, rfl, -⟩
    cases hf
    have hnumbers : (oneMore n).points.numbers false =
        [.measurement (.float .zero), .count (0 + n), .measurement (.float (.infinite false)), .count (0 + n + 1)] := rfl
    rw [hnumbers] at hv
    simp at hv

end Document
end Exposition
