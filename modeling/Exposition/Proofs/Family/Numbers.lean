import Exposition.Snapshot
import Exposition.Proofs.Binary64.Quotients
import Exposition.Proofs.Record.Line
import Exposition.Proofs.Text.Digits
/-!
# Numbers — which of them are written

A number breaks a document off if it is written, and is a whole one beyond the doubles in place of a measurement, or a count
or a time of too many digits.  Each kind of point writes some of the numbers it holds, in a certain order
(`Points.numbers`): those of the exemplars that its lines carry, a sum only where a sum is shown, the time of a beginning
only if it is asked for.  These are the numbers of the records of a family (`Family.numbers_records`), and records break
off at the first of theirs that has no text (`fault_concat_records`).
-/
namespace Exposition

/-- Whether a number has no double: a whole number of `2 ^ 1024 - 2 ^ 970` or more, on either side of zero. -/
def Number.TooLarge (x : Number) : Prop := ∃ n, x = .int n ∧ Binary64.integerLimit ≤ n.natAbs

def Number.fault? : Number → Option Fault
  | .float _ => none
  | .int n => if Binary64.integerLimit ≤ n.natAbs then some .integerTooLarge else none

theorem Number.tooLarge_int_iff {n : Int} : (Number.int n).TooLarge ↔ Binary64.integerLimit ≤ n.natAbs := by
  constructor
  · rintro ⟨m, hm, h⟩
    cases hm
    exact h
  · intro h
    exact ⟨n, rfl, h⟩

theorem Number.fault?_eq_some_iff {x : Number} {f : Fault} : x.fault? = some f ↔ x.TooLarge ∧ f = .integerTooLarge := by
  cases x with
  | float x =>
    refine iff_of_false (fun h => by cases h) ?_
    rintro ⟨⟨n, h, -⟩, -⟩
    cases h
  | int n =>
    rw [fault?, tooLarge_int_iff]
    by_cases h : Binary64.integerLimit ≤ n.natAbs
    · rw [if_pos h, Option.some.injEq, eq_comm]
      exact (and_iff_right h).symm
    · rw [if_neg h]
      exact iff_of_false (fun hf => by cases hf) fun hf => h hf.1

theorem Number.fault?_eq (x : Number) : x.fault? = if x.toBinary64? = none then some .integerTooLarge else none := by
  cases x with
  | float x => rw [fault?, toBinary64?, if_neg (fun h => by cases h)]
  | int n =>
    rw [fault?, toBinary64?]
    exact if_congr (Binary64.ofInt?_eq_none_iff n).symm rfl rfl

theorem Number.faultOf_toText (x : Number) : faultOf x.toText = x.fault? := by
  rw [fault?_eq, toText]
  cases x.toBinary64? with
  | none => rw [if_pos rfl]; rfl
  | some d => rw [if_neg (fun h => by cases h)]; rfl

/-- Whether a count, or the seconds of a time, has more digits than a number has room for when it becomes text. -/
def SampleValue.TooLong : SampleValue → Prop
  | count n => 10 ^ Text.digitLimit ≤ n.natAbs
  | time t => 10 ^ Text.digitLimit ≤ t.natAbs / 1000
  | _ => False

def SampleValue.TooLarge (v : SampleValue) : Prop := ∃ x, v = .measurement x ∧ x.TooLarge

def SampleValue.fault? : SampleValue → Option Fault
  | measurement x => x.fault?
  | count n => if Text.isWritable n.natAbs then none else some .tooManyDigits
  | time t => if Text.isWritable (t.natAbs / 1000) then none else some .tooManyDigits
  | flag _ => none

theorem SampleValue.tooLarge_measurement_iff {x : Number} : (measurement x).TooLarge ↔ x.TooLarge := by
  constructor
  · rintro ⟨y, hy, h⟩
    cases hy
    exact h
  · exact fun h => ⟨x, rfl, h⟩

theorem not_isWritable_iff {n : Nat} {f : Fault} :
    (if Text.isWritable n then none else some Fault.tooManyDigits) = some f ↔
      10 ^ Text.digitLimit ≤ n ∧ f = .tooManyDigits := by
  rw [Option.ite_none_left_eq_some, Text.isWritable_iff, Nat.not_lt, Option.some.injEq, eq_comm]

/-- **A value has no text if it is too large, or if it is too long**, and the fault tells which. -/
theorem SampleValue.fault?_eq_some_iff {v : SampleValue} {f : Fault} :
    v.fault? = some f ↔ (v.TooLarge ∧ f = .integerTooLarge) ∨ (v.TooLong ∧ f = .tooManyDigits) := by
  have hnot : ∀ {v : SampleValue}, (∀ x, v ≠ .measurement x) → ¬v.TooLarge := fun hne ⟨x, hx, _⟩ => hne x hx
  cases v with
  | measurement x =>
    rw [fault?, Number.fault?_eq_some_iff, tooLarge_measurement_iff]
    exact (or_iff_left fun h => h.1.elim).symm
  | count n =>
    rw [fault?, not_isWritable_iff]
    exact (or_iff_right fun h => hnot (fun x hx => by cases hx) h.1).symm
  | time t =>
    rw [fault?, not_isWritable_iff]
    exact (or_iff_right fun h => hnot (fun x hx => by cases hx) h.1).symm
  | flag b =>
    refine iff_of_false (fun h => by cases h) ?_
    rintro (⟨h, -⟩ | ⟨h, -⟩)
    · exact hnot (fun x hx => by cases hx) h
    · exact h

theorem faultOf_orFault {α : Type} (f : Fault) (x : Option α) :
    faultOf (orFault f x) = if x.isSome then none else some f := by
  cases x with
  | none => rfl
  | some a => rfl

theorem faultOf_countText (n : Int) : faultOf (countText n) = (SampleValue.count n).fault? := by
  rw [countText, faultOf_orFault, Text.ofInt?, SampleValue.fault?]
  cases Text.isWritable n.natAbs <;> rfl

theorem faultOf_timeText (t : Int) : faultOf (timeText t) = (SampleValue.time t).fault? := by
  rw [timeText, faultOf_orFault, Text.ofMilliseconds?, SampleValue.fault?]
  cases Text.isWritable (t.natAbs / 1000) <;> rfl

theorem SampleValue.faultOf_toText (v : SampleValue) : faultOf v.toText = v.fault? := by
  cases v with
  | measurement x => exact x.faultOf_toText
  | count n => exact faultOf_countText n
  | time t => exact faultOf_timeText t
  | flag b => cases b <;> rfl

/-! ## Lines -/

def addedNumbers : Option AddedLabel → List SampleValue
  | some (.bound x) => [.measurement x]
  | some (.quantile x) => [.measurement x]
  | _ => []

def timestampNumbers (t : Option Int) : List SampleValue := t.toList.map .time

def exemplarNumbers : Option Exemplar → List SampleValue
  | none => []
  | some e => .measurement e.value :: timestampNumbers e.timestamp

/-- The numbers behind the series of a line: its value, its time, and those of its exemplar. -/
def lineNumbers (value : SampleValue) (timestamp : Option Int) (exemplar : Option Exemplar) : List SampleValue :=
  value :: (timestampNumbers timestamp ++ exemplarNumbers exemplar)

/-- The numbers of a sample in the order in which they become text; the added label comes before the line. -/
def Sample.numbers (s : Sample) : List SampleValue :=
  addedNumbers s.added ++ lineNumbers s.value s.timestamp s.exemplar

theorem findSome?_singleton {α β : Type} (f : α → Option β) (a : α) : [a].findSome? f = f a := by
  rw [List.findSome?_cons, List.findSome?_nil]
  cases f a <;> rfl

theorem findSome?_cons_eq_or {α β : Type} (f : α → Option β) (a : α) (l : List α) :
    (a :: l).findSome? f = (f a).or (l.findSome? f) := by
  rw [List.findSome?_cons]
  cases f a <;> rfl

theorem fault_timestampNumbers (t : Option Int) :
    faultOf (optionally timeText t) = (timestampNumbers t).findSome? SampleValue.fault? := by
  cases t with
  | none => rfl
  | some t =>
    rw [optionally, faultOf_map, faultOf_timeText]
    exact (findSome?_singleton _ _).symm

theorem Exemplar.fault_emission (e : Exemplar) :
    e.emission.fault = (exemplarNumbers (some e)).findSome? SampleValue.fault? := by
  rw [emission, Emission.fault_append, Emission.fault_append_of_none rfl, fault_ofExcept, fault_timestampEmission,
    Number.faultOf_toText, fault_timestampNumbers, exemplarNumbers, findSome?_cons_eq_or]
  rfl

theorem fault_lineEnd (timestamp : Option Int) (exemplar : Option Exemplar) :
    (lineEnd timestamp exemplar).fault =
      (timestampNumbers timestamp ++ exemplarNumbers exemplar).findSome? SampleValue.fault? := by
  unfold lineEnd
  rw [Emission.fault_append, Emission.fault_append, fault_timestampEmission, fault_timestampNumbers,
    Emission.fault_ofPieces, Option.or_none, List.findSome?_append]
  cases exemplar with
  | none => rfl
  | some e => exact congrArg _ e.fault_emission

theorem Sample.faultOf_additional (s : Sample) :
    faultOf s.additional = (addedNumbers s.added).findSome? SampleValue.fault? := by
  unfold additional
  cases s.added with
  | none => rfl
  | some a =>
    simp only
    rw [faultOf_map]
    cases a with
    | bound x =>
      rw [AddedLabel.toLabel, faultOf_map, addedNumbers, findSome?_singleton]
      exact x.faultOf_toText
    | quantile x =>
      rw [AddedLabel.toLabel, faultOf_map, addedNumbers, findSome?_singleton]
      exact x.faultOf_toText
    | state family name => rfl

/-- **A line breaks off at the first of its numbers that cannot be written.** -/
theorem Sample.fault_emission (s : Sample) : s.emission.fault = s.numbers.findSome? SampleValue.fault? := by
  have hadded := s.faultOf_additional
  rw [numbers, List.findSome?_append, ← hadded, lineNumbers, findSome?_cons_eq_or]
  unfold emission
  cases s.additional with
  | error f => rfl
  | ok l =>
    rw [Emission.fault_append, Emission.fault_append_of_none rfl, fault_ofExcept, fault_lineEnd,
      SampleValue.faultOf_toText]
    rfl

def Record.numbers : Record → List SampleValue
  | .sample s => s.numbers
  | _ => []

theorem Record.fault_emission (r : Record) : r.emission.fault = r.numbers.findSome? SampleValue.fault? := by
  cases r with
  | sample s => exact s.fault_emission
  | type n t => rfl
  | unit n u => rfl
  | help n h => rfl

theorem findSome?_flatMap {α β γ : Type} (f : β → Option γ) (g : α → List β) : ∀ (l : List α),
    (l.flatMap g).findSome? f = l.findSome? (fun a => (g a).findSome? f)
  | [] => rfl
  | a :: l => by
    rw [List.flatMap_cons, List.findSome?_append, List.findSome?_cons, findSome?_flatMap f g l]
    cases (g a).findSome? f <;> rfl

theorem fault_concat_records (rs : List Record) :
    (Emission.concat (rs.map Record.emission)).fault = (rs.flatMap Record.numbers).findSome? SampleValue.fault? := by
  rw [Emission.fault_concat, List.findSome?_map, findSome?_flatMap]
  congr 1
  funext r
  exact r.fault_emission

/-! ## Points -/

/-- The numbers of the line that tells when a series began, if it is asked for and known. -/
def createdNumbers (withCreated : Bool) (created scrape : Option Int) : List SampleValue :=
  match withCreated, created with
  | true, some t => lineNumbers (.time t) scrape none
  | _, _ => []

def CounterPoint.numbers (withCreated : Bool) (p : CounterPoint) : List SampleValue :=
  lineNumbers (.measurement p.value) p.scrape p.exemplar ++ createdNumbers withCreated p.created p.scrape

def GaugePoint.numbers (p : GaugePoint) : List SampleValue := lineNumbers (.measurement p.value) p.scrape p.exemplar

def InfoPoint.numbers (p : InfoPoint) : List SampleValue := lineNumbers (.flag true) p.scrape none

def StateSetPoint.numbers (p : StateSetPoint) : List SampleValue :=
  p.states.flatMap (fun s => lineNumbers (.flag s.active) p.scrape none)

/-- The numbers of a count and of a sum, each if it is shown. -/
def countAndSumNumbers (count : Option Int) (sum : Option Number) (scrape : Option Int)
    (countExemplar sumExemplar : Option Exemplar) : List SampleValue :=
  (match count with
    | none => []
    | some n => lineNumbers (.count n) scrape countExemplar) ++
  (match sum with
    | none => []
    | some x => lineNumbers (.measurement x) scrape sumExemplar)

namespace HistogramPoint

/-- The numbers of the lines of buckets, `below` being the total of those before them and `lower` the last of their
bounds. -/
def bucketNumbers (p : HistogramPoint) (below : Int) (lower : Number) : List Bucket → List SampleValue
  | [] => []
  | b :: bs =>
    .measurement b.upperBound ::
      (lineNumbers (.count (below + b.count)) p.scrape (p.exemplars.within? lower b.upperBound) ++
        bucketNumbers p (below + b.count) b.upperBound bs)

/-- Count and sum are written only together. -/
def numbers (withCreated : Bool) (p : HistogramPoint) : List SampleValue :=
  p.bucketNumbers 0 (.float (.infinite true)) p.buckets ++
    ((if p.count.isSome ∧ p.sum.isSome then countAndSumNumbers p.count p.sum p.scrape none none else []) ++
      createdNumbers withCreated p.created p.scrape)

end HistogramPoint

namespace SummaryPoint

/-- The exemplar of the quantile at a position: they take turns, beginning with the third. -/
def exemplarAt (p : SummaryPoint) (i : Nat) : Option Exemplar :=
  if h : 0 < p.exemplars.length then
    some (p.exemplars.get ⟨(i + 2) % p.exemplars.length, Nat.mod_lt _ h⟩)
  else none

/-- The exemplar of the sum: the second one if there is one and the count took the first. -/
def sumExemplar (p : SummaryPoint) : Option Exemplar :=
  if h : p.count.isSome = true ∧ 1 < p.exemplars.length then some (p.exemplars.get ⟨1, h.2⟩) else p.exemplars.head?

/-- The position behind the exemplar that was taken last. -/
def turnAfter (p : SummaryPoint) (turn : Nat) : Nat :=
  if p.exemplars.isEmpty then turn else (turn + 1) % p.exemplars.length

/-- The quantile at position `i` comes next, `turn` being the position of the exemplar that was taken last. -/
def IsDue (p : SummaryPoint) (turn i : Nat) : Prop :=
  0 < p.exemplars.length → (turn + 1) % p.exemplars.length = (i + 2) % p.exemplars.length

theorem turnAfter_of_pos {p : SummaryPoint} {turn : Nat} (hpos : 0 < p.exemplars.length) :
    p.turnAfter turn = (turn + 1) % p.exemplars.length := by
  rw [turnAfter, if_neg]
  rw [List.isEmpty_iff, ← List.length_eq_zero_iff]
  omega

theorem IsDue.exemplar {p : SummaryPoint} {turn i : Nat} (h : p.IsDue turn i) :
    p.exemplars[p.turnAfter turn]? = p.exemplarAt i := by
  unfold exemplarAt
  by_cases hpos : 0 < p.exemplars.length
  · rw [dif_pos hpos, turnAfter_of_pos hpos, h hpos]
    exact List.getElem?_eq_getElem (Nat.mod_lt _ hpos)
  · rw [dif_neg hpos, List.getElem?_eq_none_iff]
    omega

theorem IsDue.next {p : SummaryPoint} {turn i : Nat} (h : p.IsDue turn i) : p.IsDue (p.turnAfter turn) (i + 1) := by
  intro hpos
  rw [turnAfter_of_pos hpos, h hpos, Nat.mod_add_mod]

def quantileNumbers (p : SummaryPoint) (i : Nat) : List Quantile → List SampleValue
  | [] => []
  | q :: qs =>
    .measurement q.quantile ::
      (lineNumbers (.measurement q.value) p.scrape (p.exemplarAt i) ++ quantileNumbers p (i + 1) qs)

def numbers (withCreated : Bool) (p : SummaryPoint) : List SampleValue :=
  p.quantileNumbers 0 p.quantiles ++
    (countAndSumNumbers p.count p.sum p.scrape p.exemplars.head? p.sumExemplar ++
      createdNumbers withCreated p.created p.scrape)

end SummaryPoint

/-- The numbers that points write; native ones write what the classic ones do that they become. -/
def Points.numbers (withCreated : Bool) : Points → List SampleValue
  | counter ps => ps.flatMap (·.numbers withCreated)
  | gauge ps => ps.flatMap GaugePoint.numbers
  | unknown ps => ps.flatMap GaugePoint.numbers
  | info ps => ps.flatMap InfoPoint.numbers
  | stateSet ps => ps.flatMap StateSetPoint.numbers
  | histogram _ ps => ps.flatMap (·.numbers withCreated)
  | native _ ps =>
    match ps.mapM NativePoint.toClassic with
    | .ok qs => qs.flatMap (·.numbers withCreated)
    | .error _ => []
  | summary ps => (ps.filter (fun p => !p.isEmpty)).flatMap (·.numbers withCreated)

section Samples

variable (withCreated isGauge : Bool) (family : Text)

theorem numbers_createdSamples (ls : Labels) (created scrape : Option Int) :
    (createdSamples withCreated family ls created scrape).flatMap Sample.numbers =
      createdNumbers withCreated created scrape := by
  cases withCreated with
  | false => rfl
  | true =>
    cases created with
    | none => rfl
    | some t => exact List.flatMap_singleton _ _

theorem CounterPoint.numbers_samples (p : CounterPoint) :
    (p.samples withCreated family).flatMap Sample.numbers = p.numbers withCreated := by
  unfold samples
  rw [List.flatMap_cons, numbers_createdSamples]
  rfl

theorem GaugePoint.numbers_samples (p : GaugePoint) : (p.samples family).flatMap Sample.numbers = p.numbers :=
  List.flatMap_singleton _ _

theorem InfoPoint.numbers_samples (p : InfoPoint) : (p.samples family).flatMap Sample.numbers = p.numbers :=
  List.flatMap_singleton _ _

theorem StateSetPoint.numbers_samples (p : StateSetPoint) : (p.samples family).flatMap Sample.numbers = p.numbers := by
  unfold samples
  rw [List.flatMap_map]
  rfl

theorem numbers_countAndSumSamples (countSuffix sumSuffix : Text) (ls : Labels) (count : Option Int)
    (sum : Option Number) (exemplars : Exemplars) (scrape : Option Int) :
    (countAndSumSamples family countSuffix sumSuffix ls count sum exemplars scrape).flatMap Sample.numbers =
      countAndSumNumbers count sum scrape exemplars.head?
        (if count.isSome && 1 < exemplars.length then exemplars[1]? else exemplars.head?) := by
  unfold countAndSumNumbers
  rw [countAndSumSamples_eq, List.flatMap_append]
  congr 1
  · cases count with
    | none => rfl
    | some n => exact List.flatMap_singleton _ _
  · cases sum with
    | none => rfl
    | some x => exact List.flatMap_singleton _ _

theorem HistogramPoint.numbers_bucketSamples (p : HistogramPoint) : ∀ (bs : List Bucket) (below : Int) (lower : Number),
    (p.bucketSamples family below lower bs).flatMap Sample.numbers = p.bucketNumbers below lower bs
  | [], _, _ => rfl
  | b :: bs, below, lower => by
    rw [bucketSamples, List.flatMap_cons, numbers_bucketSamples p bs, bucketNumbers]
    rfl

theorem HistogramPoint.numbers_samples (p : HistogramPoint) :
    (p.samples withCreated isGauge family).flatMap Sample.numbers = p.numbers withCreated := by
  unfold samples numbers
  rw [List.flatMap_append, List.flatMap_append, numbers_createdSamples, numbers_bucketSamples]
  congr 2
  by_cases hboth : p.count.isSome ∧ p.sum.isSome
  · rw [if_pos (by simpa using hboth), if_pos hboth, numbers_countAndSumSamples]
    simp
  · rw [if_neg (by simpa using hboth), if_neg hboth]
    rfl

/-- The exemplars take turns: after each quantile the next one follows, and none is looked for where there is none. -/
theorem SummaryPoint.numbers_quantileSamples (p : SummaryPoint) : ∀ (qs : List Quantile) (turn i : Nat), p.IsDue turn i →
    (p.quantileSamples family turn qs).flatMap Sample.numbers = p.quantileNumbers i qs
  | [], _, _, _ => rfl
  | q :: qs, turn, i, h => by
    have hrest := numbers_quantileSamples p qs _ _ h.next
    have hat := h.exemplar
    rw [turnAfter] at hrest hat
    unfold quantileNumbers
    simp only [quantileSamples_cons]
    rw [List.flatMap_cons, hrest, hat]
    rfl

theorem SummaryPoint.sumExemplar_eq (p : SummaryPoint) :
    (if p.count.isSome && 1 < p.exemplars.length then p.exemplars[1]? else p.exemplars.head?) = p.sumExemplar := by
  unfold sumExemplar
  by_cases h : p.count.isSome = true ∧ 1 < p.exemplars.length
  · rw [dif_pos h, if_pos (by simp [h])]
    exact List.getElem?_eq_getElem h.2
  · rw [dif_neg h, if_neg (by simpa using h)]

theorem SummaryPoint.numbers_samples (p : SummaryPoint) :
    (p.samples withCreated family).flatMap Sample.numbers = p.numbers withCreated := by
  unfold numbers
  rw [samples_eq, List.flatMap_append, List.flatMap_append, numbers_createdSamples, numbers_countAndSumSamples,
    sumExemplar_eq, numbers_quantileSamples family p p.quantiles 1 0 (fun _ => rfl)]

end Samples

/-! ## Families -/

theorem numbers_metadata (m : Metadata) (t : MetricType) : (m.records t).flatMap Record.numbers = [] := by
  unfold Metadata.records
  rw [List.flatMap_cons, List.flatMap_append]
  cases m.unit with
  | none =>
    cases m.help with
    | none => rfl
    | some h => cases h <;> rfl
  | some u =>
    cases m.help with
    | none => rfl
    | some h => cases h <;> rfl

theorem Family.numbers_block (f : Family) (samples : List Sample) :
    (f.block samples).flatMap Record.numbers = samples.flatMap Sample.numbers := by
  unfold block
  rw [List.flatMap_append, numbers_metadata, List.nil_append, List.flatMap_map]
  rfl

theorem Family.numbers_block_flatMap {α : Type} (f : Family) {samples : α → List Sample}
    {numbers : α → List SampleValue} (h : ∀ p, (samples p).flatMap Sample.numbers = numbers p) (ps : List α) :
    (f.block (ps.flatMap samples)).flatMap Record.numbers = ps.flatMap numbers := by
  rw [numbers_block, List.flatMap_assoc]
  congr 1
  funext p
  exact h p

/-- **The records of a family hold the numbers that its points write.** -/
theorem Family.numbers_records {withCreated : Bool} {f : Family} {rs : List Record} (hr : f.records withCreated = .ok rs) :
    rs.flatMap Record.numbers = f.points.numbers withCreated := by
  obtain ⟨m, points⟩ := f
  unfold records at hr
  cases points with
  | counter ps => cases hr; exact numbers_block_flatMap _ (CounterPoint.numbers_samples withCreated m.name) ps
  | gauge ps => cases hr; exact numbers_block_flatMap _ (GaugePoint.numbers_samples m.name) ps
  | unknown ps => cases hr; exact numbers_block_flatMap _ (GaugePoint.numbers_samples m.name) ps
  | info ps => cases hr; exact numbers_block_flatMap _ (InfoPoint.numbers_samples m.name) ps
  | stateSet ps => cases hr; exact numbers_block_flatMap _ (StateSetPoint.numbers_samples m.name) ps
  | histogram g ps => cases hr; exact numbers_block_flatMap _ (HistogramPoint.numbers_samples withCreated g m.name) ps
  | native g ps =>
    simp only at hr
    simp only [Points.numbers]
    cases hqs : ps.mapM NativePoint.toClassic with
    | error e => rw [hqs] at hr; cases hr
    | ok qs =>
      rw [hqs] at hr
      cases hr
      exact numbers_block_flatMap _ (HistogramPoint.numbers_samples withCreated g m.name) qs
  | summary ps =>
    simp only at hr
    cases hr
    simp only [Points.numbers]
    split
    · rename_i hshown
      rw [List.isEmpty_iff.1 hshown]
      rfl
    · exact numbers_block_flatMap _ (SummaryPoint.numbers_samples withCreated m.name) _

end Exposition
