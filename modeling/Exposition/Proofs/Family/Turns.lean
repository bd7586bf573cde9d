import Exposition.Proofs.Family.Groups
import Exposition.Proofs.Family.Numbers
/-!
# Turns — which exemplar stands on which line of a summary

The quantiles of a summary point take its exemplars in turn and begin with the third; the count takes the first one, and so
does the sum unless there is a second one and the count comes before it (`SummaryPoint.samples_eq_lines`).  Exemplars are
looked up by position, so a run could stop where no exemplar stands, or where turns are counted modulo none.  The run that
takes them with both checked is the run (`SummaryPoint.checkedSamples_eq`), and it is that of the point alone, whatever
points come before it (`SummaryPoint.records_turns`).
-/
namespace Exposition

/-! ## Positions that are checked -/

/-- What stops a run that checks its positions: no exemplar stands there, or turns are counted modulo none. -/
inductive TurnFault
  | outOfRange
  | zeroModulus
  deriving DecidableEq, Repr

namespace Exemplars

def checkedAt (es : Exemplars) (i : Nat) : Except TurnFault Exemplar :=
  match es[i]? with
  | some e => .ok e
  | none => .error .outOfRange

def checkedTurn (es : Exemplars) (turn : Nat) : Except TurnFault Nat :=
  if es.length = 0 then .error .zeroModulus else .ok ((turn + 1) % es.length)

/-- The next turn and its exemplar; without exemplars no position is looked up. -/
def checkedNext (es : Exemplars) (turn : Nat) : Except TurnFault (Nat × Option Exemplar) :=
  if es.isEmpty then .ok (turn, none)
  else do
    let turn ← es.checkedTurn turn
    let e ← es.checkedAt turn
    .ok (turn, some e)

/-- The exemplar at a position, or none without exemplars. -/
def checkedOptional (es : Exemplars) (i : Nat) : Except TurnFault (Option Exemplar) :=
  if es.isEmpty then .ok none else (es.checkedAt i).map some

theorem checkedAt_of_lt {es : Exemplars} {i : Nat} (h : i < es.length) : es.checkedAt i = .ok (es.get ⟨i, h⟩) := by
  rw [checkedAt, List.getElem?_eq_getElem h]
  rfl

theorem checkedOptional_of_lt {es : Exemplars} {i : Nat} (h : i < es.length) : es.checkedOptional i = .ok es[i]? := by
  have hne : es.isEmpty = false := by
    rw [List.isEmpty_eq_false_iff, ← List.length_pos_iff]
    omega
  rw [checkedOptional, hne, if_neg (by decide), checkedAt_of_lt h, List.getElem?_eq_getElem h]
  rfl

theorem checkedOptional_zero (es : Exemplars) : es.checkedOptional 0 = .ok es[0]? := by
  cases es with
  | nil => rfl
  | cons e es => exact checkedOptional_of_lt (Nat.succ_pos _)

end Exemplars

/-- Exemplars are taken with their positions checked. -/
def Taking.checked : Taking (Except TurnFault) where
  next := Exemplars.checkedNext
  placed := Exemplars.checkedOptional

namespace SummaryPoint

variable {withCreated : Bool} {family : Text} {p : SummaryPoint}

/-! ## Lines -/

def quantileSample (family : Text) (p : SummaryPoint) (q : Quantile) (e : Option Exemplar) : Sample :=
  { family, suffix := none, labels := p.labels, added := some (.quantile q.quantile), value := .measurement q.value
    timestamp := p.scrape, exemplar := e }

def countSample (family : Text) (p : SummaryPoint) (n : Int) (e : Option Exemplar) : Sample :=
  { family, suffix := some "_count", labels := p.labels, added := none, value := .count n, timestamp := p.scrape
    exemplar := e }

def sumSample (family : Text) (p : SummaryPoint) (x : Number) (e : Option Exemplar) : Sample :=
  { family, suffix := some "_sum", labels := p.labels, added := none, value := .measurement x, timestamp := p.scrape
    exemplar := e }

/-- The lines of a point and the exemplars on them: each quantile's by its position, the count's and the sum's. -/
def lines (withCreated : Bool) (family : Text) (p : SummaryPoint) : List Sample :=
  p.quantiles.mapIdx (fun k q => p.quantileSample family q (p.exemplarAt k)) ++
    (p.count.toList.map (fun n => p.countSample family n p.exemplars.head?) ++
      (p.sum.toList.map (fun x => p.sumSample family x p.sumExemplar) ++
        createdSamples withCreated family p.labels p.created p.scrape))

/-- The quantiles from position `i` on. -/
theorem quantileSamples_eq_mapIdx : ∀ (qs : List Quantile) (turn i : Nat), p.IsDue turn i →
    p.quantileSamples family turn qs = qs.mapIdx (fun k q => p.quantileSample family q (p.exemplarAt (i + k)))
  | [], _, _, _ => rfl
  | q :: qs, turn, i, h => by
    have hrest := quantileSamples_eq_mapIdx qs _ _ h.next
    have hat := h.exemplar
    rw [turnAfter] at hrest hat
    simp only [quantileSamples_cons]
    rw [List.mapIdx_cons, hrest, hat]
    simp only [Nat.add_assoc, Nat.add_comm 1, Nat.add_zero]
    rfl

theorem countAndSumSamples_eq_lines (family : Text) (p : SummaryPoint) :
    countAndSumSamples family "_count" "_sum" p.labels p.count p.sum p.exemplars p.scrape =
      p.count.toList.map (fun n => p.countSample family n p.exemplars.head?) ++
        p.sum.toList.map (fun x => p.sumSample family x p.sumExemplar) := by
  rw [countAndSumSamples_eq, sumExemplar_eq]
  cases p.count with
  | none => cases p.sum <;> rfl
  | some n => cases p.sum <;> rfl

/-- **The lines of a point and their exemplars, in closed form.** -/
theorem samples_eq_lines (withCreated : Bool) (family : Text) (p : SummaryPoint) :
    p.samples withCreated family = p.lines withCreated family := by
  have hdue : p.IsDue 1 0 := fun _ => rfl
  rw [samples_eq, quantileSamples_eq_mapIdx p.quantiles 1 0 hdue, countAndSumSamples_eq_lines, List.append_assoc]
  simp only [Nat.zero_add]
  rfl

/-! ## The checked run -/

/-- The lines of a point with all positions checked. -/
def checkedSamples (withCreated : Bool) (family : Text) (p : SummaryPoint) : Except TurnFault (List Sample) :=
  p.samplesBy .checked withCreated family

theorem IsDue.checkedNext {turn i : Nat} (h : p.IsDue turn i) :
    p.exemplars.checkedNext turn = .ok (p.turnAfter turn, p.exemplarAt i) := by
  unfold Exemplars.checkedNext
  by_cases hpos : 0 < p.exemplars.length
  · have hne : p.exemplars.isEmpty = false := List.isEmpty_eq_false_iff.2 (List.length_pos_iff.1 hpos)
    have hlt : (turn + 1) % p.exemplars.length < p.exemplars.length := Nat.mod_lt _ hpos
    have hat := h.exemplar
    rw [turnAfter_of_pos hpos, List.getElem?_eq_getElem hlt] at hat
    rw [hne, if_neg (by decide), Exemplars.checkedTurn, if_neg hpos.ne', turnAfter_of_pos hpos, ← hat]
    exact bind_eq_ok_iff.2 ⟨_, rfl, bind_eq_ok_iff.2 ⟨_, Exemplars.checkedAt_of_lt hlt, rfl⟩⟩
  · have hnil : p.exemplars = [] := List.eq_nil_of_length_eq_zero (Nat.eq_zero_of_not_pos hpos)
    rw [turnAfter, exemplarAt, dif_neg hpos, hnil]
    rfl

theorem checkedQuantileSamples_eq : ∀ (qs : List Quantile) (turn i : Nat), p.IsDue turn i →
    p.quantileSamplesBy .checked family turn qs = .ok (p.quantileSamples family turn qs)
  | [], _, _, _ => rfl
  | q :: qs, turn, i, h => by
    have hnext : Taking.checked.next p.exemplars turn = .ok (p.turnAfter turn, p.exemplars[p.turnAfter turn]?) := by
      rw [h.exemplar]
      exact h.checkedNext
    rw [quantileSamplesBy, hnext]
    exact bind_eq_ok_iff.2 ⟨_, rfl, bind_eq_ok_iff.2 ⟨_, checkedQuantileSamples_eq qs _ _ h.next, rfl⟩⟩

theorem checkedCountAndSumSamples_eq (family : Text) (p : SummaryPoint) :
    countAndSumSamplesBy .checked family "_count" "_sum" p.labels p.count p.sum p.exemplars p.scrape =
      .ok (countAndSumSamples family "_count" "_sum" p.labels p.count p.sum p.exemplars p.scrape) := by
  have hfirst : Taking.checked.placed p.exemplars 0 = .ok p.exemplars[0]? := p.exemplars.checkedOptional_zero
  have hsum : ∀ b : Bool, Taking.checked.placed p.exemplars (if b && 1 < p.exemplars.length then 1 else 0) =
      .ok p.exemplars[if b && 1 < p.exemplars.length then 1 else 0]? := by
    intro b
    split
    · rename_i hboth
      exact Exemplars.checkedOptional_of_lt (of_decide_eq_true (Bool.and_eq_true_iff.1 hboth).2)
    · exact hfirst
  unfold countAndSumSamplesBy
  rw [hfirst]
  cases p.sum with
  | none => cases p.count <;> rfl
  | some x =>
    simp only [hsum]
    cases p.count <;> rfl

/-- **No exemplar is looked for where none stands, and no turn is counted modulo none.** -/
theorem checkedSamples_eq (withCreated : Bool) (family : Text) (p : SummaryPoint) :
    p.checkedSamples withCreated family = .ok (p.samples withCreated family) := by
  have hdue : p.IsDue 1 0 := fun _ => rfl
  exact bind_eq_ok_iff.2 ⟨_, checkedQuantileSamples_eq p.quantiles 1 0 hdue,
    bind_eq_ok_iff.2 ⟨_, p.checkedCountAndSumSamples_eq family, rfl⟩⟩

/-- **A summary point that shows anything has its own lines among the records of its family**, behind those of the points
before it, which make no difference to it.  Its quantiles carry the exemplars in turn: the quantile at position `k` carries
number `k + 2` modulo how many there are.  The count carries the first, and the sum the second if there is one and the
count is shown.  No position beyond the exemplars is looked up on the way. -/
theorem records_turns (withCreated : Bool) (f : Family) (before after : List SummaryPoint) (p : SummaryPoint)
    (hf : f.points = .summary (before ++ p :: after))
    (hp : p.quantiles ≠ [] ∨ p.count ≠ none ∨ p.sum ≠ none) :
    let name := f.metadata.name
    f.records withCreated = .ok (f.block (before.flatMap (·.shownSamples withCreated name) ++
      p.lines withCreated name ++ after.flatMap (·.shownSamples withCreated name))) ∧
    p.checkedSamples withCreated name = .ok (p.lines withCreated name) := by
  intro name
  have hshown : ¬p.isEmpty = true := by
    rw [isEmpty_iff]
    rintro ⟨hq, hc, hs⟩
    rcases hp with h | h | h
    · exact h hq
    · exact h hc
    · exact h hs
  have hblank : ¬f.points.Blank := by
    rw [hf]
    intro hb
    exact hshown (isEmpty_iff.2 (hb p (List.mem_append_right before List.mem_cons_self)))
  constructor
  · rw [f.records_eq_groups withCreated hblank, hf, Points.groups, Except.map, ← List.flatMap_def, List.flatMap_append,
      List.flatMap_cons, shownSamples, if_neg hshown, samples_eq_lines, List.append_assoc]
  · rw [checkedSamples_eq, samples_eq_lines]

/-- A point with two quantiles, a count and a sum, and three exemplars numbered from zero. -/
def threeExemplars : SummaryPoint where
  quantiles := [⟨.int 0, .int 10⟩, ⟨.int 1, .int 12⟩]
  labels := []
  count := some 2
  sum := some (.int 22)
  exemplars := [⟨.int 0, [], none⟩, ⟨.int 1, [], none⟩, ⟨.int 2, [], none⟩]
  created := none
  scrape := none

/-- A point of one quantile and two exemplars, which takes the first of them and leaves the second for its own turns. -/
def oneQuantile : SummaryPoint :=
  { threeExemplars with quantiles := [⟨.int 0, .int 9⟩], exemplars := [⟨.int 3, [], none⟩, ⟨.int 4, [], none⟩] }

theorem records_turns_threeExemplars :
    let f : Family := ⟨⟨"rpc", none, none⟩, .summary [oneQuantile, threeExemplars]⟩
    f.records false = .ok (f.block (oneQuantile.lines false "rpc" ++ threeExemplars.lines false "rpc")) ∧
    threeExemplars.checkedSamples false "rpc" = .ok (threeExemplars.lines false "rpc") ∧
    (threeExemplars.lines false "rpc").map (fun s => s.exemplar.map Exemplar.value) =
      [some (.int 2), some (.int 0), some (.int 0), some (.int 1)] := by
  intro f
  obtain ⟨hrecords, hchecked⟩ := records_turns false f [oneQuantile] [] threeExemplars rfl (.inl (by decide))
  refine ⟨hrecords.trans ?_, hchecked, by decide⟩
  rw [List.flatMap_singleton, shownSamples, samples_eq_lines]
  rfl

end SummaryPoint
end Exposition
