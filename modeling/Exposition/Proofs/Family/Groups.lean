import Exposition.Document
import Exposition.Proofs.Faults
/-!
# Groups — the samples of a family, point by point

The samples of a family come in groups, one for each data point in order (`Points.groups`), and what is in a group depends
on its point alone, so data points that are put together have their groups put together (`Points.groups_of_joins`).  A
snapshot with something to show is the metadata of its family and then its groups (`Snapshot.emission_of_not_blank`);
one with nothing to show leaves no text (`Snapshot.emission_of_blank`).
-/
namespace Exposition

/-- A point of a summary without anything to show has no samples, not even the one of its beginning. -/
def SummaryPoint.shownSamples (withCreated : Bool) (family : Text) (p : SummaryPoint) : List Sample :=
  if p.isEmpty then [] else p.samples withCreated family

theorem SummaryPoint.isEmpty_iff {p : SummaryPoint} :
    p.isEmpty = true ↔ p.quantiles = [] ∧ p.count = none ∧ p.sum = none := by
  rw [isEmpty, Bool.and_eq_true, Bool.and_eq_true, List.isEmpty_iff, Option.isNone_iff_eq_none,
    Option.isNone_iff_eq_none, and_assoc]

namespace Points

/-- The samples of each data point.  A native histogram is converted as a whole before there are any. -/
def groups (withCreated : Bool) (family : Text) : Points → Except Fault (List (List Sample))
  | counter ps => .ok (ps.map (·.samples withCreated family))
  | gauge ps => .ok (ps.map (·.samples family))
  | unknown ps => .ok (ps.map (·.samples family))
  | info ps => .ok (ps.map (·.samples family))
  | stateSet ps => .ok (ps.map (·.samples family))
  | histogram isGauge ps => .ok (ps.map (·.samples withCreated isGauge family))
  | native isGauge ps => (ps.mapM NativePoint.toClassic).map (·.map (·.samples withCreated isGauge family))
  | summary ps => .ok (ps.map (·.shownSamples withCreated family))

/-- Nothing to show: no data points, or those of a summary without quantiles, count and sum. -/
def Blank : Points → Prop
  | summary ps => ∀ p ∈ ps, p.quantiles = [] ∧ p.count = none ∧ p.sum = none
  | ps => ps.size = 0

theorem blank_of_size {ps : Points} (h : ps.size = 0) : ps.Blank := by
  cases ps with
  | summary ps =>
    intro p hp
    rw [List.eq_nil_of_length_eq_zero h] at hp
    cases hp
  | _ => exact h

/-- Data points that show nothing have empty groups. -/
theorem flatten_groups_of_blank {withCreated : Bool} {family : Text} {ps : Points} (hb : ps.Blank)
    {gs : List (List Sample)} (h : ps.groups withCreated family = .ok gs) : gs.flatten = [] := by
  cases ps with
  | summary ps =>
    cases h
    rw [List.flatten_eq_nil_iff]
    intro g hg
    obtain ⟨p, hp, rfl⟩ := List.mem_map.1 hg
    exact if_pos (SummaryPoint.isEmpty_iff.2 (hb p hp))
  | native g ps =>
    obtain rfl : ps = [] := List.eq_nil_of_length_eq_zero hb
    cases h
    rfl
  | counter ps => obtain rfl : ps = [] := List.eq_nil_of_length_eq_zero hb; cases h; rfl
  | gauge ps => obtain rfl : ps = [] := List.eq_nil_of_length_eq_zero hb; cases h; rfl
  | unknown ps => obtain rfl : ps = [] := List.eq_nil_of_length_eq_zero hb; cases h; rfl
  | info ps => obtain rfl : ps = [] := List.eq_nil_of_length_eq_zero hb; cases h; rfl
  | stateSet ps => obtain rfl : ps = [] := List.eq_nil_of_length_eq_zero hb; cases h; rfl
  | histogram g ps => obtain rfl : ps = [] := List.eq_nil_of_length_eq_zero hb; cases h; rfl

/-! ## Data points put together -/

/-- The third has the data points of the first and then those of the second, all of one kind. -/
inductive Joins : Points → Points → Points → Prop
  | counter (ps qs : List CounterPoint) : Joins (counter ps) (counter qs) (counter (ps ++ qs))
  | gauge (ps qs : List GaugePoint) : Joins (gauge ps) (gauge qs) (gauge (ps ++ qs))
  | unknown (ps qs : List GaugePoint) : Joins (unknown ps) (unknown qs) (unknown (ps ++ qs))
  | info (ps qs : List InfoPoint) : Joins (info ps) (info qs) (info (ps ++ qs))
  | stateSet (ps qs : List StateSetPoint) : Joins (stateSet ps) (stateSet qs) (stateSet (ps ++ qs))
  | histogram (isGauge : Bool) (ps qs : List HistogramPoint) :
      Joins (histogram isGauge ps) (histogram isGauge qs) (histogram isGauge (ps ++ qs))
  | native (isGauge : Bool) (ps qs : List NativePoint) :
      Joins (native isGauge ps) (native isGauge qs) (native isGauge (ps ++ qs))
  | summary (ps qs : List SummaryPoint) : Joins (summary ps) (summary qs) (summary (ps ++ qs))

theorem Joins.type_eq {ps qs rs : Points} (h : Joins ps qs rs) : ps.type = rs.type ∧ qs.type = rs.type := by
  cases h <;> exact ⟨rfl, rfl⟩

theorem Joins.blank_iff {ps qs rs : Points} (h : Joins ps qs rs) : rs.Blank ↔ ps.Blank ∧ qs.Blank := by
  have hsize : ∀ {α : Type} (as bs : List α), (as ++ bs).length = 0 ↔ as.length = 0 ∧ bs.length = 0 := by
    intro α as bs
    rw [List.length_append]
    omega
  cases h with
  | summary ps qs => exact List.forall_mem_append
  | _ => exact hsize _ _

/-- **Groups are put together as the data points are.** -/
theorem groups_of_joins {withCreated : Bool} {family : Text} {ps qs rs : Points} (h : Joins ps qs rs)
    {gs : List (List Sample)} (hgs : rs.groups withCreated family = .ok gs) :
    ∃ gs₁ gs₂, ps.groups withCreated family = .ok gs₁ ∧ qs.groups withCreated family = .ok gs₂ ∧ gs = gs₁ ++ gs₂ := by
  cases h with
  | native isGauge ps qs =>
    obtain ⟨cs, hcs, rfl⟩ := map_eq_ok_iff.1 hgs
    obtain ⟨cs₁, cs₂, h₁, h₂, rfl⟩ := mapM_append_eq_ok_iff.1 hcs
    exact ⟨_, _, map_eq_ok_iff.2 ⟨cs₁, h₁, rfl⟩, map_eq_ok_iff.2 ⟨cs₂, h₂, rfl⟩, List.map_append⟩
  | _ =>
    cases hgs
    exact ⟨_, _, rfl, rfl, List.map_append⟩

end Points

/-! ## Families and snapshots -/

theorem SummaryPoint.flatten_shownSamples (withCreated : Bool) (family : Text) : ∀ (ps : List SummaryPoint),
    (ps.map (·.shownSamples withCreated family)).flatten =
      (ps.filter (fun p => !p.isEmpty)).flatMap (·.samples withCreated family)
  | [] => rfl
  | p :: ps => by
    rw [List.map_cons, List.flatten_cons, flatten_shownSamples withCreated family ps, shownSamples, List.filter_cons]
    cases p.isEmpty with
    | true => rfl
    | false => rfl

/-- **A family with something to show is its metadata and then its groups.** -/
theorem Family.records_eq_groups (withCreated : Bool) {f : Family} (hb : ¬f.points.Blank) :
    f.records withCreated = (f.points.groups withCreated f.metadata.name).map (fun gs => f.block gs.flatten) := by
  obtain ⟨m, points⟩ := f
  cases points with
  | summary ps =>
    have hshown : (ps.filter (fun p => !p.isEmpty)).isEmpty = false := by
      rw [Bool.eq_false_iff, Ne, List.isEmpty_iff, List.filter_eq_nil_iff]
      intro hall
      refine hb fun p hp => SummaryPoint.isEmpty_iff.1 ?_
      simpa using hall p hp
    simp only [records, hshown, Points.groups, Except.map, SummaryPoint.flatten_shownSamples]
    rfl
  | native isGauge ps =>
    simp only [records, Points.groups]
    cases ps.mapM NativePoint.toClassic with
    | error e => rfl
    | ok qs => rfl
  | _ => rfl

/-- Of families with nothing to show only those with data points are written, and they have no records. -/
theorem Family.records_of_blank (withCreated : Bool) {f : Family} (hb : f.points.Blank) (hsize : f.points.size ≠ 0) :
    f.records withCreated = .ok [] := by
  obtain ⟨m, points⟩ := f
  cases points with
  | summary ps =>
    have hshown : ps.filter (fun p => !p.isEmpty) = [] := by
      rw [List.filter_eq_nil_iff]
      intro p hp
      rw [SummaryPoint.isEmpty_iff.2 (hb p hp)]
      decide
    simp only [records, hshown]
    rfl
  | _ => exact absurd hb hsize

namespace Snapshot

theorem size_of_family? {f : Family} : ∀ {s : Snapshot}, s.family? = some f → s.size = f.points.size
  | family g, h => by
    cases h
    rfl
  | extended _ s, h => size_of_family? (s := s) h

variable {s : Snapshot} {f : Family}

theorem isEmpty_of_family? (hf : s.family? = some f) : s.isEmpty = (f.points.size == 0) := by
  rw [isEmpty, size_of_family? hf]

theorem isEmpty_eq_false (hf : s.family? = some f) (hb : ¬f.points.Blank) : s.isEmpty = false := by
  rw [isEmpty_of_family? hf, beq_eq_false_iff_ne]
  exact fun h => hb (Points.blank_of_size h)

/-- **A snapshot with nothing to show leaves no text.** -/
theorem emission_of_blank (withCreated : Bool) (hf : s.family? = some f) (hb : f.points.Blank) :
    s.emission withCreated = .empty := by
  rw [emission, isEmpty_of_family? hf]
  split
  · rfl
  · rename_i hsize
    rw [hf]
    simp only [Family.emission]
    rw [Family.records_of_blank withCreated hb (fun h => hsize (beq_iff_eq.2 h))]
    rfl

/-- **A snapshot with something to show is the metadata of its family and then its groups.** -/
theorem emission_of_not_blank (withCreated : Bool) (hf : s.family? = some f) (hb : ¬f.points.Blank) :
    s.emission withCreated =
      match f.points.groups withCreated f.metadata.name with
      | .ok gs => .concat ((f.block gs.flatten).map Record.emission)
      | .error e => .ofFault e := by
  rw [emission, isEmpty_eq_false hf hb, if_neg (by decide), hf]
  simp only [Family.emission]
  rw [f.records_eq_groups withCreated hb]
  cases f.points.groups withCreated f.metadata.name with
  | ok gs => rfl
  | error e => rfl

end Snapshot
end Exposition
