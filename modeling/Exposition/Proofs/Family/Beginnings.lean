import Exposition.Proofs.Family.Series
/-!
# Beginnings — when the series of a data point began

The time at which the series of a data point began, if it is known and asked for, is the last sample of the point, and it
shows nowhere else.  So a family whose times are taken away has the groups that it has if they are not asked for
(`Points.groups_withoutCreated`), and with either answer a family has the same blocks, each with its last sample or without
it (`Points.exists_blocks`).
-/
namespace Exposition

open List (Forall₂)

/-! ## Without the times -/

def CounterPoint.withoutCreated (p : CounterPoint) : CounterPoint := { p with created := none }

def HistogramPoint.withoutCreated (p : HistogramPoint) : HistogramPoint := { p with created := none }

def NativePoint.withoutCreated (p : NativePoint) : NativePoint := { p with created := none }

def SummaryPoint.withoutCreated (p : SummaryPoint) : SummaryPoint := { p with created := none }

/-- The data points as they are if it is not known when their series began. -/
def Points.withoutCreated : Points → Points
  | counter ps => counter (ps.map CounterPoint.withoutCreated)
  | gauge ps => gauge ps
  | unknown ps => unknown ps
  | info ps => info ps
  | stateSet ps => stateSet ps
  | histogram isGauge ps => histogram isGauge (ps.map HistogramPoint.withoutCreated)
  | native isGauge ps => native isGauge (ps.map NativePoint.withoutCreated)
  | summary ps => summary (ps.map SummaryPoint.withoutCreated)

def Family.withoutCreated (f : Family) : Family := { f with points := f.points.withoutCreated }

def Snapshot.withoutCreated : Snapshot → Snapshot
  | family f => family f.withoutCreated
  | foreign className points => foreign className points
  | extended className base => extended className base.withoutCreated

section WithoutCreated

variable (withCreated isGauge : Bool) (family : Text)

@[simp] theorem createdSamples_none (ls : Labels) (scrape : Option Int) :
    createdSamples withCreated family ls none scrape = [] := by
  cases withCreated <;> rfl

@[simp] theorem createdSamples_false (ls : Labels) (created scrape : Option Int) :
    createdSamples false family ls created scrape = [] := rfl

theorem CounterPoint.samples_withoutCreated (p : CounterPoint) :
    p.withoutCreated.samples withCreated family = p.samples false family := by
  simp [samples, withoutCreated]

theorem HistogramPoint.bucketSamples_withoutCreated (p : HistogramPoint) : ∀ (bs : List Bucket) (below : Int)
    (lower : Number), p.withoutCreated.bucketSamples family below lower bs = p.bucketSamples family below lower bs
  | [], _, _ => rfl
  | b :: bs, below, _ => by
    rw [bucketSamples, bucketSamples, bucketSamples_withoutCreated p bs (below + b.count) b.upperBound]
    rfl

theorem HistogramPoint.samples_withoutCreated (p : HistogramPoint) :
    p.withoutCreated.samples withCreated isGauge family = p.samples false isGauge family := by
  unfold samples
  rw [bucketSamples_withoutCreated]
  simp [withoutCreated]

theorem SummaryPoint.quantileSamples_withoutCreated (p : SummaryPoint) : ∀ (qs : List Quantile) (turn : Nat),
    p.withoutCreated.quantileSamples family turn qs = p.quantileSamples family turn qs
  | [], _ => rfl
  | q :: qs, turn => by
    simp only [quantileSamples_cons, quantileSamples_withoutCreated p qs]
    rfl

theorem SummaryPoint.shownSamples_withoutCreated (p : SummaryPoint) :
    p.withoutCreated.shownSamples withCreated family = p.shownSamples false family := by
  unfold shownSamples
  rw [samples_eq, samples_eq, quantileSamples_withoutCreated]
  simp [withoutCreated, isEmpty]

theorem NativePoint.toClassic_withoutCreated (p : NativePoint) :
    p.withoutCreated.toClassic = p.toClassic.map HistogramPoint.withoutCreated := by
  have hobserved : p.withoutCreated.observedBuckets = p.observedBuckets := rfl
  unfold toClassic
  rw [hobserved]
  cases p.observedBuckets with
  | error e => rfl
  | ok bs => rfl

theorem NativePoint.mapM_toClassic_withoutCreated : ∀ (ps : List NativePoint),
    (ps.map withoutCreated).mapM toClassic = (ps.mapM toClassic).map (·.map HistogramPoint.withoutCreated)
  | [] => rfl
  | p :: ps => by
    rw [List.map_cons, mapM_cons_eq_bind, mapM_cons_eq_bind, toClassic_withoutCreated,
      mapM_toClassic_withoutCreated ps]
    cases p.toClassic with
    | error e => rfl
    | ok q =>
      cases ps.mapM toClassic with
      | error e => rfl
      | ok qs => rfl

/-- **Without the times the groups are those that do not ask for them.** -/
theorem Points.groups_withoutCreated (ps : Points) :
    ps.withoutCreated.groups withCreated family = ps.groups false family := by
  cases ps with
  | counter ps => simp [groups, withoutCreated, CounterPoint.samples_withoutCreated]
  | histogram g ps => simp [groups, withoutCreated, HistogramPoint.samples_withoutCreated]
  | summary ps => simp [groups, withoutCreated, SummaryPoint.shownSamples_withoutCreated]
  | native g ps =>
    simp only [groups, withoutCreated]
    rw [NativePoint.mapM_toClassic_withoutCreated]
    cases ps.mapM NativePoint.toClassic with
    | error e => rfl
    | ok qs => simp [Except.map, HistogramPoint.samples_withoutCreated]
  | _ => rfl

theorem Points.size_withoutCreated (ps : Points) : ps.withoutCreated.size = ps.size := by
  cases ps <;> simp [size, withoutCreated]

theorem Points.type_withoutCreated (ps : Points) : ps.withoutCreated.type = ps.type := by
  cases ps <;> rfl

theorem Points.blank_withoutCreated {ps : Points} : ps.withoutCreated.Blank ↔ ps.Blank := by
  cases ps with
  | summary ps => exact List.forall_mem_map
  | counter ps => exact iff_of_eq (congrArg (· = 0) (size_withoutCreated (.counter ps)))
  | histogram g ps => exact iff_of_eq (congrArg (· = 0) (size_withoutCreated (.histogram g ps)))
  | native g ps => exact iff_of_eq (congrArg (· = 0) (size_withoutCreated (.native g ps)))
  | _ => exact Iff.rfl

end WithoutCreated

namespace Snapshot

theorem family?_withoutCreated : ∀ (s : Snapshot), s.withoutCreated.family? = s.family?.map Family.withoutCreated
  | family _ => rfl
  | foreign _ _ => rfl
  | extended _ s => family?_withoutCreated s

theorem size_withoutCreated : ∀ (s : Snapshot), s.withoutCreated.size = s.size
  | family f => f.points.size_withoutCreated
  | foreign _ _ => rfl
  | extended _ s => size_withoutCreated s

theorem className_withoutCreated : ∀ (s : Snapshot), s.withoutCreated.className = s.className
  | family f => congrArg MetricType.word f.points.type_withoutCreated
  | foreign _ _ => rfl
  | extended _ _ => rfl

/-- **A snapshot without the times is written as if nobody asked for them.** -/
theorem emission_withoutCreated (withCreated : Bool) (s : Snapshot) :
    s.withoutCreated.emission withCreated = s.emission false := by
  have hfamily := s.family?_withoutCreated
  cases hf : s.family? with
  | none =>
    rw [hf] at hfamily
    unfold emission isEmpty
    rw [hfamily, hf, s.size_withoutCreated, s.className_withoutCreated]
    rfl
  | some f =>
    rw [hf] at hfamily
    by_cases hb : f.points.Blank
    · rw [s.emission_of_blank false hf hb,
        s.withoutCreated.emission_of_blank withCreated hfamily (Points.blank_withoutCreated.2 hb)]
    · have htype : f.withoutCreated.type = f.type := f.points.type_withoutCreated
      rw [s.emission_of_not_blank false hf hb,
        s.withoutCreated.emission_of_not_blank withCreated hfamily (fun h => hb (Points.blank_withoutCreated.1 h))]
      unfold Family.block
      rw [htype]
      simp only [Family.withoutCreated]
      rw [Points.groups_withoutCreated]

end Snapshot

/-! ## Blocks -/

/-- The lines of a data point, and the time at which its series began if that is to be told. -/
structure Block (α : Type) where
  point : DataPoint
  began : Option Int
  lines : List α

/-- The lines of a block, and behind them the one that tells the time if it is asked for. -/
def Block.shown {α : Type} (beginning : DataPoint → Int → α) (withCreated : Bool) (b : Block α) : List α :=
  b.lines ++ (if withCreated then (b.began.map (beginning b.point)).toList else [])

/-- The sample that tells when the series of a data point began. -/
def DataPoint.beginning (family : Text) (d : DataPoint) (t : Int) : Sample :=
  { family, suffix := some "_created", labels := d.labels, added := none, value := .time t, timestamp := d.scrape
    exemplar := none }

/-- For each data point the time at which its series began, if it is known; a data point of a summary that shows nothing
else does not tell it either. -/
def Points.began : Points → List (Option Int)
  | counter ps => ps.map CounterPoint.created
  | gauge ps => ps.map fun _ => none
  | unknown ps => ps.map fun _ => none
  | info ps => ps.map fun _ => none
  | stateSet ps => ps.map fun _ => none
  | histogram _ ps => ps.map HistogramPoint.created
  | native _ ps => ps.map NativePoint.created
  | summary ps => ps.map fun p => if p.quantiles = [] ∧ p.count = none ∧ p.sum = none then none else p.created

section Blocks

variable {isGauge : Bool} {family : Text}

theorem createdSamples_true (d : DataPoint) (created : Option Int) :
    createdSamples true family d.labels created d.scrape = (created.map (d.beginning family)).toList := by
  cases created <;> rfl

theorem CounterPoint.samples_true (p : CounterPoint) :
    p.samples true family =
      p.samples false family ++ (p.created.map ((p.dataPoint false).beginning family)).toList := by
  unfold samples
  rw [← createdSamples_true]
  rfl

theorem HistogramPoint.samples_true (p : HistogramPoint) :
    p.samples true isGauge family =
      p.samples false isGauge family ++ (p.created.map ((p.dataPoint false isGauge).beginning family)).toList := by
  unfold samples
  rw [← createdSamples_true, createdSamples_false, List.append_nil, List.append_assoc]
  rfl

theorem SummaryPoint.shownSamples_true (p : SummaryPoint) :
    p.shownSamples true family =
      p.shownSamples false family ++
        ((if p.quantiles = [] ∧ p.count = none ∧ p.sum = none then none else p.created).map
          ((p.dataPoint false).beginning family)).toList := by
  unfold shownSamples
  by_cases h : p.isEmpty = true
  · rw [if_pos h, if_pos h, if_pos (isEmpty_iff.1 h)]
    rfl
  · rw [if_neg h, if_neg h, if_neg (fun hn => h (isEmpty_iff.2 hn)), samples_eq, samples_eq, ← createdSamples_true,
      createdSamples_false, List.append_nil, List.append_assoc]
    rfl

/-- These are the blocks of the data points, one for each in order, whether the times are asked for or not. -/
structure Points.HasBlocks (ps : Points) (family : Text) (bs : List (Block Sample)) : Prop where
  points : ps.dataPoints false family = .ok (bs.map Block.point)
  began : bs.map Block.began = ps.began
  groups : ∀ withCreated, ps.groups withCreated family =
    .ok (bs.map (Block.shown (DataPoint.beginning family) withCreated))
  filled : ∀ b ∈ bs, b.point.IsFilledBy family b.lines

/-- Data points that show one sample more if the times are asked for have blocks. -/
theorem Points.hasBlocks_map {α : Type} {ps : Points} {l : List α} {point : α → DataPoint} {began : α → Option Int}
    {samples : Bool → α → List Sample} (hpoints : ps.dataPoints false family = .ok (l.map point))
    (hbegan : l.map began = ps.began)
    (hgroups : ∀ withCreated, ps.groups withCreated family = .ok (l.map (samples withCreated)))
    (hsamples : ∀ p, samples true p = samples false p ++ ((began p).map ((point p).beginning family)).toList)
    (hfill : ∀ p, (point p).IsFilledBy family (samples false p)) :
    ps.HasBlocks family (l.map fun p => ⟨point p, began p, samples false p⟩) where
  points := by
    rw [hpoints, List.map_map]
    rfl
  began := by
    rw [← hbegan, List.map_map]
    rfl
  groups := by
    intro withCreated
    rw [hgroups, List.map_map]
    refine congrArg Except.ok (List.map_congr_left fun p _ => ?_)
    cases withCreated with
    | true => exact hsamples p
    | false => exact (List.append_nil _).symm
  filled := by
    intro b hb
    obtain ⟨p, -, rfl⟩ := List.mem_map.1 hb
    exact hfill p

/-- What is not asked for adds nothing. -/
theorem samples_eq_append_none {d : DataPoint} (g : List Sample) :
    g = g ++ ((none : Option Int).map (d.beginning family)).toList := (List.append_nil g).symm

theorem NativePoint.created_of_mapM {ps : List NativePoint} {qs : List HistogramPoint} (h : ps.mapM toClassic = .ok qs) :
    qs.map HistogramPoint.created = ps.map created := by
  refine map_eq_map_of_mapM (fun p q hq => ?_) h
  obtain ⟨bs, -, hcarried⟩ := toClassic_eq_ok hq
  rw [hcarried]

/-- **Whether the times are asked for or not, the data points have the same blocks**, and these differ in their last sample
alone. -/
theorem Points.exists_blocks {ps : Points} {withCreated : Bool} {gs : List (List Sample)}
    (h : ps.groups withCreated family = .ok gs) : ∃ bs, ps.HasBlocks family bs := by
  cases ps with
  | counter ps => exact ⟨_, hasBlocks_map rfl rfl (fun _ => rfl) CounterPoint.samples_true fun p => p.samples_fill⟩
  | gauge ps =>
    exact ⟨_, hasBlocks_map rfl rfl (fun _ => rfl) (fun _ => samples_eq_append_none _) fun p => p.samples_fill⟩
  | unknown ps =>
    exact ⟨_, hasBlocks_map rfl rfl (fun _ => rfl) (fun _ => samples_eq_append_none _) fun p => p.samples_fill⟩
  | info ps =>
    exact ⟨_, hasBlocks_map rfl rfl (fun _ => rfl) (fun _ => samples_eq_append_none _) fun p => p.samples_fill⟩
  | stateSet ps =>
    exact ⟨_, hasBlocks_map rfl rfl (fun _ => rfl) (fun _ => samples_eq_append_none _) fun p => p.samples_fill⟩
  | histogram g ps =>
    exact ⟨_, hasBlocks_map rfl rfl (fun _ => rfl) HistogramPoint.samples_true fun p => p.samples_fill⟩
  | native g ps =>
    obtain ⟨qs, hqs, -⟩ := map_eq_ok_iff.1 h
    have hgroups : ∀ withCreated, (Points.native g ps).groups withCreated family =
        .ok (qs.map (·.samples withCreated g family)) := fun withCreated => map_eq_ok_iff.2 ⟨qs, hqs, rfl⟩
    exact ⟨_, hasBlocks_map (NativePoint.dataPoints_of_mapM hqs) (NativePoint.created_of_mapM hqs) hgroups
      HistogramPoint.samples_true fun q => q.samples_fill⟩
  | summary ps =>
    exact ⟨_, hasBlocks_map rfl rfl (fun _ => rfl) SummaryPoint.shownSamples_true fun p => p.shownSamples_fill⟩

end Blocks
end Exposition
