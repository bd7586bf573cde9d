import Exposition.Proofs.Family.Groups
import Exposition.Proofs.Histogram.Bounds
/-!
# Series — what a data point has to show

The samples of a data point are told apart by their suffix and by the label that they add to those of the point; the two
together are a *series*.  Which series a data point has to show, and in which order, follows from what it holds and from
the type of its family (`Points.dataPoints`).  The group of a data point has one sample for each of these, with the
point's labels and time (`Points.groups_fill`), and each of them is one that the type admits (`Points.admits`).
-/
namespace Exposition

structure Series where
  suffix : Option Text
  added : Option AddedLabel
  deriving DecidableEq, Repr

/-- What the samples of a data point share, and the series that it has to show. -/
structure DataPoint where
  labels : Labels
  scrape : Option Int
  series : List Series
  deriving DecidableEq, Repr

/-! ## Data points -/

/-- The beginning of a series is shown if it is known and asked for. -/
def createdSeries (withCreated : Bool) (created : Option Int) : List Series :=
  if withCreated = true ∧ created ≠ none then [⟨some "_created", none⟩] else []

def CounterPoint.dataPoint (withCreated : Bool) (p : CounterPoint) : DataPoint :=
  ⟨p.labels, p.scrape, ⟨some "_total", none⟩ :: createdSeries withCreated p.created⟩

def GaugePoint.dataPoint (p : GaugePoint) : DataPoint := ⟨p.labels, p.scrape, [⟨none, none⟩]⟩

def InfoPoint.dataPoint (p : InfoPoint) : DataPoint := ⟨p.labels, p.scrape, [⟨some "_info", none⟩]⟩

def StateSetPoint.dataPoint (family : Text) (p : StateSetPoint) : DataPoint :=
  ⟨p.labels, p.scrape, p.states.map (fun s => ⟨none, some (.state family s.name)⟩)⟩

/-- A histogram shows its buckets, its count and its sum if it has both, and its beginning. -/
def histogramSeries (withCreated isGauge : Bool) (buckets : List Bucket) (count : Option Int) (sum : Option Number)
    (created : Option Int) : List Series :=
  buckets.map (fun b => ⟨some "_bucket", some (.bound b.upperBound)⟩) ++
    ((if count ≠ none ∧ sum ≠ none then
        if isGauge then [⟨some "_gcount", none⟩, ⟨some "_gsum", none⟩] else [⟨some "_count", none⟩, ⟨some "_sum", none⟩]
      else []) ++
      createdSeries withCreated created)

def HistogramPoint.dataPoint (withCreated isGauge : Bool) (p : HistogramPoint) : DataPoint :=
  ⟨p.labels, p.scrape, histogramSeries withCreated isGauge p.buckets p.count p.sum p.created⟩

/-- A native point shows its classic buckets, and all else as it holds it. -/
def NativePoint.dataPoint (withCreated isGauge : Bool) (p : NativePoint) : Except Fault DataPoint :=
  p.toClassic.map (fun q =>
    ⟨p.labels, p.scrape, histogramSeries withCreated isGauge q.buckets p.count p.sum p.created⟩)

/-- A summary shows its quantiles, its count and its sum, each if it has it, and then its beginning; without any of the
three it shows nothing. -/
def SummaryPoint.dataPoint (withCreated : Bool) (p : SummaryPoint) : DataPoint :=
  ⟨p.labels, p.scrape,
    if p.quantiles = [] ∧ p.count = none ∧ p.sum = none then []
    else
      p.quantiles.map (fun q => ⟨none, some (.quantile q.quantile)⟩) ++
        ((if p.count = none then [] else [⟨some "_count", none⟩]) ++
          ((if p.sum = none then [] else [⟨some "_sum", none⟩]) ++ createdSeries withCreated p.created))⟩

/-- The data points of a family of this name, in order. -/
def Points.dataPoints (withCreated : Bool) (family : Text) : Points → Except Fault (List DataPoint)
  | counter ps => .ok (ps.map (·.dataPoint withCreated))
  | gauge ps => .ok (ps.map (·.dataPoint))
  | unknown ps => .ok (ps.map (·.dataPoint))
  | info ps => .ok (ps.map (·.dataPoint))
  | stateSet ps => .ok (ps.map (·.dataPoint family))
  | histogram isGauge ps => .ok (ps.map (·.dataPoint withCreated isGauge))
  | native isGauge ps => ps.mapM (·.dataPoint withCreated isGauge)
  | summary ps => .ok (ps.map (·.dataPoint withCreated))

/-! ## Samples -/

/-- A sample of a series, at a point with these labels and this time. -/
structure Sample.Fills (family : Text) (ls : Labels) (scrape : Option Int) (r : Series) (s : Sample) : Prop where
  family : s.family = family
  labels : s.labels = ls
  timestamp : s.timestamp = scrape
  suffix : s.suffix = r.suffix
  added : s.added = r.added

section Fills

open List (Forall₂)

variable {withCreated isGauge : Bool} {family : Text}

theorem createdSamples_fill (withCreated : Bool) (family : Text) (ls : Labels) (created scrape : Option Int) :
    Forall₂ (Sample.Fills family ls scrape) (createdSeries withCreated created)
      (createdSamples withCreated family ls created scrape) := by
  unfold createdSeries createdSamples
  cases withCreated with
  | false => exact .nil
  | true =>
    cases created with
    | none => exact .nil
    | some t => exact .cons ⟨rfl, rfl, rfl, rfl, rfl⟩ .nil

theorem CounterPoint.samples_fill (p : CounterPoint) :
    Forall₂ (Sample.Fills family p.labels p.scrape) (p.dataPoint withCreated).series (p.samples withCreated family) :=
  .cons ⟨rfl, rfl, rfl, rfl, rfl⟩ (createdSamples_fill withCreated family p.labels p.created p.scrape)

theorem GaugePoint.samples_fill (p : GaugePoint) :
    Forall₂ (Sample.Fills family p.labels p.scrape) p.dataPoint.series (p.samples family) :=
  .cons ⟨rfl, rfl, rfl, rfl, rfl⟩ .nil

theorem InfoPoint.samples_fill (p : InfoPoint) :
    Forall₂ (Sample.Fills family p.labels p.scrape) p.dataPoint.series (p.samples family) :=
  .cons ⟨rfl, rfl, rfl, rfl, rfl⟩ .nil

theorem StateSetPoint.samples_fill (p : StateSetPoint) :
    Forall₂ (Sample.Fills family p.labels p.scrape) (p.dataPoint family).series (p.samples family) := by
  unfold dataPoint samples
  rw [List.forall₂_map_left_iff, List.forall₂_map_right_iff, List.forall₂_same]
  exact fun s _ => ⟨rfl, rfl, rfl, rfl, rfl⟩

theorem HistogramPoint.bucketSamples_fill (p : HistogramPoint) : ∀ (bs : List Bucket) (below : Int) (lower : Number),
    Forall₂ (Sample.Fills family p.labels p.scrape) (bs.map (fun b => ⟨some "_bucket", some (.bound b.upperBound)⟩))
      (p.bucketSamples family below lower bs)
  | [], _, _ => .nil
  | b :: bs, below, _ => .cons ⟨rfl, rfl, rfl, rfl, rfl⟩ (bucketSamples_fill p bs (below + b.count) b.upperBound)

theorem HistogramPoint.samples_fill (p : HistogramPoint) :
    Forall₂ (Sample.Fills family p.labels p.scrape) (p.dataPoint withCreated isGauge).series
      (p.samples withCreated isGauge family) := by
  refine List.rel_append (p.bucketSamples_fill p.buckets 0 (.float (.infinite true))) (List.rel_append ?_
    (createdSamples_fill withCreated family p.labels p.created p.scrape))
  cases p.count with
  | none => exact .nil
  | some n =>
    cases p.sum with
    | none => exact .nil
    | some x =>
      cases isGauge with
      | true => exact .cons ⟨rfl, rfl, rfl, rfl, rfl⟩ (.cons ⟨rfl, rfl, rfl, rfl, rfl⟩ .nil)
      | false => exact .cons ⟨rfl, rfl, rfl, rfl, rfl⟩ (.cons ⟨rfl, rfl, rfl, rfl, rfl⟩ .nil)

theorem SummaryPoint.quantileSamples_fill (p : SummaryPoint) : ∀ (qs : List Quantile) (turn : Nat),
    Forall₂ (Sample.Fills family p.labels p.scrape) (qs.map (fun q => ⟨none, some (.quantile q.quantile)⟩))
      (p.quantileSamples family turn qs)
  | [], _ => .nil
  | _ :: qs, _ => .cons ⟨rfl, rfl, rfl, rfl, rfl⟩ (quantileSamples_fill p qs _)

theorem SummaryPoint.shownSamples_fill (p : SummaryPoint) :
    Forall₂ (Sample.Fills family p.labels p.scrape) (p.dataPoint withCreated).series
      (p.shownSamples withCreated family) := by
  unfold dataPoint shownSamples
  simp only
  by_cases h : p.isEmpty = true
  · rw [if_pos h, if_pos (isEmpty_iff.1 h)]
    exact .nil
  rw [if_neg h, if_neg (fun hn => h (isEmpty_iff.2 hn))]
  rw [samples_eq, countAndSumSamples_eq, List.append_assoc]
  refine List.rel_append (p.quantileSamples_fill p.quantiles 1) (List.rel_append ?_ (List.rel_append ?_
    (createdSamples_fill withCreated family p.labels p.created p.scrape)))
  · cases p.count with
    | none => exact .nil
    | some n => exact .cons ⟨rfl, rfl, rfl, rfl, rfl⟩ .nil
  · cases p.sum with
    | none => exact .nil
    | some x => exact .cons ⟨rfl, rfl, rfl, rfl, rfl⟩ .nil

/-- The samples of a data point are one for each of its series. -/
def DataPoint.IsFilledBy (family : Text) (d : DataPoint) (g : List Sample) : Prop :=
  Forall₂ (Sample.Fills family d.labels d.scrape) d.series g

theorem forall₂_map_map {α β γ : Type} {R : β → γ → Prop} {f : α → β} {g : α → γ} (h : ∀ a, R (f a) (g a))
    (l : List α) : Forall₂ R (l.map f) (l.map g) := by
  rw [List.forall₂_map_left_iff, List.forall₂_map_right_iff, List.forall₂_same]
  exact fun a _ => h a

/-- Native points have to show what the classic ones do that they become. -/
theorem NativePoint.dataPoints_of_mapM {ps : List NativePoint} {qs : List HistogramPoint}
    (h : ps.mapM NativePoint.toClassic = .ok qs) :
    ps.mapM (·.dataPoint withCreated isGauge) = .ok (qs.map (·.dataPoint withCreated isGauge)) := by
  rw [mapM_eq_ok_iff, List.forall₂_map_right_iff]
  refine (mapM_eq_ok_iff.1 h).imp fun p q hq => ?_
  obtain ⟨bs, -, hcarried⟩ := toClassic_eq_ok hq
  rw [dataPoint, hq, hcarried]
  rfl

/-- **Each data point has its group, with one sample for each series that it has to show.** -/
theorem Points.groups_fill {ps : Points} {gs : List (List Sample)} (h : ps.groups withCreated family = .ok gs) :
    ∃ ds, ps.dataPoints withCreated family = .ok ds ∧ Forall₂ (DataPoint.IsFilledBy family) ds gs := by
  cases ps with
  | counter ps => cases h; exact ⟨_, rfl, forall₂_map_map (fun p => p.samples_fill) ps⟩
  | gauge ps => cases h; exact ⟨_, rfl, forall₂_map_map (fun p => p.samples_fill) ps⟩
  | unknown ps => cases h; exact ⟨_, rfl, forall₂_map_map (fun p => p.samples_fill) ps⟩
  | info ps => cases h; exact ⟨_, rfl, forall₂_map_map (fun p => p.samples_fill) ps⟩
  | stateSet ps => cases h; exact ⟨_, rfl, forall₂_map_map (fun p => p.samples_fill) ps⟩
  | histogram g ps => cases h; exact ⟨_, rfl, forall₂_map_map (fun p => p.samples_fill) ps⟩
  | native g ps =>
    obtain ⟨qs, hqs, rfl⟩ := map_eq_ok_iff.1 h
    exact ⟨_, NativePoint.dataPoints_of_mapM hqs, forall₂_map_map (fun p => p.samples_fill) qs⟩
  | summary ps => cases h; exact ⟨_, rfl, forall₂_map_map (fun p => p.shownSamples_fill) ps⟩

theorem Points.length_dataPoints {ps : Points} {ds : List DataPoint} (h : ps.dataPoints withCreated family = .ok ds) :
    ds.length = ps.size := by
  cases ps with
  | native g ps => exact (mapM_eq_ok_iff.1 h).length_eq.symm
  | _ => cases h; exact List.length_map _

end Fills

/-! ## Which series a type admits -/

/-- The suffixes of the samples of a type. -/
def MetricType.suffixes : MetricType → List (Option Text)
  | counter => [some "_total", some "_created"]
  | info => [some "_info"]
  | gauge => [none]
  | unknown => [none]
  | stateSet => [none]
  | histogram => [some "_bucket", some "_count", some "_sum", some "_created"]
  | gaugeHistogram => [some "_bucket", some "_gcount", some "_gsum", some "_created"]
  | summary => [none, some "_count", some "_sum", some "_created"]

/-- A series that a family of this type and name may show: a bound is added to buckets and to nothing else, a quantile to
what a summary shows without a suffix, and a state under the family's own name to what a set of states shows. -/
structure MetricType.Admits (t : MetricType) (family : Text) (r : Series) : Prop where
  suffix : r.suffix ∈ t.suffixes
  bound : (∃ x, r.added = some (.bound x)) ↔ r.suffix = some ("_bucket" : Text)
  quantile : (∃ x, r.added = some (.quantile x)) ↔ t = .summary ∧ r.suffix = none
  state : (∃ f name, r.added = some (.state f name)) ↔ t = .stateSet
  family : ∀ f name, r.added = some (.state f name) → f = family

namespace MetricType.Admits

theorem plain {t : MetricType} (family : Text) {x : Option Text} (hx : x ∈ t.suffixes)
    (hb : x ≠ some ("_bucket" : Text)) (hq : ¬(t = .summary ∧ x = none)) (hs : t ≠ .stateSet) :
    t.Admits family ⟨x, none⟩ where
  suffix := hx
  bound := iff_of_false (fun ⟨_, h⟩ => by cases h) hb
  quantile := iff_of_false (fun ⟨_, h⟩ => by cases h) hq
  state := iff_of_false (fun ⟨_, _, h⟩ => by cases h) hs
  family := fun _ _ h => by cases h

theorem ofBound (isGauge : Bool) (family : Text) (x : Number) :
    (Points.histogramType isGauge).Admits family ⟨some "_bucket", some (.bound x)⟩ where
  suffix := by cases isGauge <;> exact List.mem_cons_self
  bound := iff_of_true ⟨x, rfl⟩ rfl
  quantile := iff_of_false (fun ⟨_, h⟩ => by cases h) (fun h => by cases h.2)
  state := iff_of_false (fun ⟨_, _, h⟩ => by cases h) (by cases isGauge <;> decide)
  family := fun _ _ h => by cases h

theorem ofQuantile (family : Text) (x : Number) : summary.Admits family ⟨none, some (.quantile x)⟩ where
  suffix := List.mem_cons_self
  bound := iff_of_false (fun ⟨_, h⟩ => by cases h) (fun h => by cases h)
  quantile := iff_of_true ⟨x, rfl⟩ ⟨rfl, rfl⟩
  state := iff_of_false (fun ⟨_, _, h⟩ => by cases h) (by decide)
  family := fun _ _ h => by cases h

theorem ofState (family name : Text) : stateSet.Admits family ⟨none, some (.state family name)⟩ where
  suffix := List.mem_cons_self
  bound := iff_of_false (fun ⟨_, h⟩ => by cases h) (fun h => by cases h)
  quantile := iff_of_false (fun ⟨_, h⟩ => by cases h) (fun h => by cases h.1)
  state := iff_of_true ⟨family, name, rfl⟩ rfl
  family := fun _ _ h => by cases h; rfl

end MetricType.Admits

section Admits

variable {withCreated isGauge : Bool} {family : Text} {r : Series}

theorem admits_createdSeries {t : MetricType} (ht : some (Text.ofString "_created") ∈ t.suffixes) {created : Option Int}
    (h : r ∈ createdSeries withCreated created) : t.Admits family r := by
  unfold createdSeries at h
  split at h
  · rw [List.mem_singleton] at h
    subst h
    refine .plain family ht (by decide) (fun hq => by cases hq.2) ?_
    rintro rfl
    exact absurd ht (by decide)
  · cases h

theorem admits_histogramSeries {bs : List Bucket} {count : Option Int} {sum : Option Number} {created : Option Int}
    (h : r ∈ histogramSeries withCreated isGauge bs count sum created) :
    (Points.histogramType isGauge).Admits family r := by
  unfold histogramSeries at h
  rcases List.mem_append.1 h with h | h
  · obtain ⟨b, -, rfl⟩ := List.mem_map.1 h
    exact .ofBound isGauge family b.upperBound
  rcases List.mem_append.1 h with h | h
  · split at h
    · cases isGauge with
      | true =>
        rcases List.mem_pair.1 h with rfl | rfl
        · exact .plain family (by decide) (by decide) (by decide) (by decide)
        · exact .plain family (by decide) (by decide) (by decide) (by decide)
      | false =>
        rcases List.mem_pair.1 h with rfl | rfl
        · exact .plain family (by decide) (by decide) (by decide) (by decide)
        · exact .plain family (by decide) (by decide) (by decide) (by decide)
    · cases h
  · refine admits_createdSeries ?_ h
    cases isGauge <;> decide

theorem admits_summarySeries {p : SummaryPoint} (h : r ∈ (p.dataPoint withCreated).series) :
    MetricType.summary.Admits family r := by
  unfold SummaryPoint.dataPoint at h
  simp only at h
  split at h
  · cases h
  rcases List.mem_append.1 h with h | h
  · obtain ⟨q, -, rfl⟩ := List.mem_map.1 h
    exact .ofQuantile family q.quantile
  rcases List.mem_append.1 h with h | h
  · split at h
    · cases h
    · rw [List.mem_singleton] at h
      subst h
      exact .plain family (by decide) (by decide) (by decide) (by decide)
  rcases List.mem_append.1 h with h | h
  · split at h
    · cases h
    · rw [List.mem_singleton] at h
      subst h
      exact .plain family (by decide) (by decide) (by decide) (by decide)
  · exact admits_createdSeries (by decide) h

/-- **Every series that a data point has to show is one that its type admits.** -/
theorem Points.admits {ps : Points} {ds : List DataPoint} (h : ps.dataPoints withCreated family = .ok ds)
    {d : DataPoint} (hd : d ∈ ds) (hr : r ∈ d.series) : ps.type.Admits family r := by
  cases ps with
  | counter ps =>
    cases h
    obtain ⟨p, -, rfl⟩ := List.mem_map.1 hd
    show MetricType.counter.Admits family r
    rcases List.mem_cons.1 hr with rfl | hr
    · exact .plain family (by decide) (by decide) (by decide) (by decide)
    · exact admits_createdSeries (by decide) hr
  | gauge ps =>
    cases h
    obtain ⟨p, -, rfl⟩ := List.mem_map.1 hd
    cases List.mem_singleton.1 hr
    show MetricType.gauge.Admits family _
    exact .plain family (by decide) (by decide) (by decide) (by decide)
  | unknown ps =>
    cases h
    obtain ⟨p, -, rfl⟩ := List.mem_map.1 hd
    cases List.mem_singleton.1 hr
    show MetricType.unknown.Admits family _
    exact .plain family (by decide) (by decide) (by decide) (by decide)
  | info ps =>
    cases h
    obtain ⟨p, -, rfl⟩ := List.mem_map.1 hd
    cases List.mem_singleton.1 hr
    show MetricType.info.Admits family _
    exact .plain family (by decide) (by decide) (by decide) (by decide)
  | stateSet ps =>
    cases h
    obtain ⟨p, -, rfl⟩ := List.mem_map.1 hd
    obtain ⟨s, -, rfl⟩ := List.mem_map.1 hr
    exact .ofState family s.name
  | histogram g ps =>
    cases h
    obtain ⟨p, -, rfl⟩ := List.mem_map.1 hd
    exact admits_histogramSeries hr
  | native g ps =>
    obtain ⟨p, -, hp⟩ := exists_of_mem_of_mapM h d hd
    obtain ⟨q, -, rfl⟩ := map_eq_ok_iff.1 hp
    exact admits_histogramSeries hr
  | summary ps =>
    cases h
    obtain ⟨p, -, rfl⟩ := List.mem_map.1 hd
    exact admits_summarySeries hr

end Admits
end Exposition
