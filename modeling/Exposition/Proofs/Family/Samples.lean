import Exposition.Document.Reader
import Exposition.Proofs.Faults
import Exposition.Proofs.Text.Words
/-!
# Samples — what each of them takes from its point

Whatever kind a family has, each of its samples carries the family's name with a suffix of the format, the labels of one
point, and one of that point's exemplars if any (`Sample.OfPoint`).  So the names that occur in a document are those of
its families and of the label sets of their points and exemplars (`Family.names`), and those that the format adds.
-/
namespace Exposition

def labelSetsOf (ls : Labels) (es : Exemplars) : List Labels := ls :: es.map Exemplar.labels

def Points.labelSets : Points → List Labels
  | counter ps => ps.flatMap (fun p => labelSetsOf p.labels p.exemplar.toList)
  | gauge ps => ps.flatMap (fun p => labelSetsOf p.labels p.exemplar.toList)
  | unknown ps => ps.flatMap (fun p => labelSetsOf p.labels p.exemplar.toList)
  | info ps => ps.flatMap (fun p => labelSetsOf p.labels [])
  | stateSet ps => ps.flatMap (fun p => labelSetsOf p.labels [])
  | histogram _ ps => ps.flatMap (fun p => labelSetsOf p.labels p.exemplars)
  | native _ ps => ps.flatMap (fun p => labelSetsOf p.labels p.exemplars)
  | summary ps => ps.flatMap (fun p => labelSetsOf p.labels p.exemplars)

/-- The name of a family and all names of labels in it. -/
def Family.names (f : Family) : List Text := f.metadata.name :: f.points.labelSets.flatMap Labels.names

def suffixes : List Text :=
  ["_total", "_info", "_bucket", "_count", "_sum", "_gcount", "_gsum", "_created"]

/-- A sample of a point with these labels and exemplars, in a family of this name. -/
structure Sample.OfPoint (name : Text) (ls : Labels) (es : Exemplars) (s : Sample) : Prop where
  family : s.family = name
  suffix : ∀ x ∈ s.suffix, x ∈ suffixes
  labels : s.labels = ls
  added : ∀ f n, s.added = some (.state f n) → f = name
  exemplar : ∀ e ∈ s.exemplar, e ∈ es

section Points

variable {withCreated isGauge : Bool} {family : Text}

theorem Sample.OfPoint.plain {s : Sample} {ls : Labels} {x : Text} (es : Exemplars) (hf : s.family = family)
    (hs : s.suffix = some x) (hx : x ∈ suffixes) (hl : s.labels = ls) (ha : s.added = none)
    (he : s.exemplar = none) : s.OfPoint family ls es where
  family := hf
  suffix := by
    rw [hs]
    rintro y ⟨⟩
    exact hx
  labels := hl
  added := by rw [ha]; intro f n h; cases h
  exemplar := by rw [he]; intro e h; cases h

theorem mem_createdSamples {ls : Labels} {created scrape : Option Int} {s : Sample}
    (h : s ∈ createdSamples withCreated family ls created scrape) (es : Exemplars) : s.OfPoint family ls es := by
  unfold createdSamples at h
  split at h
  · rw [List.mem_singleton] at h
    subst h
    exact .plain es rfl rfl (by decide) rfl rfl rfl
  · cases h

theorem CounterPoint.mem_samples {p : CounterPoint} {s : Sample} (h : s ∈ p.samples withCreated family) :
    s.OfPoint family p.labels p.exemplar.toList := by
  rcases List.mem_cons.1 h with rfl | h
  · refine ⟨rfl, ?_, rfl, fun f n h => (by cases h), fun e he => Option.mem_toList.2 he⟩
    rintro y ⟨⟩
    decide
  · exact mem_createdSamples h _

theorem GaugePoint.mem_samples {p : GaugePoint} {s : Sample} (h : s ∈ p.samples family) :
    s.OfPoint family p.labels p.exemplar.toList := by
  rw [GaugePoint.samples, List.mem_singleton] at h
  subst h
  exact ⟨rfl, fun x hx => (by cases hx), rfl, fun f n h => (by cases h), fun e he => Option.mem_toList.2 he⟩

theorem InfoPoint.mem_samples {p : InfoPoint} {s : Sample} (h : s ∈ p.samples family) :
    s.OfPoint family p.labels [] := by
  rw [InfoPoint.samples, List.mem_singleton] at h
  subst h
  exact .plain [] rfl rfl (by decide) rfl rfl rfl

theorem StateSetPoint.mem_samples {p : StateSetPoint} {s : Sample} (h : s ∈ p.samples family) :
    s.OfPoint family p.labels [] := by
  obtain ⟨st, -, rfl⟩ := List.mem_map.1 h
  exact ⟨rfl, fun x hx => (by cases hx), rfl, fun f n h => by cases h; rfl, fun e he => by cases he⟩

theorem mem_countAndSumSamples {countSuffix sumSuffix : Text} (hc : countSuffix ∈ suffixes) (hs : sumSuffix ∈ suffixes)
    {ls : Labels} {count : Option Int} {sum : Option Number} {es : Exemplars} {scrape : Option Int} {s : Sample}
    (h : s ∈ countAndSumSamples family countSuffix sumSuffix ls count sum es scrape) : s.OfPoint family ls es := by
  have hhead : ∀ e ∈ es.head?, e ∈ es := fun e he => List.mem_of_mem_head? he
  rw [countAndSumSamples_eq] at h
  rcases List.mem_append.1 h with h | h
  · cases count with
    | none => cases h
    | some n =>
      rw [List.mem_singleton] at h
      subst h
      refine ⟨rfl, ?_, rfl, fun f n h => (by cases h), hhead⟩
      rintro y ⟨⟩
      exact hc
  · cases sum with
    | none => cases h
    | some x =>
      rw [List.mem_singleton] at h
      subst h
      refine ⟨rfl, ?_, rfl, fun f n h => (by cases h), ?_⟩
      · rintro y ⟨⟩
        exact hs
      · intro e he
        simp only at he
        split at he
        · exact List.mem_of_getElem? he
        · exact hhead e he

theorem histogramSuffixes_mem (isGauge : Bool) :
    (histogramSuffixes isGauge).1 ∈ suffixes ∧ (histogramSuffixes isGauge).2 ∈ suffixes := by
  cases isGauge <;> decide

theorem HistogramPoint.mem_bucketSamples {p : HistogramPoint} {s : Sample} :
    ∀ (bs : List Bucket) (below : Int) (lower : Number), s ∈ p.bucketSamples family below lower bs →
      s.OfPoint family p.labels p.exemplars
  | [], _, _, h => by cases h
  | b :: bs, below, lower, h => by
    rcases List.mem_cons.1 h with rfl | h
    · refine ⟨rfl, ?_, rfl, fun f n h => (by cases h), fun e he => List.mem_of_find?_eq_some he⟩
      rintro y ⟨⟩
      decide
    · exact mem_bucketSamples bs _ _ h

theorem HistogramPoint.mem_samples {p : HistogramPoint} {s : Sample} (h : s ∈ p.samples withCreated isGauge family) :
    s.OfPoint family p.labels p.exemplars := by
  unfold samples at h
  rcases List.mem_append.1 h with h | h
  · exact mem_bucketSamples _ _ _ h
  rcases List.mem_append.1 h with h | h
  · split at h
    · obtain ⟨hc, hs⟩ := histogramSuffixes_mem isGauge
      have ho := mem_countAndSumSamples hc hs h
      exact ⟨ho.family, ho.suffix, ho.labels, ho.added, fun e he => by cases ho.exemplar e he⟩
    · cases h
  · exact mem_createdSamples h _

theorem SummaryPoint.mem_quantileSamples {p : SummaryPoint} {s : Sample} :
    ∀ (qs : List Quantile) (turn : Nat), s ∈ p.quantileSamples family turn qs → s.OfPoint family p.labels p.exemplars
  | [], _, h => by cases h
  | q :: qs, turn, h => by
    rcases List.mem_cons.1 h with rfl | h
    · exact ⟨rfl, fun x hx => (by cases hx), rfl, fun f n h => (by cases h), fun e he => List.mem_of_getElem? he⟩
    · exact mem_quantileSamples qs _ h

theorem SummaryPoint.mem_samples {p : SummaryPoint} {s : Sample} (h : s ∈ p.samples withCreated family) :
    s.OfPoint family p.labels p.exemplars := by
  rw [samples_eq] at h
  rcases List.mem_append.1 h with h | h
  · exact mem_quantileSamples _ _ h
  rcases List.mem_append.1 h with h | h
  · exact mem_countAndSumSamples (by decide) (by decide) h
  · exact mem_createdSamples h _

end Points

/-! ## Families -/

def Record.IsMetadataOf (name : Text) : Record → Prop
  | type n _ => n = name
  | unit n _ => n = name
  | help n _ => n = name
  | sample _ => False

namespace Family

theorem isMetadataOf_of_mem {m : Metadata} {t : MetricType} {r : Record} (h : r ∈ m.records t) :
    r.IsMetadataOf m.name := by
  unfold Metadata.records at h
  rcases List.mem_cons.1 h with rfl | h
  · rfl
  rcases List.mem_append.1 h with h | h
  · cases hu : m.unit with
    | none => rw [hu] at h; cases h
    | some u =>
      rw [hu, List.mem_singleton] at h
      subst h
      rfl
  · cases hh : m.help with
    | none => rw [hh] at h; cases h
    | some t =>
      rw [hh] at h
      simp only at h
      split at h
      · cases h
      · rw [List.mem_singleton] at h
        subst h
        rfl

/-- What may be said of a sample of a family: it belongs to a point whose label sets are among those of the family. -/
def HasSample (f : Family) (s : Sample) : Prop :=
  ∃ ls es, (∀ x ∈ labelSetsOf ls es, x ∈ f.points.labelSets) ∧ s.OfPoint f.metadata.name ls es

theorem hasSample_of_mem_flatMap {α : Type} {f : Family} {ps : List α} {samples : α → List Sample} {labels : α → Labels}
    {exemplars : α → Exemplars} (hf : f.points.labelSets = ps.flatMap (fun p => labelSetsOf (labels p) (exemplars p)))
    (hp : ∀ p s, s ∈ samples p → s.OfPoint f.metadata.name (labels p) (exemplars p)) {s : Sample}
    (h : s ∈ ps.flatMap samples) : f.HasSample s := by
  obtain ⟨p, hmem, hs⟩ := List.mem_flatMap.1 h
  refine ⟨labels p, exemplars p, fun x hx => ?_, hp p s hs⟩
  rw [hf]
  exact List.mem_flatMap.2 ⟨p, hmem, hx⟩

theorem labelSets_mapM_toClassic {ps : List NativePoint} {qs : List HistogramPoint}
    (h : ps.mapM NativePoint.toClassic = .ok qs) :
    qs.map (fun p => labelSetsOf p.labels p.exemplars) = ps.map (fun p => labelSetsOf p.labels p.exemplars) := by
  refine map_eq_map_of_mapM (fun p q hq => ?_) h
  obtain ⟨bs, -, hq⟩ := bind_eq_ok_iff.1 hq
  cases hq
  rfl

/-- **The records of a family are none, or its metadata and then samples of its points.** -/
theorem records_cases {withCreated : Bool} {f : Family} {rs : List Record} (hr : f.records withCreated = .ok rs) :
    rs = [] ∨ ∃ samples, rs = f.block samples ∧ ∀ s ∈ samples, f.HasSample s := by
  obtain ⟨m, points⟩ := f
  unfold records at hr
  cases points with
  | counter ps => cases hr; exact .inr ⟨_, rfl, fun s => hasSample_of_mem_flatMap rfl fun p s hs => p.mem_samples hs⟩
  | gauge ps => cases hr; exact .inr ⟨_, rfl, fun s => hasSample_of_mem_flatMap rfl fun p s hs => p.mem_samples hs⟩
  | unknown ps => cases hr; exact .inr ⟨_, rfl, fun s => hasSample_of_mem_flatMap rfl fun p s hs => p.mem_samples hs⟩
  | info ps => cases hr; exact .inr ⟨_, rfl, fun s => hasSample_of_mem_flatMap rfl fun p s hs => p.mem_samples hs⟩
  | stateSet ps => cases hr; exact .inr ⟨_, rfl, fun s => hasSample_of_mem_flatMap rfl fun p s hs => p.mem_samples hs⟩
  | histogram g ps =>
    cases hr; exact .inr ⟨_, rfl, fun s => hasSample_of_mem_flatMap rfl fun p s hs => p.mem_samples hs⟩
  | native g ps =>
    simp only at hr
    cases hq : ps.mapM NativePoint.toClassic with
    | error e => rw [hq] at hr; cases hr
    | ok qs =>
      rw [hq] at hr
      cases hr
      refine .inr ⟨_, rfl, fun s => hasSample_of_mem_flatMap ?_ fun p s hs => HistogramPoint.mem_samples hs⟩
      show ps.flatMap (fun p => labelSetsOf p.labels p.exemplars) = _
      rw [List.flatMap_def, ← labelSets_mapM_toClassic hq, ← List.flatMap_def]
  | summary ps =>
    simp only at hr
    cases hr
    split
    · exact .inl rfl
    · refine .inr ⟨_, rfl, fun s hs => ?_⟩
      obtain ⟨p, hp, hsp⟩ := List.mem_flatMap.1 hs
      refine ⟨p.labels, p.exemplars, fun x hx => ?_, p.mem_samples hsp⟩
      exact List.mem_flatMap.2 ⟨p, (List.mem_filter.1 hp).1, hx⟩

end Family
end Exposition
