import Exposition.Histogram.Native
/-!
# Families — metrics of one name and their records

A family has a name, perhaps a help text and a unit, and data points of one kind.  Its records are its
metadata and then the samples of its points in order.  Times at which a series began are written only
if they are asked for.
-/
namespace Exposition

structure Metadata where
  name : Text
  help : Option Text
  unit : Option Text
  deriving DecidableEq, Repr

structure CounterPoint where
  value : Number
  labels : Labels
  exemplar : Option Exemplar
  created : Option Int
  scrape : Option Int
  deriving DecidableEq, Repr

structure GaugePoint where
  value : Number
  labels : Labels
  exemplar : Option Exemplar
  scrape : Option Int
  deriving DecidableEq, Repr

structure InfoPoint where
  labels : Labels
  scrape : Option Int
  deriving DecidableEq, Repr

structure State where
  name : Text
  active : Bool
  deriving DecidableEq, Repr

structure StateSetPoint where
  states : List State
  labels : Labels
  scrape : Option Int
  deriving DecidableEq, Repr

structure Quantile where
  quantile : Number
  value : Number
  deriving DecidableEq, Repr

structure SummaryPoint where
  quantiles : List Quantile
  labels : Labels
  count : Option Int
  sum : Option Number
  exemplars : Exemplars
  created : Option Int
  scrape : Option Int
  deriving DecidableEq, Repr

/-- The data points of a family; those of a histogram may measure something that goes down as well. -/
inductive Points
  | counter (points : List CounterPoint)
  | gauge (points : List GaugePoint)
  | unknown (points : List GaugePoint)
  | info (points : List InfoPoint)
  | stateSet (points : List StateSetPoint)
  | histogram (isGauge : Bool) (points : List HistogramPoint)
  | native (isGauge : Bool) (points : List NativePoint)
  | summary (points : List SummaryPoint)
  deriving DecidableEq

namespace Points

def size : Points → Nat
  | counter ps => ps.length
  | gauge ps => ps.length
  | unknown ps => ps.length
  | info ps => ps.length
  | stateSet ps => ps.length
  | histogram _ ps => ps.length
  | native _ ps => ps.length
  | summary ps => ps.length

def histogramType (isGauge : Bool) : MetricType := if isGauge then .gaugeHistogram else .histogram

def type : Points → MetricType
  | counter _ => .counter
  | gauge _ => .gauge
  | unknown _ => .unknown
  | info _ => .info
  | stateSet _ => .stateSet
  | histogram g _ => histogramType g
  | native g _ => histogramType g
  | summary _ => .summary

end Points

structure Family where
  metadata : Metadata
  points : Points
  deriving DecidableEq

/-- The metadata of a family; an empty help text is none, an empty unit is one. -/
def Metadata.records (m : Metadata) (t : MetricType) : List Record :=
  .type m.name t ::
    ((match m.unit with
      | none => []
      | some u => [.unit m.name u]) ++
    (match m.help with
      | none => []
      | some h => if h.isEmpty then [] else [.help m.name h]))

def createdSamples (withCreated : Bool) (family : Text) (ls : Labels) (created scrape : Option Int) :
    List Sample :=
  match withCreated, created with
  | true, some t =>
    [{ family, suffix := some "_created", labels := ls, added := none, value := .time t
       timestamp := scrape, exemplar := none }]
  | _, _ => []

def CounterPoint.samples (withCreated : Bool) (family : Text) (p : CounterPoint) : List Sample :=
  { family, suffix := some "_total", labels := p.labels, added := none
    value := .measurement p.value, timestamp := p.scrape, exemplar := p.exemplar } ::
      createdSamples withCreated family p.labels p.created p.scrape

def GaugePoint.samples (family : Text) (p : GaugePoint) : List Sample :=
  [{ family, suffix := none, labels := p.labels, added := none, value := .measurement p.value
     timestamp := p.scrape, exemplar := p.exemplar }]

def InfoPoint.samples (family : Text) (p : InfoPoint) : List Sample :=
  [{ family, suffix := some "_info", labels := p.labels, added := none, value := .flag true
     timestamp := p.scrape, exemplar := none }]

def StateSetPoint.samples (family : Text) (p : StateSetPoint) : List Sample :=
  p.states.map (fun s =>
    { family, suffix := none, labels := p.labels, added := some (.state family s.name)
      value := .flag s.active, timestamp := p.scrape, exemplar := none })

/-- How exemplars are taken: the one whose turn it is after the one that was taken last, and the one at a
position. -/
structure Taking (m : Type → Type) where
  next : Exemplars → Nat → m (Nat × Option Exemplar)
  placed : Exemplars → Nat → m (Option Exemplar)

/-- The first exemplar follows the last one; where no exemplar stands none is taken. -/
def Taking.plain : Taking Id where
  next es turn :=
    let turn := if es.isEmpty then turn else (turn + 1) % es.length
    (turn, es[turn]?)
  placed es i := es[i]?

/-- The count and the sum of a point, each if it is present.  The count takes the first exemplar; the
sum takes the second one if there is one and the count took the first. -/
def countAndSumSamplesBy {m : Type → Type} [Monad m] (take : Taking m) (family countSuffix sumSuffix : Text)
    (ls : Labels) (count : Option Int) (sum : Option Number) (exemplars : Exemplars) (scrape : Option Int) :
    m (List Sample) := do
  let counted ← match count with
    | none => pure []
    | some n =>
      let e ← take.placed exemplars 0
      pure [{ family, suffix := some countSuffix, labels := ls, added := none, value := .count n
              timestamp := scrape, exemplar := e }]
  let summed ← match sum with
    | none => pure []
    | some x =>
      let e ← take.placed exemplars (if count.isSome && 1 < exemplars.length then 1 else 0)
      pure [{ family, suffix := some sumSuffix, labels := ls, added := none, value := .measurement x
              timestamp := scrape, exemplar := e }]
  pure (counted ++ summed)

def countAndSumSamples (family countSuffix sumSuffix : Text) (ls : Labels) (count : Option Int)
    (sum : Option Number) (exemplars : Exemplars) (scrape : Option Int) : List Sample :=
  countAndSumSamplesBy .plain family countSuffix sumSuffix ls count sum exemplars scrape

theorem countAndSumSamples_eq (family countSuffix sumSuffix : Text) (ls : Labels) (count : Option Int)
    (sum : Option Number) (exemplars : Exemplars) (scrape : Option Int) :
    countAndSumSamples family countSuffix sumSuffix ls count sum exemplars scrape =
      (match count with
        | none => []
        | some n =>
          [{ family, suffix := some countSuffix, labels := ls, added := none, value := .count n
             timestamp := scrape, exemplar := exemplars.head? }]) ++
      (match sum with
        | none => []
        | some x =>
          [{ family, suffix := some sumSuffix, labels := ls, added := none, value := .measurement x
             timestamp := scrape
             exemplar := if count.isSome && 1 < exemplars.length then exemplars[1]? else exemplars.head? }]) := by
  have hplaced : ∀ b : Bool, exemplars[if b then 1 else 0]? = if b then exemplars[1]? else exemplars.head? := by
    intro b
    cases b with
    | true => rfl
    | false => exact List.head?_eq_getElem?.symm
  rw [← hplaced, List.head?_eq_getElem?]
  cases count <;> cases sum <;> rfl

def histogramSuffixes (isGauge : Bool) : Text × Text :=
  if isGauge then ("_gcount", "_gsum") else ("_count", "_sum")

/-- Count and sum of a histogram come as a pair, and never carry exemplars. -/
def HistogramPoint.samples (withCreated isGauge : Bool) (family : Text) (p : HistogramPoint) :
    List Sample :=
  p.bucketSamples family 0 (.float (.infinite true)) p.buckets ++
    ((if p.count.isSome && p.sum.isSome then
        countAndSumSamples family (histogramSuffixes isGauge).1 (histogramSuffixes isGauge).2 p.labels
          p.count p.sum [] p.scrape
      else []) ++
      createdSamples withCreated family p.labels p.created p.scrape)

namespace SummaryPoint

def isEmpty (p : SummaryPoint) : Bool := p.quantiles.isEmpty && p.count.isNone && p.sum.isNone

/-- The lines of quantiles.  `turn` is the position of the exemplar that was taken last; each line takes
the next one. -/
def quantileSamplesBy {m : Type → Type} [Monad m] (take : Taking m) (family : Text) (p : SummaryPoint) (turn : Nat) :
    List Quantile → m (List Sample)
  | [] => pure []
  | q :: qs => do
    let (turn, e) ← take.next p.exemplars turn
    let rest ← quantileSamplesBy take family p turn qs
    pure ({ family, suffix := none, labels := p.labels, added := some (.quantile q.quantile)
            value := .measurement q.value, timestamp := p.scrape, exemplar := e } :: rest)

/-- The quantiles begin with the third exemplar. -/
def samplesBy {m : Type → Type} [Monad m] (take : Taking m) (withCreated : Bool) (family : Text) (p : SummaryPoint) :
    m (List Sample) := do
  let quantiles ← p.quantileSamplesBy take family 1 p.quantiles
  let countAndSum ←
    countAndSumSamplesBy take family "_count" "_sum" p.labels p.count p.sum p.exemplars p.scrape
  pure (quantiles ++ (countAndSum ++ createdSamples withCreated family p.labels p.created p.scrape))

def quantileSamples (family : Text) (p : SummaryPoint) (turn : Nat) (qs : List Quantile) : List Sample :=
  p.quantileSamplesBy .plain family turn qs

theorem quantileSamples_cons (family : Text) (p : SummaryPoint) (turn : Nat) (q : Quantile) (qs : List Quantile) :
    p.quantileSamples family turn (q :: qs) =
      let turn := if p.exemplars.isEmpty then turn else (turn + 1) % p.exemplars.length
      { family, suffix := none, labels := p.labels, added := some (.quantile q.quantile)
        value := .measurement q.value, timestamp := p.scrape, exemplar := p.exemplars[turn]? } ::
          p.quantileSamples family turn qs :=
  rfl

def samples (withCreated : Bool) (family : Text) (p : SummaryPoint) : List Sample :=
  p.samplesBy .plain withCreated family

theorem samples_eq (withCreated : Bool) (family : Text) (p : SummaryPoint) :
    p.samples withCreated family = p.quantileSamples family 1 p.quantiles ++
      (countAndSumSamples family "_count" "_sum" p.labels p.count p.sum p.exemplars p.scrape ++
        createdSamples withCreated family p.labels p.created p.scrape) :=
  rfl

end SummaryPoint

namespace Family

def type (f : Family) : MetricType := f.points.type

def block (f : Family) (samples : List Sample) : List Record :=
  f.metadata.records f.type ++ samples.map .sample

def histogramBlock (f : Family) (withCreated isGauge : Bool) (ps : List HistogramPoint) :
    List Record :=
  f.block (ps.flatMap (·.samples withCreated isGauge f.metadata.name))

/-- The records of a family.  A native histogram is converted as a whole before its first record, and a
summary without anything to show has no records. -/
def records (withCreated : Bool) (f : Family) : Except Fault (List Record) :=
  let name := f.metadata.name
  match f.points with
  | .counter ps => .ok (f.block (ps.flatMap (·.samples withCreated name)))
  | .gauge ps => .ok (f.block (ps.flatMap (·.samples name)))
  | .unknown ps => .ok (f.block (ps.flatMap (·.samples name)))
  | .info ps => .ok (f.block (ps.flatMap (·.samples name)))
  | .stateSet ps => .ok (f.block (ps.flatMap (·.samples name)))
  | .histogram isGauge ps => .ok (f.histogramBlock withCreated isGauge ps)
  | .native isGauge ps =>
    (ps.mapM NativePoint.toClassic).map (f.histogramBlock withCreated isGauge)
  | .summary ps =>
    let shown := ps.filter (fun p => !p.isEmpty)
    .ok (if shown.isEmpty then [] else f.block (shown.flatMap (·.samples withCreated name)))

def toClassic (f : Family) : Except Fault Family :=
  match f.points with
  | .native isGauge ps =>
    (ps.mapM NativePoint.toClassic).map (fun qs => { f with points := .histogram isGauge qs })
  | _ => .ok f

def emission (withCreated : Bool) (f : Family) : Emission :=
  match f.records withCreated with
  | .ok rs => .concat (rs.map Record.emission)
  | .error e => .ofFault e

end Family
end Exposition
