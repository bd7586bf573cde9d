import Exposition.Proofs.Document.Composition
import Exposition.Proofs.Document.Framing
import Exposition.Proofs.Family.Series
/-!
# Blocks — the lines of one family

The lines of a snapshot with something to show are a block: one line of its type, one of its unit if it has one, one of
its help if that is not empty, and then samples, those of one data point after those of another (`encode_block`).  A data
point has one sample for each series that it has to show, in order and no other, so no sample is lost, comes twice or
stands at another point.
-/
namespace Exposition

open List (Forall₂)

/-! ## Plain samples -/

/-- The label that a series adds, or none. -/
def Series.label : Series → Except Fault Labels
  | ⟨_, none⟩ => .ok []
  | ⟨_, some a⟩ => a.toLabel.map ([·])

/-- A line of this series at a data point: its name is that of the family with the suffix of the series, its labels are
those of the point with the label that the series adds behind them, and its time is that of the point. -/
structure PlainSample.Shows (family : Text) (d : DataPoint) (r : Series) (x : PlainSample) : Prop where
  series : x.series = family ++ r.suffix.getD []
  labels : ∃ added, r.label = .ok added ∧ x.labels = d.labels ++ added
  timestamp : x.timestamp = d.scrape.map Text.ofMilliseconds

theorem timestamp_of_optionally {t : Option Int} {u : Option Text} (h : optionally timeText t = .ok u) :
    u = t.map Text.ofMilliseconds := by
  cases t with
  | none =>
    cases h
    rfl
  | some t =>
    obtain ⟨v, hv, rfl⟩ := map_eq_ok_iff.1 h
    obtain ⟨-, rfl⟩ := Text.ofMilliseconds?_eq_some_iff.1 (orFault_eq_ok_iff.1 hv)
    rfl

theorem Sample.plain_eq_ok {s : Sample} {x : PlainSample} (h : s.plain = .ok x) :
    x.series = s.family ++ s.suffix.getD [] ∧ x.timestamp = s.timestamp.map Text.ofMilliseconds ∧
      ∃ added, s.additional = .ok added ∧ x.labels = s.labels ++ added.toList := by
  obtain ⟨added, hadded, h⟩ := bind_eq_ok_iff.1 h
  obtain ⟨v, -, h⟩ := bind_eq_ok_iff.1 h
  obtain ⟨u, hu, h⟩ := bind_eq_ok_iff.1 h
  obtain ⟨e, -, h⟩ := bind_eq_ok_iff.1 h
  cases h
  exact ⟨rfl, timestamp_of_optionally hu, added, hadded, rfl⟩

theorem Sample.Fills.shows {family : Text} {d : DataPoint} {r : Series} {s : Sample}
    (hs : s.Fills family d.labels d.scrape r) {x : PlainSample} (h : s.plain = .ok x) : x.Shows family d r := by
  obtain ⟨hseries, htime, added, hadded, hlabels⟩ := plain_eq_ok h
  refine ⟨by rw [hseries, hs.family, hs.suffix], ⟨added.toList, ?_, by rw [hlabels, hs.labels]⟩,
    by rw [htime, hs.timestamp]⟩
  obtain ⟨suffix, label⟩ := r
  unfold additional at hadded
  rw [hs.added] at hadded
  cases label with
  | none =>
    cases hadded
    rfl
  | some a =>
    obtain ⟨l, hl, rfl⟩ := map_eq_ok_iff.1 hadded
    exact map_eq_ok_iff.2 ⟨l, hl, rfl⟩

/-- The lines of a data point are one for each of its series. -/
def DataPoint.IsShownBy (family : Text) (d : DataPoint) (xs : List PlainSample) : Prop :=
  Forall₂ (PlainSample.Shows family d) d.series xs

theorem shows_of_fill {family : Text} {d : DataPoint} : ∀ {rs : List Series} {g : List Sample} {ps : List PlainRecord},
    Forall₂ (Sample.Fills family d.labels d.scrape) rs g → (g.map Record.sample).mapM Record.plain = .ok ps →
      ∃ xs, ps = xs.map .sample ∧ Forall₂ (PlainSample.Shows family d) rs xs
  | [], _, _, .nil, h => by
    cases h
    exact ⟨[], rfl, .nil⟩
  | r :: rs, s :: g, ps, .cons hs hg, h => by
    obtain ⟨p, ps', hp, hps, rfl⟩ := List.forall₂_cons_left_iff.1 (mapM_eq_ok_iff.1 h)
    obtain ⟨x, hx, rfl⟩ := map_eq_ok_iff.1 hp
    obtain ⟨xs, rfl, hxs⟩ := shows_of_fill hg (mapM_eq_ok_iff.2 hps)
    exact ⟨x :: xs, rfl, .cons (hs.shows hx) hxs⟩

theorem groups_shown {family : Text} : ∀ {ds : List DataPoint} {gs : List (List Sample)} {ps : List PlainRecord},
    Forall₂ (DataPoint.IsFilledBy family) ds gs → (gs.flatten.map Record.sample).mapM Record.plain = .ok ps →
      ∃ xss : List (List PlainSample), ps = xss.flatten.map .sample ∧ Forall₂ (DataPoint.IsShownBy family) ds xss
  | [], _, _, .nil, h => by
    cases h
    exact ⟨[], rfl, .nil⟩
  | d :: ds, g :: gs, ps, .cons hd hds, h => by
    rw [List.flatten_cons, List.map_append] at h
    obtain ⟨ps₁, ps₂, h₁, h₂, rfl⟩ := mapM_append_eq_ok_iff.1 h
    obtain ⟨xs, rfl, hxs⟩ := shows_of_fill hd h₁
    obtain ⟨xss, rfl, hxss⟩ := groups_shown hds h₂
    exact ⟨xs :: xss, by rw [List.flatten_cons, List.map_append], .cons hxs hxss⟩

/-! ## Headers -/

/-- The lines above the samples of a family: its type, its unit if it has one, and its help if that is not empty. -/
def Metadata.plain (m : Metadata) (word : Text) : List PlainRecord :=
  .type m.name word :: (m.unit.toList.map (.unit m.name) ++ (m.help.toList.filter (· ≠ [])).map (.help m.name))

theorem Metadata.plain_records (m : Metadata) (t : MetricType) :
    (m.records t).mapM Record.plain = .ok (m.plain t.word) := by
  obtain ⟨name, help, unit⟩ := m
  cases unit with
  | none =>
    cases help with
    | none => rfl
    | some h =>
      cases h with
      | nil => rfl
      | cons c h => rfl
  | some u =>
    cases help with
    | none => rfl
    | some h =>
      cases h with
      | nil => rfl
      | cons c h => rfl

/-! ## Documents of one snapshot -/

namespace Document

variable {withCreated : Bool} {s : Snapshot} {f : Family}

theorem records_of_blank (hf : s.family? = some f) (hb : f.points.Blank) : records withCreated [s] = .ok [] := by
  unfold records
  rw [Snapshot.isEmpty_of_family? hf]
  split
  · rfl
  · rename_i hsize
    rw [hf]
    simp only
    rw [Family.records_of_blank withCreated hb (fun h => hsize (beq_iff_eq.2 h))]
    rfl

theorem records_of_not_blank (hf : s.family? = some f) (hb : ¬f.points.Blank) :
    records withCreated [s] =
      (f.points.groups withCreated f.metadata.name).map (fun gs => f.block gs.flatten) := by
  unfold records
  rw [Snapshot.isEmpty_eq_false hf hb, if_neg (by decide), hf]
  simp only
  rw [f.records_eq_groups withCreated hb]
  cases f.points.groups withCreated f.metadata.name with
  | error e => rfl
  | ok gs => simp [Except.map, records]

/-- **A family is written as a block.**  The lines of a snapshot that has a document are none if it shows nothing.
Otherwise they are those of its header, and then those of its data points, one data point after the other.  Each data
point has one line for each of the series that it has to show, in order; the line has the suffix of the series, the
labels of the point with the one that the series adds behind them, and the time of the point; and each series is one that
the type of the family admits. -/
theorem encode_block (withCreated : Bool) (s : Snapshot) (f : Family) (hf : s.family? = some f) (bytes : Bytes)
    (h : encode withCreated [s] = .ok bytes) :
    ∃ rs ps, records withCreated [s] = .ok rs ∧ rs.mapM Record.plain = .ok ps ∧
      bytes = Utf8.encode (ps.flatMap PlainRecord.line ++ endLine) ∧
      (f.points.Blank → ps = []) ∧
      (¬f.points.Blank → ∃ (ds : List DataPoint) (xss : List (List PlainSample)),
        f.points.dataPoints withCreated f.metadata.name = .ok ds ∧ ds.length = f.points.size ∧
        ps = f.metadata.plain f.type.word ++ xss.flatten.map .sample ∧
        Forall₂ (DataPoint.IsShownBy f.metadata.name) ds xss ∧
        ∀ d ∈ ds, ∀ r ∈ d.series, f.type.Admits f.metadata.name r) := by
  rw [encode_singleton] at h
  cases hfault : (s.emission withCreated).fault with
  | some e => rw [hfault] at h; cases h
  | none =>
    rw [hfault] at h
    cases h
    have hsingle : Emission.concat ([s].map (·.emission withCreated)) = s.emission withCreated :=
      Emission.append_empty _
    obtain ⟨rs, ps, hrs, hps, htext, -⟩ := emission_eq_lines withCreated [s] (by rw [hsingle]; exact hfault)
    rw [hsingle] at htext
    refine ⟨rs, ps, hrs, hps, by rw [htext], fun hb => ?_, fun hb => ?_⟩
    · rw [records_of_blank hf hb] at hrs
      cases hrs
      cases hps
      rfl
    · rw [records_of_not_blank hf hb] at hrs
      obtain ⟨gs, hgs, rfl⟩ := map_eq_ok_iff.1 hrs
      obtain ⟨ps₁, ps₂, hps₁, hps₂, rfl⟩ := mapM_append_eq_ok_iff.1 hps
      rw [f.metadata.plain_records] at hps₁
      cases hps₁
      obtain ⟨ds, hds, hfill⟩ := Points.groups_fill hgs
      obtain ⟨xss, rfl, hshown⟩ := groups_shown hfill hps₂
      exact ⟨ds, xss, hds, Points.length_dataPoints hds, rfl, hshown, fun d hd r hr => Points.admits hds hd hr⟩

/-- A gauge histogram of two points, the second of which has a count without a sum. -/
def queueFamily : Family where
  metadata := { name := "queue", help := some "", unit := some "" }
  points := .histogram true
    [{ buckets := [⟨.float (.finite false ⟨0x3FF0000000000000, by decide⟩), 2⟩, ⟨.float (.infinite false), 1⟩], labels := [⟨"le", "x"⟩]
       count := some 3, sum := some (.int 7), exemplars := [], created := some 5000, scrape := some 7000 },
      { buckets := [], labels := [], count := some 3, sum := none, exemplars := [], created := none, scrape := none }]

theorem encode_block_queueFamily :
    ∃ bytes, encode true [.extended "Queue" (.family queueFamily)] = .ok bytes ∧ ¬queueFamily.points.Blank ∧
      ∃ rs ps, records true [.extended "Queue" (.family queueFamily)] = .ok rs ∧ rs.mapM Record.plain = .ok ps ∧
        bytes = Utf8.encode (ps.flatMap PlainRecord.line ++ endLine) ∧
        ∃ (ds : List DataPoint) (xss : List (List PlainSample)),
          queueFamily.points.dataPoints true "queue" = .ok ds ∧
          ps = [.type "queue" "gaugehistogram", .unit "queue" []] ++ xss.flatten.map .sample ∧
          Forall₂ (DataPoint.IsShownBy "queue") ds xss := by
  have hfault : (Snapshot.emission true (.extended "Queue" (.family queueFamily))).fault = none := by decide +kernel
  have hok : ∃ bytes, encode true [.extended "Queue" (.family queueFamily)] = .ok bytes := by
    rw [encode_singleton, hfault]
    exact ⟨_, rfl⟩
  obtain ⟨bytes, hbytes⟩ := hok
  have hb : ¬queueFamily.points.Blank := by
    intro h
    cases h
  obtain ⟨rs, ps, hrs, hps, htext, -, hshown⟩ :=
    encode_block true (.extended "Queue" (.family queueFamily)) queueFamily rfl bytes hbytes
  obtain ⟨ds, xss, hds, -, hblock, hfill, -⟩ := hshown hb
  exact ⟨bytes, hbytes, hb, rs, ps, hrs, hps, htext, ds, xss, hds, hblock, hfill⟩

end Document
end Exposition
