import Exposition.Proofs.Document.Blocks
import Exposition.Proofs.Document.Failures
import Exposition.Proofs.Family.Beginnings
/-!
# Created — documents with and without the times at which series began

Whether these times are asked for decides about one line of each data point that knows its own, the last of its block, and
about nothing else (`encode_created`): not about what is shown, not about any other line, and not about the faults unless
such a line itself has too many digits in it.  The blocks are told once for both answers, so the two documents are the same
lines except for these.
-/
namespace Exposition

/-! ## Numbers -/

/-- The numbers of the lines that tell when the series of these points began. -/
def Points.beginnings : Points → List SampleValue
  | counter ps => ps.flatMap (fun p => createdNumbers true p.created p.scrape)
  | histogram _ ps => ps.flatMap (fun p => createdNumbers true p.created p.scrape)
  | native _ ps => ps.flatMap (fun p => createdNumbers true p.created p.scrape)
  | summary ps => (ps.filter (fun p => !p.isEmpty)).flatMap (fun p => createdNumbers true p.created p.scrape)
  | _ => []

/-- The line that tells when a series of the snapshot began has too many digits. -/
def Snapshot.BeginsTooLong (s : Snapshot) : Prop :=
  ∃ f, s.Extends (.family f) ∧ ∃ v ∈ f.points.beginnings, v.TooLong

/-- `rest` is `all` without `extra`: it holds nothing else, and what comes first in it comes first in `all` unless that is
in `extra`. -/
structure LeavesOut (all extra rest : List SampleValue) : Prop where
  mem : ∀ v ∈ rest, v ∈ all
  first : (∀ v ∈ extra, v.fault? = none) → all.findSome? SampleValue.fault? = rest.findSome? SampleValue.fault?

theorem LeavesOut.refl (l : List SampleValue) : LeavesOut l [] l := ⟨fun _ h => h, fun _ => rfl⟩

theorem LeavesOut.flatMap {α : Type} {all extra rest : α → List SampleValue} (h : ∀ a, all a = rest a ++ extra a)
    (l : List α) : LeavesOut (l.flatMap all) (l.flatMap extra) (l.flatMap rest) where
  mem := by
    intro v hv
    obtain ⟨a, ha, hv⟩ := List.mem_flatMap.1 hv
    exact List.mem_flatMap.2 ⟨a, ha, h a ▸ List.mem_append_left _ hv⟩
  first := by
    intro hextra
    rw [findSome?_flatMap, findSome?_flatMap]
    induction l with
    | nil => rfl
    | cons a l ih =>
      have hnone : (extra a).findSome? SampleValue.fault? = none := by
        rw [List.findSome?_eq_none_iff]
        exact fun v hv => hextra v (List.mem_flatMap.2 ⟨a, List.mem_cons_self, hv⟩)
      rw [findSome?_cons_eq_or, findSome?_cons_eq_or, h a, List.findSome?_append, hnone, Option.or_none,
        ih fun v hv => hextra v (List.flatMap_cons ▸ List.mem_append_right _ hv)]

theorem createdNumbers_false (created scrape : Option Int) : createdNumbers false created scrape = [] := rfl

theorem CounterPoint.numbers_true (p : CounterPoint) :
    p.numbers true = p.numbers false ++ createdNumbers true p.created p.scrape := by
  simp [numbers, createdNumbers_false]

theorem HistogramPoint.numbers_true (p : HistogramPoint) :
    p.numbers true = p.numbers false ++ createdNumbers true p.created p.scrape := by
  simp [numbers, createdNumbers_false]

theorem SummaryPoint.numbers_true (p : SummaryPoint) :
    p.numbers true = p.numbers false ++ createdNumbers true p.created p.scrape := by
  simp [numbers, createdNumbers_false]

/-- **Not asking for the times leaves out the numbers of their lines, and no other.** -/
theorem Points.numbers_leaveOut (ps : Points) : LeavesOut (ps.numbers true) ps.beginnings (ps.numbers false) := by
  cases ps with
  | counter ps => exact .flatMap CounterPoint.numbers_true ps
  | histogram g ps => exact .flatMap HistogramPoint.numbers_true ps
  | summary ps => exact .flatMap SummaryPoint.numbers_true _
  | native g ps =>
    simp only [numbers, beginnings]
    cases hqs : ps.mapM NativePoint.toClassic with
    | error e => exact ⟨fun _ h => h, fun _ => rfl⟩
    | ok qs =>
      have hcarried : qs.map (fun q => createdNumbers true q.created q.scrape) =
          ps.map (fun p => createdNumbers true p.created p.scrape) := by
        refine map_eq_map_of_mapM (fun p q hq => ?_) hqs
        obtain ⟨bs, -, rfl⟩ := NativePoint.toClassic_eq_ok hq
        rfl
      rw [List.flatMap_def, ← hcarried, ← List.flatMap_def]
      exact .flatMap HistogramPoint.numbers_true qs
  | gauge ps => exact .refl _
  | unknown ps => exact .refl _
  | info ps => exact .refl _
  | stateSet ps => exact .refl _

theorem time_of_mem_beginnings {ps : Points} {v : SampleValue} (h : v ∈ ps.beginnings) : ∃ t, v = .time t := by
  have hcreated : ∀ {created scrape : Option Int}, v ∈ createdNumbers true created scrape → ∃ t, v = .time t := by
    intro created scrape hv
    cases created with
    | none => cases hv
    | some t =>
      cases scrape with
      | none => exact ⟨t, List.mem_singleton.1 hv⟩
      | some u =>
        rcases List.mem_pair.1 hv with rfl | rfl
        · exact ⟨t, rfl⟩
        · exact ⟨u, rfl⟩
  cases ps with
  | counter ps => obtain ⟨p, -, hv⟩ := List.mem_flatMap.1 h; exact hcreated hv
  | histogram g ps => obtain ⟨p, -, hv⟩ := List.mem_flatMap.1 h; exact hcreated hv
  | native g ps => obtain ⟨p, -, hv⟩ := List.mem_flatMap.1 h; exact hcreated hv
  | summary ps => obtain ⟨p, -, hv⟩ := List.mem_flatMap.1 h; exact hcreated hv
  | _ => cases h

theorem Family.findSome?_steps {f : Family} (withCreated : Bool) :
    (f.steps withCreated).findSome? Step.fault? = (f.points.conversions.findSome? Step.fault?).or
      ((f.points.numbers withCreated).findSome? SampleValue.fault?) := by
  rw [steps, List.findSome?_append, List.findSome?_map]
  rfl

/-- **Asking for the times makes no difference to the faults** unless the line of one has too many digits. -/
theorem Snapshot.findSome?_steps {s : Snapshot} (h : ¬s.BeginsTooLong) :
    (s.steps true).findSome? Step.fault? = (s.steps false).findSome? Step.fault? := by
  unfold steps
  cases s.isEmpty with
  | true => rfl
  | false =>
    rw [if_neg (by decide), if_neg (by decide), List.findSome?_cons, List.findSome?_cons]
    cases hf : s.family? with
    | none => rfl
    | some f =>
      simp only
      rw [f.findSome?_steps, f.findSome?_steps, f.points.numbers_leaveOut.first]
      intro v hv
      obtain ⟨t, rfl⟩ := time_of_mem_beginnings hv
      rw [Option.eq_none_iff_forall_ne_some]
      intro fault hfault
      rcases SampleValue.fault?_eq_some_iff.1 hfault with ⟨⟨x, hx, -⟩, -⟩ | ⟨hlong, -⟩
      · cases hx
      · exact h ⟨f, family?_eq_some_iff.1 hf, _, hv, hlong⟩

theorem Snapshot.findSome?_steps_false {s : Snapshot} (h : (s.steps true).findSome? Step.fault? = none) :
    (s.steps false).findSome? Step.fault? = none := by
  unfold steps at h ⊢
  cases hempty : s.isEmpty with
  | true => rfl
  | false =>
    rw [hempty, if_neg (by decide), findSome?_cons_eq_or, Option.or_eq_none_iff] at h
    rw [if_neg (by decide), findSome?_cons_eq_or, h.1]
    cases hf : s.family? with
    | none => rfl
    | some f =>
      have hrest := h.2
      rw [hf] at hrest
      simp only at hrest ⊢
      rw [f.findSome?_steps, Option.or_eq_none_iff] at hrest
      obtain ⟨hconversions, hnumbers⟩ := hrest
      rw [List.findSome?_eq_none_iff] at hnumbers
      rw [f.findSome?_steps, hconversions, Option.none_or, Option.none_or, List.findSome?_eq_none_iff]
      exact fun v hv => hnumbers v (f.points.numbers_leaveOut.mem v hv)

/-! ## Lines -/

/-- The line that tells when the series of a data point began. -/
def DataPoint.beginningLine (family : Text) (d : DataPoint) (t : Int) : PlainSample where
  series := family ++ "_created"
  labels := d.labels
  value := Text.ofMilliseconds t
  timestamp := d.scrape.map Text.ofMilliseconds
  exemplar := none

/-- A family with the lines above its data points and the blocks of these. -/
structure FamilyBlocks where
  family : Family
  header : List PlainRecord
  blocks : List (Block PlainSample)

/-- The lines of a family, those that tell times being left out if they are not asked for. -/
def FamilyBlocks.lines (withCreated : Bool) (x : FamilyBlocks) : List PlainRecord :=
  x.header ++ (x.blocks.flatMap (Block.shown (DataPoint.beginningLine x.family.metadata.name) withCreated)).map .sample

/-- There is one block for each data point, in order, with all lines that the point has to show and its time if it knows it;
above them is the header unless there is nothing to show. -/
structure FamilyBlocks.Complete (x : FamilyBlocks) : Prop where
  blank : x.family.points.Blank → x.header = []
  header : ¬x.family.points.Blank → x.header = x.family.metadata.plain x.family.type.word
  points : x.family.points.dataPoints false x.family.metadata.name = .ok (x.blocks.map Block.point)
  began : x.blocks.map Block.began = x.family.points.began
  shown : ∀ b ∈ x.blocks, b.point.IsShownBy x.family.metadata.name b.lines

/-! ## Blocks -/

section Blocks

variable {family : Text}

/-- The sample of a time, if it has a line, has this one. -/
theorem DataPoint.plain_beginning {d : DataPoint} {t : Int} {x : PlainSample} (h : (d.beginning family t).plain = .ok x) :
    x = d.beginningLine family t := by
  obtain ⟨added, hadded, h⟩ := bind_eq_ok_iff.1 h
  obtain ⟨v, hv, h⟩ := bind_eq_ok_iff.1 h
  obtain ⟨u, hu, h⟩ := bind_eq_ok_iff.1 h
  obtain ⟨e, he, h⟩ := bind_eq_ok_iff.1 h
  cases h
  cases hadded
  cases he
  obtain ⟨-, rfl⟩ := Text.ofMilliseconds?_eq_some_iff.1 (orFault_eq_ok_iff.1 hv)
  rw [timestamp_of_optionally hu]
  exact congrArg (PlainSample.mk _ · _ _ _) (List.append_nil d.labels)

/-- **The line of a time is one line** unless the name of the family or of a label is more. -/
theorem DataPoint.lineFeed_notMem_beginningLine {d : DataPoint} (hfamily : Text.lineFeed ∉ family)
    (hlabels : ∀ l ∈ d.labels, Text.lineFeed ∉ l.name) (t : Int) :
    Text.lineFeed ∉ (PlainRecord.sample (d.beginningLine family t)).toText := by
  have hsuffix : Text.lineFeed ∉ Text.ofString "_created" := by decide
  have hspace : Text.lineFeed ≠ space := by decide
  have hvalue := lineFeed_notMem_numeral (Text.isNumeral_ofMilliseconds t)
  have htime : Text.lineFeed ∉ timestampText (d.scrape.map Text.ofMilliseconds) := by
    apply lineFeed_notMem_timestampText
    intro u hu
    obtain ⟨n, -, rfl⟩ := Option.map_eq_some_iff.1 hu
    exact Text.isNumeral_ofMilliseconds n
  simp [PlainRecord.toText, PlainSample.toText, beginningLine, exemplarText, hfamily, hsuffix, hspace, hvalue, htime,
    lineFeed_notMem_optionalLabelsText hlabels]

/-- A block whose samples all have lines is a block of lines. -/
theorem Block.exists_plain {b : Block Sample} (hfill : b.point.IsFilledBy family b.lines) {ps : List PlainRecord}
    (h : ((b.shown (DataPoint.beginning family) true).map Record.sample).mapM Record.plain = .ok ps) :
    ∃ xs, b.point.IsShownBy family xs ∧ ∀ withCreated,
      ((b.shown (DataPoint.beginning family) withCreated).map Record.sample).mapM Record.plain =
        .ok ((Block.shown (DataPoint.beginningLine family) withCreated ⟨b.point, b.began, xs⟩).map .sample) := by
  unfold shown at h
  rw [List.map_append] at h
  obtain ⟨ps₁, ps₂, h₁, h₂, -⟩ := mapM_append_eq_ok_iff.1 h
  obtain ⟨xs, rfl, hxs⟩ := shows_of_fill hfill h₁
  have hlast : ∀ withCreated : Bool, ((if withCreated then (b.began.map (b.point.beginning family)).toList else []).map
      Record.sample).mapM Record.plain =
        .ok ((if withCreated then (b.began.map (b.point.beginningLine family)).toList else []).map .sample) := by
    intro withCreated
    cases withCreated with
    | false => rfl
    | true =>
      cases hb : b.began with
      | none => rfl
      | some t =>
        rw [hb] at h₂
        obtain ⟨x, hx⟩ : ∃ x, (b.point.beginning family t).plain = .ok x := by
          obtain ⟨p, ps, hp, -, -⟩ := List.forall₂_cons_left_iff.1 (mapM_eq_ok_iff.1 h₂)
          obtain ⟨x, hx, -⟩ := map_eq_ok_iff.1 hp
          exact ⟨x, hx⟩
        rw [if_pos rfl, if_pos rfl, Option.map_some, Option.map_some, Option.toList_some, Option.toList_some,
          List.map_singleton, List.map_singleton, mapM_cons_eq_bind, Record.plain, hx, DataPoint.plain_beginning hx]
        rfl
  refine ⟨xs, hxs, fun withCreated => ?_⟩
  unfold shown
  rw [List.map_append, List.map_append]
  exact mapM_append_eq_ok_iff.2 ⟨_, _, h₁, hlast withCreated, rfl⟩

/-- Blocks whose samples all have lines are blocks of lines. -/
theorem exists_plain_blocks : ∀ {bs : List (Block Sample)} {ps : List PlainRecord},
    (∀ b ∈ bs, b.point.IsFilledBy family b.lines) →
    ((bs.flatMap (Block.shown (DataPoint.beginning family) true)).map Record.sample).mapM Record.plain = .ok ps →
    ∃ xs : List (Block PlainSample), xs.map Block.point = bs.map Block.point ∧ xs.map Block.began = bs.map Block.began ∧
      (∀ x ∈ xs, x.point.IsShownBy family x.lines) ∧
      ∀ withCreated, ((bs.flatMap (Block.shown (DataPoint.beginning family) withCreated)).map
        Record.sample).mapM Record.plain =
          .ok ((xs.flatMap (Block.shown (DataPoint.beginningLine family) withCreated)).map .sample)
  | [], _, _, _ => ⟨[], rfl, rfl, fun x hx => (by cases hx), fun _ => rfl⟩
  | b :: bs, ps, hfill, h => by
    rw [List.flatMap_cons, List.map_append] at h
    obtain ⟨ps₁, ps₂, h₁, h₂, rfl⟩ := mapM_append_eq_ok_iff.1 h
    obtain ⟨ls, hls, hblock⟩ := Block.exists_plain (hfill b List.mem_cons_self) h₁
    obtain ⟨xs, hpoints, hbegan, hxs, hshown⟩ :=
      exists_plain_blocks (fun b' hb' => hfill b' (List.mem_cons_of_mem b hb')) h₂
    refine ⟨⟨b.point, b.began, ls⟩ :: xs, ?_, ?_, List.forall_mem_cons.2 ⟨hls, hxs⟩, fun withCreated => ?_⟩
    · rw [List.map_cons, List.map_cons, hpoints]
    · rw [List.map_cons, List.map_cons, hbegan]
    · rw [List.flatMap_cons, List.flatMap_cons, List.map_append, List.map_append]
      exact mapM_append_eq_ok_iff.2 ⟨_, _, hblock withCreated, hshown withCreated, rfl⟩

end Blocks

/-! ## Snapshots -/

theorem Points.exists_groups_of_blank {ps : Points} (hb : ps.Blank) (withCreated : Bool) (family : Text) :
    ∃ gs, ps.groups withCreated family = .ok gs := by
  cases ps with
  | native g ps =>
    obtain rfl : ps = [] := List.eq_nil_of_length_eq_zero hb
    exact ⟨_, rfl⟩
  | _ => exact ⟨_, rfl⟩

/-- A family whose samples all have lines has complete blocks, and these have the lines of its samples with either answer. -/
theorem Family.exists_familyBlocks {f : Family} {gs : List (List Sample)} {ps : List PlainRecord}
    (hgs : f.points.groups true f.metadata.name = .ok gs)
    (hps : (gs.flatten.map Record.sample).mapM Record.plain = .ok ps) (header : List PlainRecord)
    (hblank : f.points.Blank → header = []) (hheader : ¬f.points.Blank → header = f.metadata.plain f.type.word) :
    ∃ xs, (FamilyBlocks.mk f header xs).Complete ∧
      ∀ withCreated, ∃ gs, f.points.groups withCreated f.metadata.name = .ok gs ∧
        (gs.flatten.map Record.sample).mapM Record.plain =
          .ok ((xs.flatMap (Block.shown (DataPoint.beginningLine f.metadata.name) withCreated)).map .sample) := by
  obtain ⟨bs, hbs⟩ := Points.exists_blocks hgs
  obtain rfl := Except.ok.inj ((hbs.groups true).symm.trans hgs)
  rw [← List.flatMap_def] at hps
  obtain ⟨xs, hpoints, hbegan, hxs, hshown⟩ := exists_plain_blocks hbs.filled hps
  refine ⟨xs, ⟨hblank, hheader, ?_, hbegan.trans hbs.began, hxs⟩, fun withCreated => ⟨_, hbs.groups withCreated, ?_⟩⟩
  · rw [hbs.points, hpoints]
  · rw [← List.flatMap_def]
    exact hshown withCreated

/-- Without a fault a snapshot with something to show is written as the lines above it and those of its groups. -/
theorem Snapshot.text_eq_lines {withCreated : Bool} {s : Snapshot} {f : Family} (hf : s.family? = some f)
    (hb : ¬f.points.Blank) (h : (s.emission withCreated).fault = none) {gs : List (List Sample)}
    (hgs : f.points.groups withCreated f.metadata.name = .ok gs) :
    ∃ ps, (gs.flatten.map Record.sample).mapM Record.plain = .ok ps ∧
      (s.emission withCreated).text = (f.metadata.plain f.type.word ++ ps).flatMap PlainRecord.line := by
  have hs := s.emission_of_not_blank withCreated hf hb
  rw [hgs] at hs
  simp only at hs
  rw [hs] at h ⊢
  obtain ⟨qs, hqs, htext⟩ := Document.plain_of_fault_none _ h
  obtain ⟨ps₁, ps₂, hps₁, hps₂, rfl⟩ := mapM_append_eq_ok_iff.1 hqs
  rw [f.metadata.plain_records] at hps₁
  cases hps₁
  exact ⟨ps₂, hps₂, htext⟩

/-- **A snapshot without a fault is written as the lines of its blocks**, whether the times are asked for or not. -/
theorem Snapshot.exists_familyBlocks {s : Snapshot} {f : Family} (hf : s.family? = some f)
    (h : ∀ withCreated, (s.emission withCreated).fault = none) :
    ∃ x : FamilyBlocks, x.family = f ∧ x.Complete ∧
      ∀ withCreated, (s.emission withCreated).text = (x.lines withCreated).flatMap PlainRecord.line := by
  by_cases hb : f.points.Blank
  · obtain ⟨gs, hgs⟩ := f.points.exists_groups_of_blank hb true f.metadata.name
    have hnone : (gs.flatten.map Record.sample).mapM Record.plain = .ok [] := by
      rw [Points.flatten_groups_of_blank hb hgs]
      rfl
    obtain ⟨xs, hxs, hlines⟩ := f.exists_familyBlocks hgs hnone [] (fun _ => rfl) (fun hn => absurd hb hn)
    refine ⟨⟨f, [], xs⟩, rfl, hxs, fun withCreated => ?_⟩
    obtain ⟨gs', hgs', hps'⟩ := hlines withCreated
    rw [Points.flatten_groups_of_blank hb hgs'] at hps'
    rw [s.emission_of_blank withCreated hf hb, FamilyBlocks.lines, ← Except.ok.inj hps']
    rfl
  · obtain ⟨gs, hgs⟩ := exists_groups hf hb (h true)
    obtain ⟨ps, hps, -⟩ := text_eq_lines hf hb (h true) hgs
    obtain ⟨xs, hxs, hlines⟩ :=
      f.exists_familyBlocks hgs hps (f.metadata.plain f.type.word) (fun hn => absurd hn hb) (fun _ => rfl)
    refine ⟨⟨f, _, xs⟩, rfl, hxs, fun withCreated => ?_⟩
    obtain ⟨gs', hgs', hps'⟩ := hlines withCreated
    obtain ⟨qs, hqs, htext⟩ := text_eq_lines hf hb (h withCreated) hgs'
    rw [htext, FamilyBlocks.lines, Except.ok.inj (hqs.symm.trans hps')]

/-! ## Documents -/

namespace Document

theorem findSome?_steps {ss : List Snapshot} (h : ∀ s ∈ ss, ¬s.BeginsTooLong) :
    (steps true ss).findSome? Step.fault? = (steps false ss).findSome? Step.fault? := by
  unfold steps
  rw [findSome?_flatMap, findSome?_flatMap]
  induction ss with
  | nil => rfl
  | cons s ss ih =>
    rw [findSome?_cons_eq_or, findSome?_cons_eq_or, Snapshot.findSome?_steps (h s List.mem_cons_self),
      ih fun s' hs' => h s' (List.mem_cons_of_mem s hs')]

/-- What is written with the times is written without them. -/
theorem fault_concat_of_true {ss : List Snapshot} (h : (Emission.concat (ss.map (·.emission true))).fault = none)
    (withCreated : Bool) : (Emission.concat (ss.map (·.emission withCreated))).fault = none := by
  cases withCreated with
  | true => exact h
  | false =>
    rw [Emission.fault_concat, List.findSome?_map, List.findSome?_eq_none_iff] at h ⊢
    intro s hs
    have htrue := h s hs
    rw [Function.comp_apply, s.fault_emission] at htrue ⊢
    exact Snapshot.findSome?_steps_false htrue

/-- Snapshots without a fault are written as the lines of the blocks of their families. -/
theorem exists_familyBlocks : ∀ (ss : List Snapshot),
    (∀ withCreated, (Emission.concat (ss.map (·.emission withCreated))).fault = none) →
    ∃ xs : List FamilyBlocks, xs.map FamilyBlocks.family = ss.filterMap Snapshot.family? ∧ (∀ x ∈ xs, x.Complete) ∧
      ∀ withCreated, (Emission.concat (ss.map (·.emission withCreated))).text =
        (xs.flatMap (FamilyBlocks.lines withCreated)).flatMap PlainRecord.line
  | [], _ => ⟨[], rfl, fun x hx => (by cases hx), fun _ => rfl⟩
  | s :: ss, h => by
    have hparts := fun withCreated => Emission.fault_append_eq_none_iff.1 (h withCreated)
    obtain ⟨xs, hfamilies, hxs, htext⟩ := exists_familyBlocks ss fun withCreated => (hparts withCreated).2
    have hcons : ∀ withCreated, (Emission.concat ((s :: ss).map (·.emission withCreated))).text =
        (s.emission withCreated).text ++ (xs.flatMap (FamilyBlocks.lines withCreated)).flatMap PlainRecord.line := by
      intro withCreated
      rw [List.map_cons, Emission.concat_cons, Emission.text_append_of_none (hparts withCreated).1, htext]
    cases hf : s.family? with
    | none =>
      -- an unknown class is a fault unless there is nothing to write
      refine ⟨xs, by rw [List.filterMap_cons_none hf, hfamilies], hxs, fun withCreated => ?_⟩
      have he : s.isEmpty = true := by
        by_contra hne
        obtain ⟨f, -, hsome, -⟩ := records_of_fault_none (Bool.eq_false_iff.2 hne) (hparts withCreated).1
        rw [hf] at hsome
        cases hsome
      rw [hcons, emission_of_isEmpty he]
      rfl
    | some f =>
      obtain ⟨x, hx, hcomplete, hlines⟩ := Snapshot.exists_familyBlocks hf fun withCreated => (hparts withCreated).1
      refine ⟨x :: xs, ?_, List.forall_mem_cons.2 ⟨hcomplete, hxs⟩, fun withCreated => ?_⟩
      · rw [List.map_cons, hx, hfamilies, List.filterMap_cons_some hf]
      · rw [hcons, hlines, List.flatMap_cons, List.flatMap_append]

/-- **Asking for the times at which series began only adds their lines.**  Snapshots without these times have, with either
answer, the document of the snapshots themselves if nobody asks.  With either answer the same fault is met or none, if no
line of a time has too many digits.  And if none is met, there are blocks of lines, one for each data point of each family
in order, and with either answer the document has the header lines of each family that shows something and the lines of its
blocks; if the times are asked for, behind the lines of each block whose data point knows its time and is not one of a
summary that shows nothing there is one record more, which has the labels of the data point, the time, and the time of the
scrape if it is known, and is one line if there is no line feed in the names. -/
theorem encode_created (ss : List Snapshot) :
    (∀ withCreated, encode withCreated (ss.map Snapshot.withoutCreated) = encode false ss) ∧
    ((∀ s ∈ ss, ¬s.BeginsTooLong) → ∀ e, encode true ss = .error e ↔ encode false ss = .error e) ∧
    (∀ bytes, encode true ss = .ok bytes → ∃ xs : List FamilyBlocks,
      xs.map FamilyBlocks.family = ss.filterMap Snapshot.family? ∧ (∀ x ∈ xs, x.Complete) ∧
      ∀ withCreated, encode withCreated ss =
        .ok (Utf8.encode ((xs.flatMap (FamilyBlocks.lines withCreated)).flatMap PlainRecord.line ++ endLine))) ∧
    ∀ (family : Text) (d : DataPoint), Text.lineFeed ∉ family → (∀ l ∈ d.labels, Text.lineFeed ∉ l.name) → ∀ t,
      Text.lineFeed ∉ (PlainRecord.sample (d.beginningLine family t)).toText := by
  refine ⟨fun withCreated => ?_, fun h e => ?_, fun bytes h => ?_,
    fun family d hfamily hlabels => d.lineFeed_notMem_beginningLine hfamily hlabels⟩
  · have hmap : (ss.map Snapshot.withoutCreated).map (·.emission withCreated) = ss.map (·.emission false) := by
      rw [List.map_map]
      exact List.map_congr_left fun s _ => s.emission_withoutCreated withCreated
    rw [encode_eq_concat, encode_eq_concat, hmap]
  · rw [encode_eq_error, encode_eq_error, findSome?_steps h]
  · have hfault : ∀ withCreated, (Emission.concat (ss.map (·.emission withCreated))).fault = none := by
      apply fault_concat_of_true
      rw [encode_eq_concat] at h
      split at h
      · cases h
      · assumption
    obtain ⟨xs, hfamilies, hxs, htext⟩ := exists_familyBlocks ss hfault
    refine ⟨xs, hfamilies, hxs, fun withCreated => ?_⟩
    rw [encode_eq_concat, hfault withCreated]
    simp only
    rw [bytesOf, htext, ← Utf8.encode_append]

/-- A counter whose name is two lines. -/
def twoLines (created : Int) : Family where
  metadata := ⟨"a\nb", none, none⟩
  points := .counter [{ value := .int 1, labels := [], exemplar := none, created := some created, scrape := none }]

theorem encode_twoLines_false (created : Int) :
    encode false [.family (twoLines created)] = .ok (Utf8.encode "# TYPE a\nb counter\na\nb_total 1.0\n# EOF\n") := by
  have hone : encode false [.family (twoLines created)] = encode false [.family (twoLines 1)] :=
    ((encode_created [.family (twoLines created)]).1 false).symm.trans ((encode_created [.family (twoLines 1)]).1 false)
  rw [hone]
  decide +kernel

theorem encode_twoLines_tooLong {created : Int} (h : 10 ^ Text.digitLimit ≤ created.natAbs / 1000) :
    encode true [.family (twoLines created)] = .error .tooManyDigits := by
  have htime : (SampleValue.time created).fault? = some .tooManyDigits :=
    SampleValue.fault?_eq_some_iff.2 (.inr ⟨h, rfl⟩)
  have hvalue : (SampleValue.measurement (.int 1)).fault? = none := by decide +kernel
  have hsteps : steps true [.family (twoLines created)] =
      [.lookUp (.family (twoLines created)), .number (.measurement (.int 1)), .number (.time created)] := rfl
  rw [encode_eq_error, hsteps]
  simp only [List.findSome?_cons, Step.fault?, htime, hvalue]
  rfl

/-- **A time is more than one line behind a name of two, and may be a fault of its own.**  The first document is not the
second one with a line of it taken away, and the third one fails although it does not without the times. -/
theorem encode_created_twoLines :
    (∃ shown hidden : Text,
      encode true [.family (twoLines 1)] = .ok (Utf8.encode shown) ∧
      encode false [.family (twoLines 1)] = .ok (Utf8.encode hidden) ∧
      ∀ before line after : Text, Text.lineFeed ∉ line → shown = before ++ (line ++ Text.lineFeed :: after) →
        hidden ≠ before ++ after) ∧
    encode true [.family (twoLines ((10 ^ Text.digitLimit * 1000 : Nat) : Int))] = .error .tooManyDigits ∧
    ∃ bytes, encode false [.family (twoLines ((10 ^ Text.digitLimit * 1000 : Nat) : Int))] = .ok bytes := by
  refine ⟨⟨"# TYPE a\nb counter\na\nb_total 1.0\na\nb_created 0.001\n# EOF\n", _, by decide +kernel,
    encode_twoLines_false 1, ?_⟩, encode_twoLines_tooLong ?_, _, encode_twoLines_false _⟩
  · -- a line that is taken away takes one line feed with it
    intro before line after hline hshown hhidden
    have hcount := congrArg (List.count Text.lineFeed) hshown
    have hcount' := congrArg (List.count Text.lineFeed) hhidden
    rw [List.count_append, List.count_append, List.count_eq_zero_of_not_mem hline, List.count_cons_self] at hcount
    rw [List.count_append] at hcount'
    have hseven : List.count Text.lineFeed
        ("# TYPE a\nb counter\na\nb_total 1.0\na\nb_created 0.001\n# EOF\n" : Text) = 7 := by decide
    have hfive : List.count Text.lineFeed ("# TYPE a\nb counter\na\nb_total 1.0\n# EOF\n" : Text) = 5 := by decide
    omega
  · rw [Int.natAbs_natCast, Nat.mul_div_cancel _ (by decide)]

end Document
end Exposition
