import Exposition.Proofs.Document.Streaming
import Exposition.Proofs.Family.Samples
import Exposition.Proofs.Faults
import Exposition.Proofs.Record.Surrogates
import Exposition.Proofs.Text.Digits
/-!
# Framing — a document is read back as the records it was written from

Without a fault a document is the lines of its records and the mark of the end (`emission_eq_lines`).  No record leaves
its line, so the lines of the text are the lines of the records, and each of them is read as the record it was written
from (`read?_encode`).  All that is asked of names is that they have no reserved characters.
-/
namespace Exposition

open Text (isName isNumeral)

/-! ## Well-formed records -/

theorem isNumeral_timeText {n : Int} {t : Text} (h : timeText n = .ok t) : isNumeral t = true := by
  obtain ⟨-, rfl⟩ := Text.ofMilliseconds?_eq_some_iff.1 (orFault_eq_ok_iff.1 h)
  exact Text.isNumeral_ofMilliseconds n

theorem SampleValue.isNumeral_toText {v : SampleValue} {t : Text} (h : v.toText = .ok t) : isNumeral t = true := by
  cases v with
  | measurement x =>
    simp only [toText, Number.toText] at h
    split at h
    · cases h
      exact Binary64.isNumeral_toText _
    · cases h
  | count n =>
    obtain ⟨-, rfl⟩ := Text.ofInt?_eq_some_iff.1 (orFault_eq_ok_iff.1 h)
    exact Text.isNumeral_ofInt n
  | time n => exact isNumeral_timeText h
  | flag b =>
    cases b with
    | true => cases h; decide
    | false => cases h; decide

theorem isNumeral_timestamp {t : Option Int} {u : Option Text} (h : optionally timeText t = .ok u) :
    ∀ x ∈ u, isNumeral x = true := by
  cases t with
  | none =>
    cases h
    intro x hx
    cases hx
  | some n =>
    obtain ⟨v, hv, rfl⟩ := map_eq_ok_iff.1 h
    rintro x ⟨⟩
    exact isNumeral_timeText hv

theorem Exemplar.wellFormed_of_plain {e : Exemplar} {x : PlainExemplar} (h : e.plain = .ok x)
    (hl : ∀ l ∈ e.labels, isName l.name = true) : x.WellFormed := by
  obtain ⟨v, hv, h⟩ := bind_eq_ok_iff.1 h
  obtain ⟨u, hu, h⟩ := bind_eq_ok_iff.1 h
  cases h
  exact ⟨hl, SampleValue.isNumeral_toText (v := .measurement e.value) hv, isNumeral_timestamp hu⟩

theorem Sample.isName_additional {s : Sample} {l : Option Label} (h : s.additional = .ok l)
    (hf : ∀ f n, s.added = some (.state f n) → isName f = true) : ∀ x ∈ l, isName x.name = true := by
  unfold additional at h
  cases ha : s.added with
  | none =>
    rw [ha] at h
    cases h
    intro x hx
    cases hx
  | some a =>
    rw [ha] at h
    cases a with
    | bound b =>
      obtain ⟨y, hy, rfl⟩ := map_eq_ok_iff.1 h
      obtain ⟨t, -, rfl⟩ := map_eq_ok_iff.1 hy
      rintro x ⟨⟩
      exact (by decide : isName (Text.ofString "le") = true)
    | quantile q =>
      obtain ⟨y, hy, rfl⟩ := map_eq_ok_iff.1 h
      obtain ⟨t, -, rfl⟩ := map_eq_ok_iff.1 hy
      rintro x ⟨⟩
      exact (by decide : isName (Text.ofString "quantile") = true)
    | state f n =>
      cases h
      rintro x ⟨⟩
      exact hf f n ha

/-- **A sample of a point is well-formed if the names are names.** -/
theorem Sample.wellFormed_of_plain {s : Sample} {p : PlainSample} (h : s.plain = .ok p) {name : Text} {ls : Labels}
    {es : Exemplars} (ho : s.OfPoint name ls es) (hn : isName name = true)
    (hls : ∀ x ∈ labelSetsOf ls es, ∀ l ∈ x, isName l.name = true) : p.WellFormed := by
  have hseries : isName (s.family ++ s.suffix.getD []) = true := by
    have hall : ∀ x ∈ suffixes, isName x = true := by decide
    rw [Text.isName_append, ho.family, hn]
    cases hx : s.suffix with
    | none => rfl
    | some x => exact hall x (ho.suffix x hx)
  have hown : ∀ l ∈ s.labels, isName l.name = true := by
    rw [ho.labels]
    exact hls ls List.mem_cons_self
  have hex : ∀ e ∈ s.exemplar, ∀ l ∈ e.labels, isName l.name = true := by
    intro e he
    apply hls
    exact List.mem_cons_of_mem ls (List.mem_map.2 ⟨e, ho.exemplar e he, rfl⟩)
  obtain ⟨added, ha, h⟩ := bind_eq_ok_iff.1 h
  obtain ⟨v, hv, h⟩ := bind_eq_ok_iff.1 h
  obtain ⟨u, hu, h⟩ := bind_eq_ok_iff.1 h
  obtain ⟨e, he, h⟩ := bind_eq_ok_iff.1 h
  cases h
  have hadded := isName_additional ha (fun f n hs => ho.added f n hs ▸ hn)
  refine ⟨hseries, ?_, SampleValue.isNumeral_toText hv, isNumeral_timestamp hu, ?_⟩
  · intro l hl
    rcases List.mem_append.1 hl with hl | hl
    · exact hown l hl
    · exact hadded l (Option.mem_toList.1 hl)
  · rintro x ⟨⟩
    cases hs : s.exemplar with
    | none => rw [hs] at he; cases he
    | some y =>
      rw [hs] at he
      obtain ⟨z, hz, hx⟩ := map_eq_ok_iff.1 he
      cases hx
      exact Exemplar.wellFormed_of_plain hz (hex y hs)

theorem MetricType.wellFormed_word (t : MetricType) : isNumeral t.word = true ∧ Text.backslash ∉ t.word := by
  cases t <;> decide

/-- **The records of a family are well-formed if its names are names.** -/
theorem Family.wellFormed_of_plain {withCreated : Bool} {f : Family} {rs : List Record}
    (hr : f.records withCreated = .ok rs) (hn : ∀ n ∈ f.names, isName n = true) {r : Record} (hm : r ∈ rs)
    {p : PlainRecord} (hp : r.plain = .ok p) : p.WellFormed := by
  have hname : isName f.metadata.name = true := hn _ List.mem_cons_self
  have hlabels : ∀ x ∈ f.points.labelSets, ∀ l ∈ x, isName l.name = true := by
    intro x hx l hl
    apply hn
    exact List.mem_cons_of_mem _ (List.mem_flatMap.2 ⟨x, hx, List.mem_map.2 ⟨l, hl, rfl⟩⟩)
  rcases records_cases hr with rfl | ⟨samples, rfl, hs⟩
  · cases hm
  rcases List.mem_append.1 hm with hm | hm
  · have hmeta := isMetadataOf_of_mem hm
    cases r with
    | type n t =>
      cases hp
      exact ⟨hmeta.symm ▸ hname, t.wellFormed_word⟩
    | unit n u =>
      cases hp
      exact hmeta.symm ▸ hname
    | help n u =>
      cases hp
      exact hmeta.symm ▸ hname
    | sample s => cases hmeta
  · obtain ⟨s, hmem, rfl⟩ := List.mem_map.1 hm
    obtain ⟨ls, es, hsub, ho⟩ := hs s hmem
    obtain ⟨q, hps, rfl⟩ := map_eq_ok_iff.1 hp
    exact Sample.wellFormed_of_plain hps ho hname (fun x hx => hlabels x (hsub x hx))

/-! ## Lines of records -/

namespace Document

theorem plain_of_fault_none : ∀ (rs : List Record), (Emission.concat (rs.map Record.emission)).fault = none →
    ∃ ps, rs.mapM Record.plain = .ok ps ∧
      (Emission.concat (rs.map Record.emission)).text = ps.flatMap PlainRecord.line
  | [], _ => ⟨[], rfl, rfl⟩
  | r :: rs, h => by
    rw [List.map_cons, Emission.concat_cons] at h ⊢
    cases hp : r.plain with
    | error f =>
      rw [Emission.fault_append, Record.fault_of_plain hp] at h
      cases h
    | ok p =>
      obtain ⟨hf, ht⟩ := Record.emission_of_plain hp
      rw [Emission.fault_append_of_none hf] at h
      obtain ⟨ps, hps, hpt⟩ := plain_of_fault_none rs h
      refine ⟨p :: ps, ?_, ?_⟩
      · rw [mapM_cons_eq_bind, hp, hps]
        rfl
      · rw [Emission.text_append_of_none hf, ht, hpt]
        rfl

/-- Without a fault the text of a snapshot with data points is that of the records of its family. -/
theorem records_of_fault_none {withCreated : Bool} {s : Snapshot} (he : s.isEmpty = false)
    (h : (s.emission withCreated).fault = none) : ∃ f fs, s.family? = some f ∧ f.records withCreated = .ok fs ∧
      s.emission withCreated = .concat (fs.map Record.emission) := by
  unfold Snapshot.emission at h ⊢
  rw [he, if_neg (by decide)] at h ⊢
  cases hf : s.family? with
  | none => rw [hf] at h; cases h
  | some f =>
    rw [hf] at h
    simp only [Family.emission] at h ⊢
    cases hr : f.records withCreated with
    | error e => rw [hr] at h; cases h
    | ok fs => exact ⟨f, fs, rfl, hr, rfl⟩

theorem records_cons_of_family {withCreated : Bool} {s : Snapshot} {f : Family} (he : s.isEmpty = false)
    (hf : s.family? = some f) {rs : List Record} (hrs : f.records withCreated = .ok rs) {ss : List Snapshot}
    {rs' : List Record} (hrs' : records withCreated ss = .ok rs') : records withCreated (s :: ss) = .ok (rs ++ rs') := by
  rw [records, he, if_neg (by decide), hf]
  simp only
  rw [hrs, hrs']

/-- **Without a fault snapshots are written as the lines of their records**, each of which belongs to a family. -/
theorem emission_eq_lines (withCreated : Bool) : ∀ (ss : List Snapshot),
    (Emission.concat (ss.map (·.emission withCreated))).fault = none →
    ∃ rs ps, records withCreated ss = .ok rs ∧ rs.mapM Record.plain = .ok ps ∧
      (Emission.concat (ss.map (·.emission withCreated))).text = ps.flatMap PlainRecord.line ∧
      ∀ r ∈ rs, ∃ s ∈ ss, ∃ f, s.family? = some f ∧ ∃ fs, f.records withCreated = .ok fs ∧ r ∈ fs
  | [], _ => ⟨[], [], rfl, rfl, rfl, fun r hr => by cases hr⟩
  | s :: ss, h => by
    rw [List.map_cons, Emission.concat_cons] at h ⊢
    obtain ⟨hs, hss⟩ := Emission.fault_append_eq_none_iff.1 h
    obtain ⟨rs, ps, hrs, hps, ht, hm⟩ := emission_eq_lines withCreated ss hss
    have hrest : ∀ r ∈ rs, ∃ s' ∈ s :: ss, ∃ f, s'.family? = some f ∧ ∃ fs, f.records withCreated = .ok fs ∧ r ∈ fs := by
      intro r hr
      obtain ⟨s', hs', hx⟩ := hm r hr
      exact ⟨s', List.mem_cons_of_mem s hs', hx⟩
    cases he : s.isEmpty with
    | true =>
      refine ⟨rs, ps, by rw [records, he, if_pos rfl, hrs], hps, ?_, hrest⟩
      rw [emission_of_isEmpty he, Emission.empty_append, ht]
    | false =>
      obtain ⟨f, fs, hf, hfs, hse⟩ := records_of_fault_none he hs
      rw [hse] at hs ⊢
      obtain ⟨ps', hps', hpt⟩ := plain_of_fault_none fs hs
      refine ⟨fs ++ rs, ps' ++ ps, records_cons_of_family he hf hfs hrs,
        mapM_append_eq_ok_iff.2 ⟨ps', ps, hps', hps, rfl⟩, ?_, ?_⟩
      · rw [Emission.text_append_of_none hs, hpt, ht, List.flatMap_append]
      · intro r hmem
        rcases List.mem_append.1 hmem with hmem | hmem
        · exact ⟨s, List.mem_cons_self, f, hf, fs, hfs, hmem⟩
        · exact hrest r hmem

/-! ## Reading -/

theorem lines_append {l : Text} (h : Text.lineFeed ∉ l) (rest : Text) :
    lines (l ++ Text.lineFeed :: rest) = l :: lines rest := by
  induction l with
  | nil => rw [List.nil_append, lines, if_pos rfl]
  | cons c l ih =>
    rw [List.mem_cons, not_or] at h
    rw [List.cons_append, lines, if_neg (Ne.symm h.1), ih h.2]

theorem endLine_eq : endLine = endMark ++ [Text.lineFeed] := by decide

theorem lines_records : ∀ (ps : List PlainRecord), (∀ p ∈ ps, p.WellFormed) →
    lines (ps.flatMap PlainRecord.line ++ endLine) = ps.map PlainRecord.toText ++ [endMark]
  | [], _ => by decide
  | p :: ps, h => by
    have hp := PlainRecord.lineFeed_notMem_toText (h p List.mem_cons_self)
    have ih := lines_records ps (fun q hq => h q (List.mem_cons_of_mem p hq))
    rw [List.flatMap_cons, PlainRecord.line, List.append_assoc, List.append_assoc, List.singleton_append,
      lines_append hp, ih]
    rfl

theorem readLines?_records : ∀ (ps : List PlainRecord), (∀ p ∈ ps, p.WellFormed) →
    readLines? (ps.map PlainRecord.toText ++ [endMark]) = some ps
  | [], _ => by rw [List.map_nil, List.nil_append, readLines?, if_pos rfl]
  | p :: ps, h => by
    have hp := PlainRecord.read?_toText (h p List.mem_cons_self)
    have ih := readLines?_records ps (fun q hq => h q (List.mem_cons_of_mem p hq))
    have hne : ∃ l ls, ps.map PlainRecord.toText ++ [endMark] = l :: ls := by
      cases ps with
      | nil => exact ⟨_, _, rfl⟩
      | cons q qs => exact ⟨_, _, rfl⟩
    obtain ⟨l, ls, hl⟩ := hne
    rw [hl] at ih
    rw [List.map_cons, List.cons_append, hl, readLines?, hp, ih]

/-- A record is not taken for the mark of the end: the third character of a line of metadata is another one, and a
sample has another first one. -/
theorem endMark_ne_toText {p : PlainRecord} (h : p.WellFormed) : endMark ≠ p.toText := by
  have hthird : endMark[2]? = some (.ofChar 'E') := by decide
  intro e
  rw [e] at hthird
  cases p with
  | type n w =>
    have ht : (PlainRecord.type n w).toText[2]? = some (.ofChar 'T') := rfl
    exact absurd (ht.symm.trans hthird) (by decide)
  | unit n u =>
    have hu : (PlainRecord.unit n u).toText[2]? = some (.ofChar 'U') := rfl
    exact absurd (hu.symm.trans hthird) (by decide)
  | help n u =>
    have hh : (PlainRecord.help n u).toText[2]? = some (.ofChar 'H') := rfl
    exact absurd (hh.symm.trans hthird) (by decide)
  | sample s =>
    have hfirst : endMark[0]? = some Text.numberSign := by decide
    obtain ⟨c, r, hr, hc⟩ := PlainSample.head_toText h
    have hs : (PlainRecord.sample s).toText = c :: r := hr
    rw [e, hs] at hfirst
    exact hc (Option.some.inj hfirst)

/-- **The lines of well-formed records and the mark of the end are read as these records.** -/
theorem read?_records {ps : List PlainRecord} (h : ∀ p ∈ ps, p.WellFormed) :
    read? (ps.flatMap PlainRecord.line ++ endLine) = some ps := by
  have hlast : (ps.flatMap PlainRecord.line ++ endLine).getLast? = some Text.lineFeed := by
    rw [endLine_eq, ← List.append_assoc, List.getLast?_concat]
  unfold read?
  rw [if_pos hlast, lines_records ps h, readLines?_records ps h]

theorem replaceSurrogates_lines : ∀ (ps : List PlainRecord), (∀ p ∈ ps, p.WellFormed) →
    Utf8.replaceSurrogates (ps.flatMap PlainRecord.line) =
      (ps.map PlainRecord.replaceSurrogates).flatMap PlainRecord.line
  | [], _ => rfl
  | p :: ps, h => by
    have hlf : Utf8.replaceSurrogates [Text.lineFeed] = [Text.lineFeed] := by decide
    rw [List.flatMap_cons, Utf8.replaceSurrogates_append, PlainRecord.line, Utf8.replaceSurrogates_append, hlf,
      PlainRecord.replaceSurrogates_toText (h p List.mem_cons_self),
      replaceSurrogates_lines ps (fun q hq => h q (List.mem_cons_of_mem p hq))]
    rfl

/-- **A document is framed without loss.**  If the names in it are names, the bytes of a document are UTF-8, and what
they decode to is read as the records that were meant to be written, in order, a question mark standing for each
surrogate.  Its lines are those of the records and, after them and only there, the mark of the end. -/
theorem read?_encode (withCreated : Bool) (ss : List Snapshot) (bytes : Bytes)
    (hnames : ∀ s ∈ ss, ∀ f, s.family? = some f → ∀ n ∈ f.names, isName n = true)
    (h : encode withCreated ss = .ok bytes) :
    ∃ rs ps t, records withCreated ss = .ok rs ∧ rs.mapM Record.plain = .ok ps ∧ Utf8.decode bytes = .ok t ∧
      read? t = some (ps.map PlainRecord.replaceSurrogates) ∧
      ∃ ls, t = ls.flatMap (fun l => l ++ [Text.lineFeed]) ++ endLine ∧ lines t = ls ++ [endMark] ∧
        ls.length = ps.length ∧ endMark ∉ ls := by
  rw [encode_eq] at h
  cases hf : (emission withCreated ss).fault with
  | some f => rw [hf] at h; cases h
  | none =>
    rw [hf] at h
    cases h
    obtain ⟨hc, -⟩ := Emission.fault_append_eq_none_iff.1 hf
    obtain ⟨rs, ps, hrs, hps, ht, hfrom⟩ := emission_eq_lines withCreated ss hc
    have hwell : ∀ p ∈ ps, p.WellFormed := by
      intro p hp
      obtain ⟨r, hr, hrp⟩ := exists_of_mem_of_mapM hps p hp
      obtain ⟨s, hs, f, hsf, fs, hfs, hm⟩ := hfrom r hr
      exact Family.wellFormed_of_plain hfs (hnames s hs f hsf) hm hrp
    have hwell' : ∀ p ∈ ps.map PlainRecord.replaceSurrogates, p.WellFormed := by
      intro p hp
      obtain ⟨q, hq, rfl⟩ := List.mem_map.1 hp
      exact (hwell q hq).replaceSurrogates
    have htext : Utf8.replaceSurrogates (emission withCreated ss).text =
        (ps.map PlainRecord.replaceSurrogates).flatMap PlainRecord.line ++ endLine := by
      have hend : Utf8.replaceSurrogates endLine = endLine := Utf8.replaceSurrogates_ofString _
      rw [text_emission hf, Utf8.replaceSurrogates_append, hend, ht, replaceSurrogates_lines ps hwell]
    refine ⟨rs, ps, _, hrs, hps, Utf8.decode_encode _, ?_, (ps.map PlainRecord.replaceSurrogates).map
      PlainRecord.toText, ?_, ?_, ?_, ?_⟩
    · rw [htext, read?_records hwell']
    · rw [htext, List.flatMap_map PlainRecord.toText]
      rfl
    · rw [htext, lines_records _ hwell']
    · rw [List.length_map, List.length_map]
    · intro hm
      obtain ⟨p, hp, he⟩ := List.mem_map.1 hm
      exact endMark_ne_toText (hwell' p hp) he.symm

/-- A family whose help, unit and states try to look like lines of their own. -/
def hostileFamily : Family where
  metadata :=
    { name := "power", help := some "\\n\" 1\n# EOF\n", unit := some (("a\\" : Text) ++ [.ofNat 0xD800]) }
  points := .stateSet [{ states := [⟨"on\"\x7d 1\n# EOF", true⟩, ⟨" # \x7b\x7d 2", false⟩], labels := [⟨"", "x=\"y\","⟩]
                         scrape := none }]

theorem read?_encode_hostileFamily :
    (∀ s ∈ [Snapshot.family hostileFamily], ∀ f, s.family? = some f → ∀ n ∈ f.names, isName n = true) ∧
    ∃ bytes, encode true [.family hostileFamily] = .ok bytes ∧
      ∃ rs ps t, records true [.family hostileFamily] = .ok rs ∧ rs.mapM Record.plain = .ok ps ∧
        Utf8.decode bytes = .ok t ∧ read? t = some (ps.map PlainRecord.replaceSurrogates) ∧
        ∃ ls, t = ls.flatMap (fun l => l ++ [Text.lineFeed]) ++ endLine ∧ lines t = ls ++ [endMark] ∧
          ls.length = ps.length ∧ endMark ∉ ls := by
  have hnames : ∀ s ∈ [Snapshot.family hostileFamily], ∀ f, s.family? = some f → ∀ n ∈ f.names, isName n = true := by
    intro s hs f hf
    rw [List.mem_singleton] at hs
    subst hs
    cases hf
    decide
  exact ⟨hnames, _, rfl, read?_encode true [.family hostileFamily] _ hnames rfl⟩

end Document
end Exposition
