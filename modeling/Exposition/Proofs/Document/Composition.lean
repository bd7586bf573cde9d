import Exposition.Proofs.Document.Streaming
import Exposition.Proofs.Family.Groups
import Exposition.Proofs.Family.Samples
/-!
# Composition — documents of parts

Nothing that is written depends on what was written before.  The document of two lists of snapshots is that of the first,
without its last line, and then that of the second; and a snapshot with the data points of two others is written like
the first of these and then like the second without its header lines, or with them if the first has nothing to show
(`encode_composes`).
-/
namespace Exposition

/-! ## Header lines -/

/-- The header lines of a family, as they are written. -/
def Family.headerText (f : Family) : Text :=
  (Emission.concat ((f.metadata.records f.type).map Record.emission)).text

theorem Family.fault_header (f : Family) :
    (Emission.concat ((f.metadata.records f.type).map Record.emission)).fault = none := by
  rw [Emission.fault_concat, List.findSome?_map, List.findSome?_eq_none_iff]
  intro r hr
  have hmeta := Family.isMetadataOf_of_mem hr
  cases r with
  | sample s => exact hmeta.elim
  | _ => rfl

theorem Family.headerText_ne_nil (f : Family) : f.headerText ≠ [] := by
  unfold headerText Metadata.records
  rw [List.map_cons, Emission.concat_cons, Emission.text_append_of_none rfl]
  simp only [Record.emission, Emission.text_ofPieces, List.flatten_cons, List.append_assoc]
  exact List.append_ne_nil_of_left_ne_nil (by decide) _

theorem Family.headerText_with_points {f : Family} {ps : Points} (h : ps.type = f.points.type) :
    Family.headerText { f with points := ps } = f.headerText := by
  unfold headerText type
  rw [h]

/-! ## Snapshots in parts -/

def samplesEmission (gs : List (List Sample)) : Emission := .concat (gs.flatten.map Sample.emission)

theorem samplesEmission_append (gs gs' : List (List Sample)) :
    samplesEmission (gs ++ gs') = samplesEmission gs ++ samplesEmission gs' := by
  unfold samplesEmission
  rw [List.flatten_append, List.map_append, Emission.concat_append]

namespace Snapshot

variable {withCreated : Bool} {s : Snapshot} {f : Family}

theorem emission_eq_parts (hf : s.family? = some f) (hb : ¬f.points.Blank) {gs : List (List Sample)}
    (hgs : f.points.groups withCreated f.metadata.name = .ok gs) :
    s.emission withCreated =
      .concat ((f.metadata.records f.type).map Record.emission) ++ samplesEmission gs := by
  rw [s.emission_of_not_blank withCreated hf hb, hgs]
  simp only
  rw [Family.block, List.map_append, List.map_map, Emission.concat_append]
  rfl

theorem exists_groups (hf : s.family? = some f) (hb : ¬f.points.Blank) (h : (s.emission withCreated).fault = none) :
    ∃ gs, f.points.groups withCreated f.metadata.name = .ok gs := by
  rw [s.emission_of_not_blank withCreated hf hb] at h
  cases hgs : f.points.groups withCreated f.metadata.name with
  | error e =>
    rw [hgs] at h
    cases h
  | ok gs => exact ⟨gs, rfl⟩

/-- **What a snapshot is written as if its groups have no fault**: nothing if it shows nothing, and otherwise its header
lines and the lines of its groups. -/
theorem text_of_groups (hf : s.family? = some f) {gs : List (List Sample)}
    (hgs : f.points.groups withCreated f.metadata.name = .ok gs) (hfault : (samplesEmission gs).fault = none) :
    (s.emission withCreated).fault = none ∧
      ((f.points.Blank ∧ (s.emission withCreated).text = [] ∧ (samplesEmission gs).text = []) ∨
        (¬f.points.Blank ∧ (s.emission withCreated).text = f.headerText ++ (samplesEmission gs).text)) := by
  by_cases hb : f.points.Blank
  · rw [s.emission_of_blank withCreated hf hb]
    refine ⟨rfl, .inl ⟨hb, rfl, ?_⟩⟩
    rw [samplesEmission, Points.flatten_groups_of_blank hb hgs]
    rfl
  · rw [emission_eq_parts hf hb hgs]
    refine ⟨?_, .inr ⟨hb, ?_⟩⟩
    · rw [Emission.fault_append_of_none f.fault_header, hfault]
    · rw [Emission.text_append_of_none f.fault_header]
      rfl

/-- **A snapshot whose data points are those of two others is written like the first and then the second**, the header
lines of which are left out if the first has them. -/
theorem emission_of_joins {s₁ s₂ : Snapshot} {ps₁ ps₂ : Points} (hj : ps₁.Joins ps₂ f.points)
    (hf : s.family? = some f) (hf₁ : s₁.family? = some { f with points := ps₁ })
    (hf₂ : s₂.family? = some { f with points := ps₂ }) (h : (s.emission withCreated).fault = none) :
    (s₁.emission withCreated).fault = none ∧ (s₂.emission withCreated).fault = none ∧
      ((s₁.emission withCreated).text = [] ↔ ps₁.Blank) ∧
      ((s₂.emission withCreated).text = [] ∨ f.headerText <+: (s₂.emission withCreated).text) ∧
      (s.emission withCreated).text = (s₁.emission withCreated).text ++
        (if (s₁.emission withCreated).text = [] then (s₂.emission withCreated).text
          else (s₂.emission withCreated).text.drop f.headerText.length) := by
  by_cases hb : f.points.Blank
  · obtain ⟨hb₁, hb₂⟩ := hj.blank_iff.1 hb
    rw [s.emission_of_blank withCreated hf hb, s₁.emission_of_blank withCreated hf₁ hb₁,
      s₂.emission_of_blank withCreated hf₂ hb₂]
    exact ⟨rfl, rfl, iff_of_true rfl hb₁, .inl rfl, rfl⟩
  obtain ⟨gs, hgs⟩ := exists_groups hf hb h
  obtain ⟨gs₁, gs₂, hgs₁, hgs₂, rfl⟩ := Points.groups_of_joins hj hgs
  rw [emission_eq_parts hf hb hgs, samplesEmission_append, Emission.fault_append_of_none f.fault_header] at h
  obtain ⟨hfault₁, hfault₂⟩ := Emission.fault_append_eq_none_iff.1 h
  have htext : (s.emission withCreated).text =
      f.headerText ++ ((samplesEmission gs₁).text ++ (samplesEmission gs₂).text) := by
    rw [emission_eq_parts hf hb hgs, samplesEmission_append, Emission.text_append_of_none f.fault_header,
      Emission.text_append_of_none hfault₁]
    rfl
  obtain ⟨hnone₁, h₁⟩ := text_of_groups hf₁ hgs₁ hfault₁
  obtain ⟨hnone₂, h₂⟩ := text_of_groups hf₂ hgs₂ hfault₂
  rw [Family.headerText_with_points hj.type_eq.1] at h₁
  rw [Family.headerText_with_points hj.type_eq.2] at h₂
  have hdrop : (s₂.emission withCreated).text.drop f.headerText.length = (samplesEmission gs₂).text := by
    rcases h₂ with ⟨-, ht₂, hs₂⟩ | ⟨-, ht₂⟩
    · rw [ht₂, hs₂, List.drop_nil]
    · rw [ht₂, List.drop_left]
  refine ⟨hnone₁, hnone₂, ?_, ?_, ?_⟩
  · rcases h₁ with ⟨hb₁, ht₁, -⟩ | ⟨hb₁, ht₁⟩
    · exact iff_of_true ht₁ hb₁
    · rw [ht₁]
      exact iff_of_false (List.append_ne_nil_of_left_ne_nil f.headerText_ne_nil _) hb₁
  · rcases h₂ with ⟨-, ht₂, -⟩ | ⟨-, ht₂⟩
    · exact .inl ht₂
    · rw [ht₂]
      exact .inr (List.prefix_append _ _)
  · rw [htext]
    rcases h₁ with ⟨hb₁, ht₁, hs₁⟩ | ⟨hb₁, ht₁⟩
    · -- the header lines come with the second, which shows something because the whole does
      rw [ht₁, hs₁, if_pos rfl, List.nil_append, List.nil_append]
      rcases h₂ with ⟨hb₂, -, -⟩ | ⟨-, ht₂⟩
      · exact absurd (hj.blank_iff.2 ⟨hb₁, hb₂⟩) hb
      · exact ht₂.symm
    · rw [ht₁, if_neg (List.append_ne_nil_of_left_ne_nil f.headerText_ne_nil _), hdrop, List.append_assoc]

end Snapshot

/-! ## Documents in parts -/

namespace Document

/-- A document is the text of its snapshots and the last line, unless there is a fault in them. -/
theorem encode_eq_concat (withCreated : Bool) (ss : List Snapshot) :
    encode withCreated ss =
      match (Emission.concat (ss.map (·.emission withCreated))).fault with
      | some f => .error f
      | none => .ok (bytesOf (.concat (ss.map (·.emission withCreated))) ++ Utf8.encode endLine) := by
  rw [encode_eq]
  have hfault : (emission withCreated ss).fault = (Emission.concat (ss.map (·.emission withCreated))).fault := by
    unfold emission
    rw [Emission.fault_append, Emission.fault_ofPieces, Option.or_none]
  cases h : (Emission.concat (ss.map (·.emission withCreated))).fault with
  | some f => rw [hfault, h]
  | none =>
    rw [h] at hfault
    rw [hfault]
    simp only
    rw [bytesOf, text_emission hfault, Utf8.encode_append]
    rfl

theorem encode_singleton (withCreated : Bool) (s : Snapshot) :
    encode withCreated [s] =
      match (s.emission withCreated).fault with
      | some f => .error f
      | none => .ok (Utf8.encode ((s.emission withCreated).text ++ endLine)) := by
  rw [encode_eq_concat, List.map_singleton, Emission.concat_cons, Emission.concat, List.foldr_nil,
    Emission.append_empty, bytesOf, ← Utf8.encode_append]

/-- Behind snapshots without a fault a document goes on as the document of the others. -/
theorem encode_append_of_ok {withCreated : Bool} {ss : List Snapshot} {bytes : Bytes}
    (h : encode withCreated ss = .ok bytes) (ss' : List Snapshot) :
    ∃ d, bytes = d ++ Utf8.encode endLine ∧
      encode withCreated (ss ++ ss') = (encode withCreated ss').map (d ++ ·) := by
  rw [encode_eq_concat] at h
  cases hfault : (Emission.concat (ss.map (·.emission withCreated))).fault with
  | some f => rw [hfault] at h; cases h
  | none =>
    rw [hfault] at h
    cases h
    refine ⟨_, rfl, ?_⟩
    rw [encode_eq_concat, encode_eq_concat, List.map_append, Emission.concat_append,
      Emission.fault_append_of_none hfault]
    cases (Emission.concat (ss'.map (·.emission withCreated))).fault with
    | some f => rfl
    | none =>
      simp only [Except.map]
      rw [bytesOf, Emission.text_append_of_none hfault, Utf8.encode_append, List.append_assoc]
      rfl

/-- What is behind a fault makes no difference. -/
theorem encode_append_of_error {withCreated : Bool} {ss : List Snapshot} {e : Fault}
    (h : encode withCreated ss = .error e) (ss' : List Snapshot) : encode withCreated (ss ++ ss') = .error e := by
  rw [encode_eq_concat] at h ⊢
  rw [List.map_append, Emission.concat_append, Emission.fault_append]
  cases hfault : (Emission.concat (ss.map (·.emission withCreated))).fault with
  | some f => rw [hfault] at h; exact h
  | none => rw [hfault] at h; cases h

/-- **Documents are put together from parts.**  If the first of two lists of snapshots has a document, the document of
both goes on, in place of its last line, as the document of the second, or fails as that does; if the first fails, so do
both.  A snapshot that has a document and whose data points are those of two others, of the same kind and with the same
metadata, has the text of the first one followed by that of the second one without its header lines, or with them if the
first one has no text, which is if it shows nothing. -/
theorem encode_composes (withCreated : Bool) :
    (∀ ss ss' : List Snapshot,
      (∀ bytes, encode withCreated ss = .ok bytes → ∃ d, bytes = d ++ Utf8.encode endLine ∧
        encode withCreated (ss ++ ss') = (encode withCreated ss').map (d ++ ·)) ∧
      ∀ e, encode withCreated ss = .error e → encode withCreated (ss ++ ss') = .error e) ∧
    ∀ (s s₁ s₂ : Snapshot) (f : Family) (ps₁ ps₂ : Points), ps₁.Joins ps₂ f.points → s.family? = some f →
      s₁.family? = some { f with points := ps₁ } → s₂.family? = some { f with points := ps₂ } →
      ∀ bytes, encode withCreated [s] = .ok bytes → ∃ t₁ t₂ : Text,
        encode withCreated [s₁] = .ok (Utf8.encode (t₁ ++ endLine)) ∧
        encode withCreated [s₂] = .ok (Utf8.encode (t₂ ++ endLine)) ∧
        (t₁ = [] ↔ ps₁.Blank) ∧ (t₂ = [] ∨ f.headerText <+: t₂) ∧
        bytes = Utf8.encode (t₁ ++ (if t₁ = [] then t₂ else t₂.drop f.headerText.length) ++ endLine) := by
  refine ⟨fun ss ss' => ⟨fun bytes h => encode_append_of_ok h ss', fun e h => encode_append_of_error h ss'⟩, ?_⟩
  intro s s₁ s₂ f ps₁ ps₂ hj hf hf₁ hf₂ bytes h
  rw [encode_singleton] at h
  cases hfault : (s.emission withCreated).fault with
  | some e => rw [hfault] at h; cases h
  | none =>
    rw [hfault] at h
    cases h
    obtain ⟨hnone₁, hnone₂, hblank, hheader, htext⟩ := Snapshot.emission_of_joins hj hf hf₁ hf₂ hfault
    refine ⟨_, _, ?_, ?_, hblank, hheader, by rw [htext]⟩
    · rw [encode_singleton, hnone₁]
    · rw [encode_singleton, hnone₂]

/-- A point of a summary that shows nothing, though its beginning is known, and one that shows a count. -/
def waits : List SummaryPoint × List SummaryPoint :=
  ([{ quantiles := [], labels := [], count := none, sum := none, exemplars := [], created := some 1000, scrape := none }],
    [{ quantiles := [], labels := [], count := some 4, sum := none, exemplars := [], created := some 1000
       scrape := none }])

def waitFamily (ps : List SummaryPoint) : Family := ⟨⟨"wait", some "Waits.", none⟩, .summary ps⟩

theorem encode_composes_waits :
    ∃ bytes, encode true [.family (waitFamily (waits.1 ++ waits.2))] = .ok bytes ∧
      (∃ d, bytes = d ++ Utf8.encode endLine ∧
        encode true ([.family (waitFamily (waits.1 ++ waits.2))] ++ [.foreign "Other" 1]) =
          (encode true [.foreign "Other" 1]).map (d ++ ·)) ∧
      ∃ t₂ : Text, encode true [.family (waitFamily waits.1)] = .ok (Utf8.encode ([] ++ endLine)) ∧
        encode true [.family (waitFamily waits.2)] = .ok (Utf8.encode (t₂ ++ endLine)) ∧
        bytes = Utf8.encode ([] ++ t₂ ++ endLine) := by
  have hfault : (Snapshot.emission true (.family (waitFamily (waits.1 ++ waits.2)))).fault = none := by decide +kernel
  have hok : ∃ bytes, encode true [.family (waitFamily (waits.1 ++ waits.2))] = .ok bytes := by
    rw [encode_singleton, hfault]
    exact ⟨_, rfl⟩
  obtain ⟨bytes, hbytes⟩ := hok
  obtain ⟨hlists, hpoints⟩ := encode_composes true
  have hblank : (Points.summary waits.1).Blank := by
    intro p hp
    cases List.mem_singleton.1 hp
    exact ⟨rfl, rfl, rfl⟩
  obtain ⟨t₁, t₂, h₁, h₂, ht₁, -, ht⟩ := hpoints _ (.family (waitFamily waits.1)) (.family (waitFamily waits.2)) _ _ _
    (.summary waits.1 waits.2) rfl rfl rfl bytes hbytes
  obtain rfl := ht₁.2 hblank
  exact ⟨bytes, hbytes, (hlists _ _).1 bytes hbytes, t₂, h₁, h₂, ht⟩

end Document
end Exposition
