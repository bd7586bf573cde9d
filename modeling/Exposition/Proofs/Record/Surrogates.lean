import Exposition.Proofs.Record.Reading
/-!
# Surrogates — replacing them in a line replaces them in its record

Escaping and framing bring in no surrogates and depend on none, so the line of a record whose surrogates are replaced
is the line with its surrogates replaced (`replaceSurrogates_toText`).  Such a record is well-formed if the record is.
-/
namespace Exposition

open Text (isName isNumeral)
open Utf8 (replaceSurrogate replaceSurrogates_append replaceSurrogates_cons replaceSurrogates_ofString)

theorem replaceSurrogate_cases (c : CodePoint) : replaceSurrogate c = c ∨ replaceSurrogate c = .ofChar '?' := by
  unfold replaceSurrogate
  split
  · exact .inr rfl
  · exact .inl rfl

theorem replaceSurrogates_escapeSequence (c : CodePoint) :
    Utf8.replaceSurrogates (Text.escapeSequence c) = Text.escapeSequence (replaceSurrogate c) := by
  rcases Text.escapeSequence_cases c with ⟨rfl, -⟩ | ⟨rfl, -⟩ | ⟨rfl, -⟩ | ⟨-, -, -, h⟩
  · decide
  · decide
  · decide
  · rw [h, replaceSurrogates_cons]
    rcases replaceSurrogate_cases c with hc | hc
    · rw [hc, h]
      rfl
    · rw [hc]
      decide

theorem replaceSurrogates_escape : ∀ (t : Text),
    Utf8.replaceSurrogates t.escape = Text.escape (Utf8.replaceSurrogates t)
  | [] => rfl
  | c :: t => by
    rw [Text.escape_cons, replaceSurrogates_append, replaceSurrogates_escapeSequence, replaceSurrogates_escape t,
      replaceSurrogates_cons, Text.escape_cons]

theorem isName_replaceSurrogates {t : Text} (h : isName t = true) : isName (Utf8.replaceSurrogates t) = true := by
  apply List.all_eq_true.2
  intro c hc
  obtain ⟨d, hd, hdc⟩ := List.mem_map.1 hc
  have hc' : c = replaceSurrogate d := hdc.symm
  rw [hc']
  rcases replaceSurrogate_cases d with h' | h'
  · rw [h']
    exact List.all_eq_true.1 h d hd
  · rw [h']
    decide

theorem replaceSurrogates_numeral {t : Text} (h : isNumeral t = true) : Utf8.replaceSurrogates t = t := by
  unfold Utf8.replaceSurrogates
  refine (List.map_congr_left (fun c hc => ?_)).trans (List.map_id t)
  have hf := List.all_eq_true.1 h c hc
  have hs : c.isSurrogate = false := by
    unfold Text.isFigure at hf
    simp only [Bool.and_eq_true, decide_eq_true_eq] at hf
    exact CodePoint.isSurrogate_eq_false_iff.2 (by omega)
  rw [hs]
  rfl

theorem replaceSurrogates_cons_of_eq {c : CodePoint} (h : replaceSurrogate c = c) (t : Text) :
    Utf8.replaceSurrogates (c :: t) = c :: Utf8.replaceSurrogates t := by
  rw [replaceSurrogates_cons, h]

/-! ## Label sets -/

def Label.replaceSurrogates (l : Label) : Label := ⟨Utf8.replaceSurrogates l.name, Utf8.replaceSurrogates l.value⟩

theorem replaceSurrogates_labelText (l : Label) :
    Utf8.replaceSurrogates (Labels.labelText l) = Labels.labelText l.replaceSurrogates := by
  have he : replaceSurrogate Labels.equalsSign = Labels.equalsSign := by decide
  have hq : replaceSurrogate Text.quote = Text.quote := by decide
  unfold Labels.labelText
  rw [replaceSurrogates_append, replaceSurrogates_cons_of_eq he, replaceSurrogates_cons_of_eq hq,
    replaceSurrogates_append, replaceSurrogates_escape, replaceSurrogates_cons_of_eq hq]
  rfl

theorem replaceSurrogates_bodyText : ∀ (ls : Labels),
    Utf8.replaceSurrogates (Labels.bodyText ls) = Labels.bodyText ls.replaceSurrogates
  | [] => rfl
  | [l] => replaceSurrogates_labelText l
  | l :: l' :: ls => by
    have hc : replaceSurrogate Labels.comma = Labels.comma := by decide
    have ih := replaceSurrogates_bodyText (l' :: ls)
    rw [Labels.bodyText_cons l (List.cons_ne_nil l' ls), replaceSurrogates_append, replaceSurrogates_labelText,
      replaceSurrogates_cons_of_eq hc, ih]
    rfl

theorem replaceSurrogates_labels (ls : Labels) :
    Utf8.replaceSurrogates (ls.toText none) = ls.replaceSurrogates.toText none := by
  have ho : replaceSurrogate openingBrace = openingBrace := by decide
  have hc : Utf8.replaceSurrogates [Labels.closingBrace] = [Labels.closingBrace] := by decide
  rw [Labels.toText_none, Labels.toText_none, replaceSurrogates_cons_of_eq ho, replaceSurrogates_append,
    replaceSurrogates_bodyText, hc]

theorem replaceSurrogates_optionalLabelsText (ls : Labels) :
    Utf8.replaceSurrogates (optionalLabelsText ls) = optionalLabelsText ls.replaceSurrogates := by
  cases ls with
  | nil => rfl
  | cons l ls => exact replaceSurrogates_labels (l :: ls)

/-! ## Records -/

theorem replaceSurrogate_space : replaceSurrogate space = space := by decide

theorem replaceSurrogates_timestampText {t : Option Text} (h : ∀ u ∈ t, isNumeral u = true) :
    Utf8.replaceSurrogates (timestampText t) = timestampText t := by
  cases t with
  | none => rfl
  | some u =>
    unfold timestampText
    rw [replaceSurrogates_cons_of_eq replaceSurrogate_space, replaceSurrogates_numeral (h u rfl)]

theorem replaceSurrogates_exemplarText {x : Option PlainExemplar} (h : ∀ e ∈ x, e.WellFormed) :
    Utf8.replaceSurrogates (exemplarText x) = exemplarText (x.map PlainExemplar.replaceSurrogates) := by
  cases x with
  | none => rfl
  | some e =>
    have hm : Utf8.replaceSurrogates exemplarMark = exemplarMark := by decide
    unfold exemplarText PlainExemplar.toText
    rw [replaceSurrogates_append, hm, replaceSurrogates_append, replaceSurrogates_labels,
      replaceSurrogates_cons_of_eq replaceSurrogate_space, replaceSurrogates_append,
      replaceSurrogates_numeral (h e rfl).value, replaceSurrogates_timestampText (h e rfl).timestamp]
    rfl

/-- **Replacing the surrogates of a line replaces them in its record.** -/
theorem PlainRecord.replaceSurrogates_toText {r : PlainRecord} (h : r.WellFormed) :
    Utf8.replaceSurrogates r.toText = r.replaceSurrogates.toText := by
  unfold PlainRecord.toText PlainRecord.replaceSurrogates
  cases r with
  | type n w =>
    simp only
    rw [replaceSurrogates_append, replaceSurrogates_ofString, replaceSurrogates_append,
      replaceSurrogates_cons_of_eq replaceSurrogate_space, replaceSurrogates_numeral h.2.1]
  | unit n u =>
    simp only
    rw [replaceSurrogates_append, replaceSurrogates_ofString, replaceSurrogates_append,
      replaceSurrogates_cons_of_eq replaceSurrogate_space, replaceSurrogates_escape]
  | help n u =>
    simp only
    rw [replaceSurrogates_append, replaceSurrogates_ofString, replaceSurrogates_append,
      replaceSurrogates_cons_of_eq replaceSurrogate_space, replaceSurrogates_escape]
  | sample s =>
    unfold PlainSample.toText
    simp only
    rw [replaceSurrogates_append, replaceSurrogates_append, replaceSurrogates_optionalLabelsText,
      replaceSurrogates_cons_of_eq replaceSurrogate_space, replaceSurrogates_append, replaceSurrogates_append,
      replaceSurrogates_numeral h.value, replaceSurrogates_timestampText h.timestamp,
      replaceSurrogates_exemplarText h.exemplar]
    rfl

theorem isName_of_mem_replaceSurrogates {ls : Labels} (h : ∀ l ∈ ls, isName l.name = true) :
    ∀ l ∈ ls.replaceSurrogates, isName l.name = true := by
  intro l hl
  obtain ⟨l', hl', rfl⟩ := List.mem_map.1 hl
  exact isName_replaceSurrogates (h l' hl')

theorem PlainExemplar.WellFormed.replaceSurrogates {e : PlainExemplar} (h : e.WellFormed) :
    e.replaceSurrogates.WellFormed :=
  ⟨isName_of_mem_replaceSurrogates h.labels, h.value, h.timestamp⟩

theorem PlainRecord.WellFormed.replaceSurrogates {r : PlainRecord} (h : r.WellFormed) :
    r.replaceSurrogates.WellFormed := by
  cases r with
  | type n w => exact ⟨isName_replaceSurrogates h.1, h.2⟩
  | unit n u => exact isName_replaceSurrogates h
  | help n u => exact isName_replaceSurrogates h
  | sample s =>
    refine ⟨isName_replaceSurrogates h.series, isName_of_mem_replaceSurrogates h.labels, h.value, h.timestamp, ?_⟩
    intro e he
    obtain ⟨e', he', rfl⟩ := Option.map_eq_some_iff.1 he
    exact (h.exemplar e' he').replaceSurrogates

/-! ## One line -/

theorem lineFeed_notMem_name {n : Text} (h : isName n = true) : Text.lineFeed ∉ n :=
  Text.notMem_of_isName h (by decide)

theorem lineFeed_notMem_numeral {t : Text} (h : isNumeral t = true) : Text.lineFeed ∉ t :=
  Text.notMem_of_isNumeral h (by decide)

theorem lineFeed_notMem_labelText {l : Label} (h : Text.lineFeed ∉ l.name) : Text.lineFeed ∉ Labels.labelText l := by
  have he : Text.lineFeed ≠ Labels.equalsSign := by decide
  have hq : Text.lineFeed ≠ Text.quote := by decide
  simp [Labels.labelText, h, he, hq, Text.lineFeed_notMem_escape]

theorem lineFeed_notMem_bodyText : ∀ (ls : Labels), (∀ l ∈ ls, Text.lineFeed ∉ l.name) →
    Text.lineFeed ∉ Labels.bodyText ls
  | [], _ => List.not_mem_nil
  | [l], h => lineFeed_notMem_labelText (h l List.mem_cons_self)
  | l :: l' :: ls, h => by
    have ih := lineFeed_notMem_bodyText (l' :: ls) (fun x hx => h x (List.mem_cons_of_mem l hx))
    have hc : Text.lineFeed ≠ Labels.comma := by decide
    rw [Labels.bodyText_cons l (List.cons_ne_nil l' ls), List.mem_append, List.mem_cons, not_or, not_or]
    exact ⟨lineFeed_notMem_labelText (h l List.mem_cons_self), hc, ih⟩

theorem lineFeed_notMem_labels {ls : Labels} (h : ∀ l ∈ ls, Text.lineFeed ∉ l.name) :
    Text.lineFeed ∉ ls.toText none := by
  have ho : Text.lineFeed ≠ openingBrace := by decide
  have hc : Text.lineFeed ≠ Labels.closingBrace := by decide
  rw [Labels.toText_none]
  simp [ho, hc, lineFeed_notMem_bodyText ls h]

theorem lineFeed_notMem_timestampText {t : Option Text} (h : ∀ u ∈ t, isNumeral u = true) :
    Text.lineFeed ∉ timestampText t := by
  have hs : Text.lineFeed ≠ space := by decide
  cases t with
  | none => exact List.not_mem_nil
  | some u => simp [timestampText, hs, lineFeed_notMem_numeral (h u rfl)]

theorem lineFeed_notMem_exemplarText {x : Option PlainExemplar} (h : ∀ e ∈ x, e.WellFormed) :
    Text.lineFeed ∉ exemplarText x := by
  have hm : Text.lineFeed ∉ exemplarMark := by decide
  have hs : Text.lineFeed ≠ space := by decide
  cases x with
  | none => exact List.not_mem_nil
  | some e =>
    have he := h e rfl
    have hl := lineFeed_notMem_labels fun l hl => lineFeed_notMem_name (he.labels l hl)
    simp [exemplarText, PlainExemplar.toText, hm, hs, hl, lineFeed_notMem_numeral he.value, lineFeed_notMem_timestampText he.timestamp]

theorem lineFeed_notMem_optionalLabelsText {ls : Labels} (h : ∀ l ∈ ls, Text.lineFeed ∉ l.name) :
    Text.lineFeed ∉ optionalLabelsText ls := by
  unfold optionalLabelsText
  split
  · exact List.not_mem_nil
  · exact lineFeed_notMem_labels h

/-- **A record stays on its line**, whatever its texts and label values hold. -/
theorem PlainRecord.lineFeed_notMem_toText {r : PlainRecord} (h : r.WellFormed) : Text.lineFeed ∉ r.toText := by
  have hs : Text.lineFeed ≠ space := by decide
  unfold PlainRecord.toText
  cases r with
  | type n w =>
    have hm : Text.lineFeed ∉ Text.ofString "# TYPE " := by decide
    simp [hm, hs, lineFeed_notMem_name h.1, lineFeed_notMem_numeral h.2.1]
  | unit n u =>
    have hm : Text.lineFeed ∉ Text.ofString "# UNIT " := by decide
    simp [hm, hs, lineFeed_notMem_name h, Text.lineFeed_notMem_escape]
  | help n u =>
    have hm : Text.lineFeed ∉ Text.ofString "# HELP " := by decide
    simp [hm, hs, lineFeed_notMem_name h, Text.lineFeed_notMem_escape]
  | sample s =>
    have hl := lineFeed_notMem_optionalLabelsText fun l hl => lineFeed_notMem_name (h.labels l hl)
    simp [PlainSample.toText, hs, hl, lineFeed_notMem_name h.series, lineFeed_notMem_numeral h.value,
      lineFeed_notMem_timestampText h.timestamp, lineFeed_notMem_exemplarText h.exemplar]

end Exposition
