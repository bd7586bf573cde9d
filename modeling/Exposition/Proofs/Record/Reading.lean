import Exposition.Proofs.Record.Line
/-!
# Reading lines — a well-formed record comes back from its line

The value of a sample ends at a space, and what stands behind it is told apart by its beginning: a time is a numeral, so
it is never taken for the mark of an exemplar (`readValue_append`).  Writing a line as UTF-8 replaces surrogates in the
record itself (`replaceSurrogates_toText`), and the record stays well-formed.
-/
namespace Exposition

open Text (isName isNumeral numberSign)

structure PlainExemplar.WellFormed (e : PlainExemplar) : Prop where
  labels : ∀ l ∈ e.labels, isName l.name = true
  value : isNumeral e.value = true
  timestamp : ∀ t ∈ e.timestamp, isNumeral t = true

structure PlainSample.WellFormed (s : PlainSample) : Prop where
  series : isName s.series = true
  labels : ∀ l ∈ s.labels, isName l.name = true
  value : isNumeral s.value = true
  timestamp : ∀ t ∈ s.timestamp, isNumeral t = true
  exemplar : ∀ e ∈ s.exemplar, e.WellFormed

/-- Names are names, values and times are numerals, and the word of a type needs no escape. -/
def PlainRecord.WellFormed : PlainRecord → Prop
  | type n w => isName n = true ∧ isNumeral w = true ∧ Text.backslash ∉ w
  | unit n _ => isName n = true
  | help n _ => isName n = true
  | sample s => s.WellFormed

/-! ## Metadata -/

theorem ne_space_of_notMem {t : Text} (h : space ∉ t) : ∀ c ∈ t, decide (c = space) = false := fun c hc =>
  decide_eq_false (fun e : c = space => h (e ▸ hc))

theorem readWord_append {t : Text} (h : space ∉ t) (rest : Text) : readWord (t ++ space :: rest) = (t, space :: rest) :=
  Text.splitAtFirst_append (ne_space_of_notMem h) (decide_eq_true rfl) rest

theorem readWord_all {t : Text} (h : space ∉ t) : readWord t = (t, []) :=
  Text.splitAtFirst_all (ne_space_of_notMem h)

theorem after?_space (rest : Text) : Text.after? [space] (space :: rest) = some rest := Text.after?_append [space] rest

theorem readNameAndText?_append (make : Text → Text → PlainRecord) {n t u : Text} (hn : isName n = true)
    (ht : Text.unescape? t = some u) : readNameAndText? make (n ++ space :: t) = some (make n u) := by
  unfold readNameAndText?
  simp only
  rw [readWord_append (Text.notMem_of_isName hn (by decide)), ofString_space, after?_space]
  simp only
  rw [ht]
  rfl

/-! ## Samples -/

theorem after?_exemplarMark (rest : Text) : Text.after? exemplarMark (exemplarMark ++ rest) = some rest :=
  Text.after?_append exemplarMark rest

theorem after?_exemplarMark_of_ne {t : Text} (h : ∀ r, t ≠ numberSign :: r) :
    Text.after? exemplarMark (space :: t) = none := by
  cases t with
  | nil => decide
  | cons c r =>
    have hc : numberSign ≠ c := by
      rintro rfl
      exact h r rfl
    show Text.after? (space :: numberSign :: [space]) (space :: c :: r) = none
    rw [Text.after?, if_pos rfl, Text.after?, if_neg hc]

theorem exemplarText_cases (x : Option PlainExemplar) :
    exemplarText x = [] ∨ ∃ r, exemplarText x = exemplarMark ++ r := by
  cases x with
  | none => exact .inl rfl
  | some e => exact .inr ⟨_, rfl⟩

/-- **A value and a time are told apart from the exemplar behind them.** -/
theorem readValue_append {value : Text} {timestamp : Option Text} (hv : isNumeral value = true)
    (ht : ∀ t ∈ timestamp, isNumeral t = true) {rest : Text} (hr : rest = [] ∨ ∃ r, rest = exemplarMark ++ r) :
    readValue (value ++ (timestampText timestamp ++ rest)) = (value, timestamp, rest) := by
  have hspace : space ∉ value := Text.notMem_of_isNumeral hv (by decide)
  unfold readValue
  simp only
  rw [ofString_space, ofString_exemplarMark]
  cases timestamp with
  | none =>
    rcases hr with rfl | ⟨r, rfl⟩
    · simp only [timestampText, List.append_nil]
      rw [readWord_all hspace]
      rfl
    · have hw : readWord (value ++ (timestampText none ++ (exemplarMark ++ r))) = (value, exemplarMark ++ r) :=
        readWord_append hspace (numberSign :: space :: r)
      rw [hw, after?_exemplarMark]
  | some t =>
    have hnum : isNumeral t = true := ht t rfl
    have htspace : space ∉ t := Text.notMem_of_isNumeral hnum (by decide)
    have hnone : Text.after? exemplarMark (space :: (t ++ rest)) = none := by
      refine after?_exemplarMark_of_ne (fun r' e => ?_)
      cases t with
      | nil =>
        rcases hr with rfl | ⟨r, rfl⟩
        · cases e
        · have h1 : space = numberSign := (List.cons.inj e).1
          exact absurd h1 (by decide)
      | cons c t' =>
        have h1 : c = numberSign := (List.cons.inj e).1
        exact Text.notMem_of_isNumeral hnum (by decide : Text.isFigure numberSign = false) (h1 ▸ List.mem_cons_self)
    have hw : readWord (value ++ (timestampText (some t) ++ rest)) = (value, space :: (t ++ rest)) :=
      readWord_append hspace (t ++ rest)
    have hword : readWord (t ++ rest) = (t, rest) := by
      rcases hr with rfl | ⟨r, rfl⟩
      · rw [List.append_nil]
        exact readWord_all htspace
      · exact readWord_append htspace (numberSign :: space :: r)
    rw [hw, hnone, after?_space]
    simp only
    rw [hword]

theorem labelNames_clear {ls : Labels} (h : ∀ l ∈ ls, isName l.name = true) :
    ∀ l ∈ ls, Labels.equalsSign ∉ l.name ∧ Labels.closingBrace ∉ l.name := fun l hl =>
  ⟨Text.notMem_of_isName (h l hl) (by decide), Text.notMem_of_isName (h l hl) (by decide)⟩

theorem readExemplar?_exemplarText {x : Option PlainExemplar} (h : ∀ e ∈ x, e.WellFormed) :
    readExemplar? (exemplarText x) = some x := by
  cases x with
  | none => rfl
  | some e =>
    have he := h e rfl
    have hne : ¬ exemplarMark ++ (e.labels.toText none ++ space :: (e.value ++ timestampText e.timestamp)) = [] :=
      List.cons_ne_nil _ _
    have hv := readValue_append he.value he.timestamp (.inl rfl : ([] : Text) = [] ∨ _)
    rw [List.append_nil] at hv
    unfold readExemplar? exemplarText PlainExemplar.toText
    rw [if_neg hne, ofString_exemplarMark, after?_exemplarMark]
    simp only
    rw [Labels.read?_toText (labelNames_clear he.labels)]
    simp only
    rw [ofString_space, after?_space]
    simp only
    rw [hv]
    simp only
    rw [if_pos trivial]

theorem readOptionalLabels?_append {ls : Labels} (h : ∀ l ∈ ls, isName l.name = true) (rest : Text) :
    readOptionalLabels? (optionalLabelsText ls ++ space :: rest) = some (ls, space :: rest) := by
  cases ls with
  | nil =>
    have hs : ¬ space = openingBrace := by decide
    show (if space = openingBrace then Labels.read? (space :: rest) else some ([], space :: rest)) = _
    rw [if_neg hs]
  | cons l ls =>
    have hr := Labels.read?_toText (labelNames_clear h) (space :: rest)
    rw [Labels.toText_none, List.cons_append] at hr
    unfold optionalLabelsText readOptionalLabels?
    rw [List.isEmpty_cons, if_neg (by decide), Labels.toText_none, List.cons_append]
    simp only
    rw [if_pos trivial, hr]

theorem optionalLabelsText_append_head (ls : Labels) (rest : Text) :
    ∃ c r, optionalLabelsText ls ++ space :: rest = c :: r ∧ (c = space ∨ c = openingBrace) := by
  cases ls with
  | nil => exact ⟨space, rest, rfl, .inl rfl⟩
  | cons l ls =>
    refine ⟨openingBrace, Labels.bodyText (l :: ls) ++ [Labels.closingBrace] ++ space :: rest, ?_, .inr rfl⟩
    unfold optionalLabelsText
    rw [List.isEmpty_cons, if_neg (by decide), Labels.toText_none]
    rfl

/-- **A sample is read back from its line.** -/
theorem PlainSample.read?_toText {s : PlainSample} (h : s.WellFormed) : PlainSample.read? s.toText = some s := by
  let tail := s.value ++ (timestampText s.timestamp ++ exemplarText s.exemplar)
  obtain ⟨c, r, hr, hc⟩ := optionalLabelsText_append_head s.labels tail
  have hseries : ∀ c ∈ s.series, (fun c => decide (c = space) || decide (c = openingBrace)) c = false := by
    intro c hc
    have h1 : c ≠ space := by
      rintro rfl
      exact Text.notMem_of_isName h.series (by decide) hc
    have h2 : c ≠ openingBrace := by
      rintro rfl
      exact Text.notMem_of_isName h.series (by decide) hc
    simp [h1, h2]
  have hstop : (fun c => decide (c = space) || decide (c = openingBrace)) c = true := by
    rcases hc with rfl | rfl
    · rfl
    · rfl
  have hsplit : s.toText.splitAtFirst (fun c => c = space || c = openingBrace) =
      (s.series, optionalLabelsText s.labels ++ space :: tail) := by
    have hs := Text.splitAtFirst_append hseries hstop r
    rw [← hr] at hs
    exact hs
  have hv := readValue_append h.value h.timestamp (exemplarText_cases s.exemplar)
  unfold PlainSample.read?
  simp only
  rw [hsplit, readOptionalLabels?_append h.labels]
  simp only
  rw [ofString_space, after?_space]
  simp only
  rw [hv]
  simp only
  rw [readExemplar?_exemplarText h.exemplar]
  rfl

/-- A sample does not begin like metadata. -/
theorem PlainSample.head_toText {s : PlainSample} (h : s.WellFormed) :
    ∃ c r, s.toText = c :: r ∧ c ≠ numberSign := by
  unfold PlainSample.toText
  cases hn : s.series with
  | nil =>
    obtain ⟨c, r, hr, hc⟩ := optionalLabelsText_append_head s.labels
      (s.value ++ (timestampText s.timestamp ++ exemplarText s.exemplar))
    refine ⟨c, r, by rw [List.nil_append, hr], ?_⟩
    rcases hc with rfl | rfl
    · decide
    · decide
  | cons c r =>
    refine ⟨c, _, rfl, fun e => ?_⟩
    have hname := h.series
    rw [hn] at hname
    exact Text.notMem_of_isName hname (by decide : numberSign ∈ Text.reserved) (e ▸ List.mem_cons_self)

/-- **A well-formed record is read back from its line.** -/
theorem PlainRecord.read?_toText {r : PlainRecord} (h : r.WellFormed) : PlainRecord.read? r.toText = some r := by
  unfold PlainRecord.read? PlainRecord.toText
  cases r with
  | type n w =>
    obtain ⟨hn, -, hw⟩ := h
    simp only
    rw [Text.after?_append]
    exact readNameAndText?_append .type hn (Text.unescape?_of_notMem w hw)
  | unit n u =>
    have h1 : ∀ t : Text, Text.after? (Text.ofString "# TYPE ") (Text.ofString "# UNIT " ++ t) = none := fun _ => rfl
    simp only
    rw [h1, Text.after?_append]
    exact readNameAndText?_append .unit h (Text.unescape?_escape u)
  | help n u =>
    have h1 : ∀ t : Text, Text.after? (Text.ofString "# TYPE ") (Text.ofString "# HELP " ++ t) = none := fun _ => rfl
    have h2 : ∀ t : Text, Text.after? (Text.ofString "# UNIT ") (Text.ofString "# HELP " ++ t) = none := fun _ => rfl
    simp only
    rw [h1, h2, Text.after?_append]
    exact readNameAndText?_append .help h (Text.unescape?_escape u)
  | sample s =>
    obtain ⟨c, r, hr, hc⟩ := PlainSample.head_toText h
    have hnone : ∀ w : Text, Text.after? (numberSign :: w) s.toText = none := by
      intro w
      rw [hr, Text.after?, if_neg (Ne.symm hc)]
    have h1 : Text.after? (Text.ofString "# TYPE ") s.toText = none := hnone _
    have h2 : Text.after? (Text.ofString "# UNIT ") s.toText = none := hnone _
    have h3 : Text.after? (Text.ofString "# HELP ") s.toText = none := hnone _
    simp only
    rw [h1, h2, h3]
    simp only
    rw [PlainSample.read?_toText h]
    rfl

end Exposition
