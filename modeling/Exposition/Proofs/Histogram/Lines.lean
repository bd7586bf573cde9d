import Exposition.Proofs.Binary64.Values
import Exposition.Proofs.Histogram.Totals
/-!
# Lines — what a classic histogram says of each bucket

The line of a bucket shows how many observations lie in it and before it, and carries the first exemplar in its range
(`HistogramPoint.IsLineOf`).  Where the bounds ascend strictly to the infinite one, the ranges leave nothing out but what
lies below them all and what is no number, and do not overlap; so an exemplar has one line to stand on, and stands there
unless an earlier one does (`HistogramPoint.samples_lines`).
-/
namespace Exposition

namespace Exemplars

/-- The first exemplar whose value lies where `P` says, or none where no exemplar's does. -/
def IsFirst (es : Exemplars) (P : Number → Prop) : Option Exemplar → Prop
  | none => ∀ e ∈ es, ¬P e.value
  | some e => P e.value ∧ ∃ before after, es = before ++ e :: after ∧ ∀ d ∈ before, ¬P d.value

theorem isFirst_within? (es : Exemplars) (lower upper : Number) :
    es.IsFirst (Number.InRange lower upper) (es.within? lower upper) := by
  unfold within?
  cases h : es.find? (fun e => Number.within lower upper e.value) with
  | none =>
    intro e he hin
    exact List.find?_eq_none.1 h e he (Number.within_iff.2 hin)
  | some e =>
    obtain ⟨hin, before, after, hes, hbefore⟩ := List.find?_eq_some_iff_append.1 h
    refine ⟨Number.within_iff.1 hin, before, after, hes, fun d hd hin => ?_⟩
    have hnot := hbefore d hd
    rw [Number.within_iff.2 hin] at hnot
    cases hnot

theorem IsFirst.congr {es : Exemplars} {P Q : Number → Prop} (h : ∀ v, P v ↔ Q v) {e? : Option Exemplar}
    (he : es.IsFirst P e?) : es.IsFirst Q e? := by
  have hPQ : P = Q := funext fun v => propext (h v)
  exact hPQ ▸ he

theorem IsFirst.ne_none_iff {es : Exemplars} {P : Number → Prop} {e? : Option Exemplar} (h : es.IsFirst P e?) :
    e? ≠ none ↔ ∃ e ∈ es, P e.value := by
  cases e? with
  | none => exact iff_of_false (fun h => h rfl) fun ⟨e, he, hP⟩ => h e he hP
  | some e =>
    obtain ⟨hP, before, after, rfl, -⟩ := h
    exact iff_of_true (fun h => nomatch h) ⟨e, List.mem_append_right before List.mem_cons_self, hP⟩

end Exemplars

/-! ## Ranges between ascending values -/

/-- The value before place `i` of a list of values, the first one having the least of all before it. -/
def valueBefore (xs : List ExactValue) : Nat → ExactValue
  | 0 => ⊥
  | i + 1 => xs[i]?.getD ⊥

/-- Whether a value lies above the one before place `i`, and not above the one that is there. -/
def IsAt (xs : List ExactValue) (x : ExactValue) (i : Nat) : Prop :=
  ∃ u, xs[i]? = some u ∧ valueBefore xs i < x ∧ x ≤ u

theorem not_isAt_of_lt {xs : List ExactValue} (hsorted : xs.Pairwise (· < ·)) {x : ExactValue} {i j : Nat} (hij : i < j)
    (hi : IsAt xs x i) : ¬IsAt xs x j := by
  rintro ⟨w, hw, hbefore, -⟩
  obtain ⟨u, hu, -, hxu⟩ := hi
  obtain ⟨hj, -⟩ := List.getElem?_eq_some_iff.1 hw
  obtain ⟨hlt, rfl⟩ := List.getElem?_eq_some_iff.1 hu
  obtain ⟨k, rfl⟩ := Nat.exists_eq_add_of_lt hij
  have hk : i + k < xs.length := by omega
  rw [valueBefore, List.getElem?_eq_getElem hk, Option.getD_some] at hbefore
  have hle : xs[i] ≤ xs[i + k] := by
    rcases Nat.eq_zero_or_pos k with rfl | hpos
    · exact le_rfl
    · exact (List.pairwise_iff_getElem.1 hsorted i (i + k) hlt hk (by omega)).le
  exact absurd (hbefore.trans_le (hxu.trans hle)) (lt_irrefl _)

theorem exists_isAt {xs : List ExactValue} (hlast : xs.getLast? = some ⊤) {x : ExactValue} (hx : ⊥ < x) :
    ∃ i, IsAt xs x i := by
  classical
  have hex : ∃ i u, xs[i]? = some u ∧ x ≤ u := ⟨xs.length - 1, ⊤, by rw [← List.getLast?_eq_getElem?, hlast], le_top⟩
  obtain ⟨u, hu, hxu⟩ := Nat.find_spec hex
  refine ⟨Nat.find hex, u, hu, ?_, hxu⟩
  cases hi : Nat.find hex with
  | zero => exact hx
  | succ k =>
    obtain ⟨hlt, -⟩ := List.getElem?_eq_some_iff.1 hu
    have hk : k < xs.length := by omega
    rw [valueBefore, List.getElem?_eq_getElem hk, Option.getD_some]
    exact not_le.1 fun hle => Nat.find_min hex (by omega) ⟨_, List.getElem?_eq_getElem hk, hle⟩

theorem isAt_unique {xs : List ExactValue} (hsorted : xs.Pairwise (· < ·)) {x : ExactValue} {i j : Nat}
    (hi : IsAt xs x i) (hj : IsAt xs x j) : i = j := by
  rcases Nat.lt_trichotomy i j with h | h | h
  · exact absurd hj (not_isAt_of_lt hsorted h hi)
  · exact h
  · exact absurd hi (not_isAt_of_lt hsorted h hj)

/-- **Ranges between values that ascend to the greatest one are a partition of what lies above the least.** -/
theorem existsUnique_isAt {xs : List ExactValue} (hsorted : xs.Pairwise (· < ·)) (hlast : xs.getLast? = some ⊤)
    {x : ExactValue} (hx : ⊥ < x) : ∃! i, IsAt xs x i := by
  obtain ⟨i, hi⟩ := exists_isAt hlast hx
  exact ⟨i, hi, fun j hj => isAt_unique hsorted hj hi⟩

/-- The bound before bucket `i` of `bs`, if `lower` is the one before them all. -/
def Bucket.boundBefore (lower : Number) (bs : List Bucket) : Nat → Number
  | 0 => lower
  | i + 1 => (bs[i]?.map upperBound).getD lower

namespace HistogramPoint

variable {family : Text} {p : HistogramPoint}

/-! ## The lines of the buckets -/

/-- The sample of a bucket, `total` observations being in it and before it. -/
def bucketSample (family : Text) (p : HistogramPoint) (total : Int) (lower : Number) (b : Bucket) : Sample :=
  { family, suffix := some "_bucket", labels := p.labels, added := some (.bound b.upperBound)
    value := .count total, timestamp := p.scrape
    exemplar := p.exemplars.within? lower b.upperBound }

theorem length_bucketSamples : ∀ (bs : List Bucket) (below : Int) (lower : Number),
    (p.bucketSamples family below lower bs).length = bs.length
  | [], _, _ => rfl
  | _ :: bs, _, _ => congrArg (· + 1) (length_bucketSamples bs _ _)

theorem bucketSamples_getElem? : ∀ {bs : List Bucket} {i : Nat} {b : Bucket} (below : Int) (lower : Number),
    bs[i]? = some b → (p.bucketSamples family below lower bs)[i]? =
      some (p.bucketSample family (below + Bucket.total (bs.take (i + 1))) (Bucket.boundBefore lower bs i) b)
  | [], _, _, _, _, h => by cases h
  | c :: _, 0, _, below, lower, h => by
    cases h
    show some _ = some (bucketSample family p (below + (c.count + 0)) lower c)
    rw [Int.add_zero]
    rfl
  | c :: bs, i + 1, b, below, lower, h => by
    have hbound : Bucket.boundBefore lower (c :: bs) (i + 1) = Bucket.boundBefore c.upperBound bs i := by
      cases i with
      | zero => rfl
      | succ k =>
        obtain ⟨hlt, -⟩ := List.getElem?_eq_some_iff.1 h
        have hk : k < bs.length := by
          rw [List.length_cons] at hlt
          omega
        rw [Bucket.boundBefore, Bucket.boundBefore, List.getElem?_cons_succ, List.getElem?_eq_getElem hk]
        rfl
    have htotal : below + c.count + Bucket.total (bs.take (i + 1)) = below + Bucket.total ((c :: bs).take (i + 2)) :=
      Int.add_assoc ..
    rw [List.getElem?_cons_succ] at h
    rw [bucketSamples, List.getElem?_cons_succ, bucketSamples_getElem? _ _ h, hbound, htotal]

/-- The observations in bucket `i` and in those before it. -/
def totalUpTo (p : HistogramPoint) (i : Nat) : Int := Bucket.total (p.buckets.take (i + 1))

/-- Whether a number lies above the bound before bucket `i`, and not above its own. -/
def Covers (p : HistogramPoint) (i : Nat) (v : Number) : Prop :=
  ∃ b, p.buckets[i]? = some b ∧ Number.InRange (Bucket.boundBefore (.float (.infinite true)) p.buckets i) b.upperBound v

/-- The line of bucket `i`.  It shows its bound and the total up to it, and carries the first exemplar in its range.  A bound
that has no text leaves nothing of it, and a total that has none ends it there. -/
structure IsLineOf (s : Sample) (family : Text) (p : HistogramPoint) (i : Nat) (b : Bucket) : Prop where
  text : ∀ le total, b.upperBound.toText = .ok le → countText (p.totalUpTo i) = .ok total →
    s.emission.text = seriesText family (some "_bucket") p.labels (some ⟨"le", le⟩) ++ total ++
      (lineEnd p.scrape s.exemplar).text
  bound : ∀ f, b.upperBound.toText = .error f → s.emission = .ofFault f
  total : ∀ le f, b.upperBound.toText = .ok le → countText (p.totalUpTo i) = .error f →
    s.emission = ⟨seriesPieces family (some "_bucket") p.labels (some ⟨"le", le⟩), some f⟩
  exemplar : p.exemplars.IsFirst (p.Covers i) s.exemplar

theorem additional_bucketSample (family : Text) (p : HistogramPoint) (total : Int) (lower : Number) (b : Bucket) :
    (p.bucketSample family total lower b).additional = b.upperBound.toText.map (fun le => some ⟨"le", le⟩) := by
  show (b.upperBound.toText.map (Label.mk "le")).map some = _
  cases b.upperBound.toText with
  | ok le => rfl
  | error f => rfl

theorem emission_bucketSample {total : Int} {lower : Number} {b : Bucket} {le : Text}
    (h : b.upperBound.toText = .ok le) :
    (p.bucketSample family total lower b).emission =
      .ofPieces (seriesPieces family (some "_bucket") p.labels (some ⟨"le", le⟩)) ++ .ofExcept (countText total) ++
        lineEnd p.scrape (p.bucketSample family total lower b).exemplar := by
  rw [Sample.emission, additional_bucketSample, h]
  rfl

theorem isLineOf_bucketSample {i : Nat} {b : Bucket} (hb : p.buckets[i]? = some b) :
    IsLineOf (p.bucketSample family (p.totalUpTo i) (Bucket.boundBefore (.float (.infinite true)) p.buckets i) b)
      family p i b := by
  constructor
  case text =>
    intro le total hle htotal
    obtain ⟨hf, ht⟩ := text_ofExcept htotal
    have hnone : (Emission.ofPieces (seriesPieces family (some "_bucket") p.labels (some ⟨"le", le⟩)) ++
        Emission.ofExcept (countText (p.totalUpTo i))).fault = none := by rw [Emission.fault_append_of_none rfl, hf]
    rw [emission_bucketSample hle, Emission.text_append_of_none hnone, Emission.text_append_of_none rfl, ht]
    rfl
  case bound =>
    intro f hf
    rw [Sample.emission, additional_bucketSample, hf]
    rfl
  case total =>
    intro le f hle hf
    rw [emission_bucketSample hle, hf, Emission.append_of_fault (f := f) rfl]
    exact congrArg (Emission.mk · _) (List.append_nil _)
  case exemplar =>
    refine (p.exemplars.isFirst_within? _ b.upperBound).congr fun v => ?_
    constructor
    · exact fun hv => ⟨b, hb, hv⟩
    · rintro ⟨c, hc, hv⟩
      rw [hb] at hc
      cases hc
      exact hv

/-- **Where no bucket counts less than nothing, the totals never decrease.** -/
theorem totalUpTo_mono (hcounts : ∀ b ∈ p.buckets, 0 ≤ b.count) : Monotone p.totalUpTo := by
  apply monotone_nat_of_le_succ
  intro i
  rw [totalUpTo, totalUpTo, List.take_add_one (i := i + 1), Bucket.total_append]
  cases hb : p.buckets[i + 1]? with
  | none => exact (Int.add_zero _).ge
  | some b =>
    have hcount : 0 ≤ b.count := hcounts b (List.mem_of_getElem? hb)
    show _ ≤ _ + (b.count + 0)
    omega

theorem exemplar_otherSamples (withCreated isGauge : Bool) (family : Text) (p : HistogramPoint) :
    ∀ s ∈ p.otherSamples withCreated isGauge family, s.exemplar = none := by
  intro s hs
  rcases List.mem_append.1 hs with hs | hs
  · split at hs
    · rw [countAndSumSamples_eq] at hs
      rcases List.mem_append.1 hs with hs | hs
      · split at hs
        · cases hs
        · rw [List.mem_singleton.1 hs]
          rfl
      · split at hs
        · cases hs
        · rw [List.mem_singleton.1 hs]
          exact ite_self _
    · cases hs
  · unfold createdSamples at hs
    split at hs
    · rw [List.mem_singleton.1 hs]
    · cases hs

/-! ## Ascending bounds -/

/-- Bounds that are numbers, ascend strictly, and end with the infinite one. -/
def Ascends (p : HistogramPoint) : Prop :=
  ∃ xs : List ExactValue, p.buckets.map (·.upperBound.value?) = xs.map some ∧ xs.Pairwise (· < ·) ∧ xs.getLast? = some ⊤

theorem value?_of_getElem? {xs : List ExactValue} (hxs : p.buckets.map (·.upperBound.value?) = xs.map some) (i : Nat) :
    (p.buckets[i]?).map (·.upperBound.value?) = (xs[i]?).map some := by
  rw [← List.getElem?_map, ← List.getElem?_map, hxs]

theorem value?_boundBefore {xs : List ExactValue} (hxs : p.buckets.map (·.upperBound.value?) = xs.map some) (i : Nat) :
    (Bucket.boundBefore (.float (.infinite true)) p.buckets i).value? = some (valueBefore xs i) := by
  cases i with
  | zero => rfl
  | succ i =>
    have h := value?_of_getElem? hxs i
    rw [Bucket.boundBefore, valueBefore]
    cases hb : p.buckets[i]? with
    | none =>
      rw [hb, Option.map_none] at h
      rw [Option.map_eq_none_iff.1 h.symm]
      rfl
    | some b =>
      rw [hb, Option.map_some] at h
      obtain ⟨x, hx, hbx⟩ := Option.map_eq_some_iff.1 h.symm
      rw [hx]
      exact hbx.symm

theorem covers_iff {xs : List ExactValue} (hxs : p.buckets.map (·.upperBound.value?) = xs.map some) {i : Nat} {v : Number}
    {x : ExactValue} (hv : v.value? = some x) : p.Covers i v ↔ IsAt xs x i := by
  have h := value?_of_getElem? hxs i
  constructor
  · rintro ⟨b, hb, l, u, x', hl, hu, hx', hlx, hxu⟩
    rw [hv] at hx'
    cases hx'
    rw [value?_boundBefore hxs] at hl
    cases hl
    rw [hb, Option.map_some, hu] at h
    obtain ⟨w, hw, hwu⟩ := Option.map_eq_some_iff.1 h.symm
    cases hwu
    exact ⟨_, hw, hlx, hxu⟩
  · rintro ⟨u, hu, hlx, hxu⟩
    rw [hu, Option.map_some] at h
    obtain ⟨b, hb, hbu⟩ := Option.map_eq_some_iff.1 h
    exact ⟨b, hb, _, u, x, value?_boundBefore hxs i, hbu, hv, hlx, hxu⟩

theorem bot_lt_value {v : Number} {x : ExactValue} (hv : v.value? = some x) (hbot : v ≠ .float (.infinite true)) :
    ⊥ < x := by
  rw [WithBot.bot_lt_iff_ne_bot]
  rintro rfl
  cases v with
  | int n => cases hv
  | float y =>
    cases y with
    | nan => cases hv
    | infinite s =>
      cases s with
      | true => exact hbot rfl
      | false => cases hv
    | finite s r => cases hv

theorem existsUnique_covers (hp : p.Ascends) {v : Number} (hnan : v ≠ .float .nan) (hbot : v ≠ .float (.infinite true)) :
    ∃! i, p.Covers i v := by
  obtain ⟨xs, hxs, hsorted, hlast⟩ := hp
  have hx : v.value? ≠ none := by
    cases v with
    | int n => exact fun h => nomatch h
    | float y => exact fun h => hnan (congrArg Number.float (Binary64.value?_eq_none.1 h))
  obtain ⟨x, hx⟩ := Option.ne_none_iff_exists'.1 hx
  obtain ⟨i, hi, hunique⟩ := existsUnique_isAt hsorted hlast (bot_lt_value hx hbot)
  exact ⟨i, (covers_iff hxs hx).2 hi, fun j hj => hunique j ((covers_iff hxs hx).1 hj)⟩

theorem covers_unique (hp : p.Ascends) {i j : Nat} {v : Number} (hi : p.Covers i v) (hj : p.Covers j v) : i = j := by
  obtain ⟨xs, hxs, hsorted, -⟩ := hp
  obtain ⟨b, -, l, u, x, -, -, hx, -⟩ := id hi
  exact isAt_unique hsorted ((covers_iff hxs hx).1 hi) ((covers_iff hxs hx).1 hj)

/-- **A classic histogram has one line for each bucket.**  It is `IsLineOf` that bucket, and no line behind those of the
buckets carries an exemplar.  Without negative counts the lines never show less than those before them.  On bounds that
ascend strictly to the infinite one, a number that is not the least of all lies in the range of exactly one bucket, a
line carries an exemplar if one lies in its range, and no two lines carry the same. -/
theorem samples_lines (withCreated isGauge : Bool) (family : Text) (p : HistogramPoint) :
    ∃ lines others, p.samples withCreated isGauge family = lines ++ others ∧ lines.length = p.buckets.length ∧
      (∀ i b s, p.buckets[i]? = some b → lines[i]? = some s → IsLineOf s family p i b) ∧
      (∀ s ∈ others, s.suffix ≠ some ("_bucket" : Text) ∧ s.exemplar = none) ∧
      ((∀ b ∈ p.buckets, 0 ≤ b.count) → Monotone p.totalUpTo) ∧
      (p.Ascends →
        (∀ v : Number, v ≠ .float .nan → v ≠ .float (.infinite true) → ∃! i, p.Covers i v) ∧
        (∀ i s, lines[i]? = some s → (s.exemplar ≠ none ↔ ∃ e ∈ p.exemplars, p.Covers i e.value)) ∧
        ∀ (i j : Nat) (s t : Sample) e, lines[i]? = some s → lines[j]? = some t → s.exemplar = some e →
          t.exemplar = some e → i = j) ∧
      ∀ (f : Family) ps, f.metadata.name = family → f.points = .histogram isGauge ps → p ∈ ps →
        ∃ rs, f.records withCreated = .ok rs ∧ (lines ++ others).map Record.sample <:+: rs := by
  let lines := p.bucketSamples family 0 (.float (.infinite true)) p.buckets
  have hlength : lines.length = p.buckets.length := length_bucketSamples _ _ _
  have hline : ∀ i b s, p.buckets[i]? = some b → lines[i]? = some s → IsLineOf s family p i b := by
    intro i b s hb hs
    rw [bucketSamples_getElem? 0 (.float (.infinite true)) hb, Int.zero_add] at hs
    cases hs
    exact isLineOf_bucketSample hb
  have hfirst : ∀ i s, lines[i]? = some s → p.exemplars.IsFirst (p.Covers i) s.exemplar := by
    intro i s hs
    obtain ⟨hlt, -⟩ := List.getElem?_eq_some_iff.1 hs
    exact (hline i _ s (List.getElem?_eq_getElem (hlength ▸ hlt)) hs).exemplar
  refine ⟨lines, p.otherSamples withCreated isGauge family, rfl, hlength, hline, ?_, totalUpTo_mono, ?_, ?_⟩
  · intro s hs
    exact ⟨suffix_otherSamples withCreated isGauge family p s hs, exemplar_otherSamples withCreated isGauge family p s hs⟩
  · intro hp
    refine ⟨fun v hnan hbot => existsUnique_covers hp hnan hbot, fun i s hs => (hfirst i s hs).ne_none_iff, ?_⟩
    intro i j s t e hs ht hse hte
    have hi := hfirst i s hs
    have hj := hfirst j t ht
    rw [hse] at hi
    rw [hte] at hj
    exact covers_unique hp hi.1 hj.1
  · rintro f ps rfl hf hp
    refine ⟨f.histogramBlock withCreated isGauge ps, ?_, infix_histogramBlock f withCreated isGauge hp⟩
    rw [Family.records, hf]

/-- A bound that is no double, with one exemplar at it and one beyond it that differ by one. -/
def besideABound : HistogramPoint where
  buckets := [⟨.int 9007199254740993, 2⟩, ⟨.float (.infinite false), 3⟩]
  labels := []
  count := some 5
  sum := some (.int 7)
  exemplars := [⟨.int 9007199254740994, [], none⟩, ⟨.int 9007199254740993, [], none⟩]
  created := none
  scrape := none

theorem ascends_besideABound : besideABound.Ascends := by
  refine ⟨[((9007199254740993 : ℚ) : WithTop ℚ), ⊤], rfl, ?_, rfl⟩
  refine List.pairwise_pair.2 (WithBot.coe_lt_coe.2 ?_)
  exact WithTop.coe_lt_top _

/-- The exemplar that comes first and is beyond the bound stands on the second line, and the one at the bound on the first:
neither it nor the bound is rounded. -/
theorem samples_lines_besideABound :
    let family : Family := ⟨⟨"power", none, none⟩, .histogram false [besideABound]⟩
    ∃ lines others rs, besideABound.samples false false "power" = lines ++ others ∧
      Monotone besideABound.totalUpTo ∧
      (∀ i, besideABound.Covers i (.int 9007199254740994) ↔ i = 1) ∧
      (∃ s t : Sample, lines = [s, t] ∧ s.exemplar = some ⟨.int 9007199254740993, [], none⟩ ∧
        t.exemplar = some ⟨.int 9007199254740994, [], none⟩) ∧
      family.records false = .ok rs ∧ (lines ++ others).map Record.sample <:+: rs := by
  intro family
  obtain ⟨lines, others, hsamples, hlength, -, -, hmono, hascends, hrecords⟩ :=
    samples_lines false false "power" besideABound
  have hcounts : ∀ b ∈ besideABound.buckets, 0 ≤ b.count := by decide
  obtain ⟨hunique, -, -⟩ := hascends ascends_besideABound
  obtain ⟨rs, hrs, hinfix⟩ := hrecords family [besideABound] rfl rfl List.mem_cons_self
  have hcovers : besideABound.Covers 1 (.int 9007199254740994) :=
    ⟨_, rfl, Number.within_iff.1 (by decide +kernel)⟩
  refine ⟨lines, others, rs, hsamples, hmono hcounts, fun i => ?_, ?_, hrs, hinfix⟩
  · obtain ⟨j, -, hj⟩ := hunique (.int 9007199254740994) (by decide) (by decide)
    constructor
    · exact fun hi => (hj i hi).trans (hj 1 hcovers).symm
    · rintro rfl
      exact hcovers
  · obtain ⟨s, t, rfl⟩ := List.length_eq_two.1 hlength
    have hs : some s = (besideABound.samples false false "power")[0]? := by rw [hsamples]; rfl
    have ht : some t = (besideABound.samples false false "power")[1]? := by rw [hsamples]; rfl
    refine ⟨s, t, rfl, ?_, ?_⟩
    · cases hs
      decide +kernel
    · cases ht
      decide +kernel

end HistogramPoint
end Exposition
