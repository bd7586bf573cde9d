import Exposition.Proofs.Document.Failures
import Exposition.Proofs.Family.Groups
import Exposition.Proofs.Histogram.WholeExponents
/-!
# Top buckets — which legitimate native histograms are converted

A native histogram is *legitimate* if its schema lies in the standard range from −4 to 8 and each of its buckets covers a
finite double, so that an observation may have been counted there.  In each of these schemas one bucket ends at `2 ^ 1024`
exactly; it covers the largest doubles (`covers_topIndex`), but its bound is too large (`upperBound_topIndex`).  No other
bound fails, that of the negative bucket with the same index among them, since a negative bucket is bounded where it begins.
So a legitimate histogram is converted if and only if it has no positive bucket there (`NativePoint.toClassic_legitimate`).
-/
namespace Exposition

open Binary64

namespace Native

/-! ## What a bucket covers -/

/-- The base of the buckets of a schema. -/
noncomputable def base (schema : Int) : ℝ := ((2 : Nat) : ℝ) ^ ((2 ^ (-schema) : ℚ) : ℝ)

/-- Positive bucket `index` covers what lies above one power of the base and not above the next. -/
def Covers (schema index : Int) (q : ℚ) : Prop := base schema ^ (index - 1) < q ∧ (q : ℝ) ≤ base schema ^ index

/-- Negative bucket `index` covers the mirror image of what the positive one does. -/
def CoversMirrored (schema index : Int) (q : ℚ) : Prop :=
  -base schema ^ index ≤ q ∧ (q : ℝ) < -base schema ^ (index - 1)

/-- The index of the positive bucket that ends at `2 ^ 1024`. -/
def topIndex (schema : Int) : Int := 2 ^ (schema + 10).toNat

variable {schema index : Int}

theorem base_zpow (schema index : Int) : base schema ^ index = 2 ^ (((index / 2 ^ schema : ℚ)) : ℝ) := by
  rw [base, Nat.cast_ofNat, ← Real.rpow_intCast, ← Real.rpow_mul zero_le_two, zpow_neg, div_eq_inv_mul, Rat.cast_mul,
    Rat.cast_intCast]

theorem base_zpow_pos (schema index : Int) : 0 < base schema ^ index := by
  rw [base_zpow]
  exact Real.rpow_pos_of_pos two_pos _

theorem coversMirrored_iff {q : ℚ} : CoversMirrored schema index q ↔ Covers schema index (-q) := by
  rw [CoversMirrored, Covers, Rat.cast_neg, lt_neg, neg_le, and_comm]

/-- The exponents of a bucket that covers a finite double. -/
theorem Covers.exponents {s : Bool} {r : Fin rankLimit} (h : Covers schema index (signedValue s (magnitude r.val))) :
    (-1074 : ℚ) ≤ index / 2 ^ schema ∧ ((index - 1 : Int) : ℚ) / 2 ^ schema < 1024 := by
  obtain ⟨hlower, hupper⟩ := h
  have hnonneg := magnitude_nonneg r.val
  have hpos : (0 : ℝ) < (signedValue s (magnitude r.val) : ℚ) := (base_zpow_pos schema _).trans hlower
  cases s with
  | true =>
    -- nothing is covered below zero
    rw [signedValue, if_pos rfl, Rat.cast_pos] at hpos
    linarith
  | false =>
    rw [signedValue, if_neg (by decide)] at hlower hupper hpos
    rw [base_zpow] at hlower hupper
    have hrank : 0 < r.val := by
      rw [Rat.cast_pos, ← magnitude_zero] at hpos
      exact magnitude_strictMono.lt_iff_lt.1 hpos
    have hleast : (2 : ℝ) ^ ((-1074 : ℚ) : ℝ) ≤ (magnitude r.val : ℚ) := by
      have hone : magnitude 1 ≤ magnitude r.val := magnitude_strictMono.monotone hrank
      have hcast : ((-1074 : ℚ) : ℝ) = ((-1074 : Int) : ℝ) := by norm_num
      rw [hcast, Real.rpow_intCast, ← Rat.cast_ofNat, ← Rat.cast_zpow, Rat.cast_le, ← magnitude_one]
      exact hone
    have hgreatest : (magnitude r.val : ℝ) < 2 ^ ((1024 : ℚ) : ℝ) := by
      have hlimit : magnitude r.val < magnitude rankLimit := magnitude_strictMono r.isLt
      rw [two_rpow_limit, ← magnitude_rankLimit]
      exact Rat.cast_lt.2 hlimit
    have hfirst := (Real.rpow_le_rpow_left_iff one_lt_two).1 (hleast.trans hupper)
    have hlast := (Real.rpow_lt_rpow_left_iff one_lt_two).1 (hlower.trans hgreatest)
    exact ⟨Rat.cast_le.1 hfirst, Rat.cast_lt.1 hlast⟩

/-! ## The top index -/

theorem topIndex_cast (hl : -4 ≤ schema) : (topIndex schema : ℚ) = 1024 * 2 ^ schema := by
  obtain ⟨k, hk⟩ := Int.eq_ofNat_of_zero_le (by omega : 0 ≤ schema + 10)
  have hsplit : (2 : ℚ) ^ (schema + 10) = 2 ^ schema * 2 ^ (10 : Int) := zpow_add₀ two_ne_zero _ _
  have hten : (2 : ℚ) ^ (10 : Int) = 1024 := by norm_num
  rw [topIndex, hk, Int.toNat_natCast, Int.cast_pow, Int.cast_ofNat, ← zpow_natCast, ← hk, hsplit, hten, mul_comm]

theorem topIndex_pos (schema : Int) : 0 < topIndex schema := pow_pos two_pos _

theorem topIndex_le (hu : schema ≤ 8) : topIndex schema ≤ 2 ^ 18 :=
  pow_le_pow_right₀ one_le_two (by omega)

theorem two_zpow_le (hu : schema ≤ 8) : (2 : ℚ) ^ schema ≤ 256 := by
  have h := zpow_le_zpow_right₀ (one_le_two (α := ℚ)) hu
  norm_num at h
  exact h

theorem Covers.index_bounds (hl : -4 ≤ schema) (hu : schema ≤ 8) {s : Bool} {r : Fin rankLimit}
    (h : Covers schema index (signedValue s (magnitude r.val))) : -(2 ^ 19) ≤ index ∧ index ≤ topIndex schema := by
  obtain ⟨hfirst, hlast⟩ := h.exponents
  have hpos : (0 : ℚ) < 2 ^ schema := zpow_pos two_pos schema
  have hscale := two_zpow_le hu
  constructor
  · have hle := (le_div_iff₀ hpos).1 hfirst
    have hcast : ((-(2 ^ 19) : Int) : ℚ) ≤ index := by
      push_cast
      linarith
    exact_mod_cast hcast
  · have hlt := (div_lt_iff₀ hpos).1 hlast
    rw [← topIndex_cast hl, Int.cast_lt] at hlt
    omega

/-- Below the top index an exponent lies at least one bucket of the finest schema below 1024. -/
theorem exponent_le_of_lt (hl : -4 ≤ schema) (hu : schema ≤ 8) (h : index < topIndex schema) :
    (index : ℚ) / 2 ^ schema ≤ 1024 - 1 / 256 := by
  have hpos : (0 : ℚ) < 2 ^ schema := zpow_pos two_pos schema
  have hscale := two_zpow_le hu
  have hcast : (index : ℚ) + 1 ≤ topIndex schema := by exact_mod_cast h
  rw [topIndex_cast hl] at hcast
  rw [div_le_iff₀ hpos]
  linarith

/-- **The last bucket of the finest schema begins below the greatest double.** -/
theorem two_rpow_lt_greatest : (2 : ℝ) ^ ((1024 - 1 / 256 : ℚ) : ℝ) < (magnitude (rankLimit - 1) : ℚ) := by
  -- a root of two outweighs the last of 53 digits, since its power does
  have hpos : (0 : ℝ) < 2 ^ ((1 / 256 : ℚ) : ℝ) := Real.rpow_pos_of_pos two_pos _
  have hroot : ((2 : ℝ) ^ ((1 / 256 : ℚ) : ℝ)) ^ 256 = 2 := by
    rw [← Real.rpow_natCast, ← Real.rpow_mul zero_le_two]
    norm_num
  have hpower : (1 : ℝ) ^ 256 < ((1 - 1 / 2 ^ 53) * (2 : ℝ) ^ ((1 / 256 : ℚ) : ℝ)) ^ 256 := by
    rw [mul_pow, hroot]
    norm_num
  have hone : 1 < (1 - 1 / 2 ^ 53) * (2 : ℝ) ^ ((1 / 256 : ℚ) : ℝ) := by
    refine lt_of_pow_lt_pow_left₀ 256 (mul_nonneg ?_ hpos.le) hpower
    norm_num
  have hsplit : (2 : ℝ) ^ 1024 = 2 ^ 971 * 2 ^ 53 := (pow_add 2 971 53)
  calc (2 : ℝ) ^ ((1024 - 1 / 256 : ℚ) : ℝ)
      = 2 ^ 1024 / 2 ^ ((1 / 256 : ℚ) : ℝ) := by
        rw [Rat.cast_sub, Real.rpow_sub two_pos, two_rpow_limit, Rat.cast_pow, Rat.cast_ofNat]
    _ < 2 ^ 1024 * (1 - 1 / 2 ^ 53) := by
      rw [div_lt_iff₀ hpos, mul_assoc]
      exact lt_mul_of_one_lt_right (pow_pos two_pos _) hone
    _ = (magnitude (rankLimit - 1) : ℚ) := by
      rw [magnitude_greatest, Rat.cast_sub, Rat.cast_pow, Rat.cast_pow, Rat.cast_ofNat, mul_sub, mul_one, hsplit,
        mul_one_div, mul_div_cancel_right₀ _ (pow_ne_zero _ two_ne_zero)]

/-- **The top bucket of every schema covers the greatest double.** -/
theorem covers_topIndex (hl : -4 ≤ schema) (hu : schema ≤ 8) :
    Covers schema (topIndex schema) (signedValue false (magnitude (rankLimit - 1))) := by
  have hwhole : (topIndex schema : ℚ) / 2 ^ schema = 1024 := by
    rw [topIndex_cast hl, mul_div_cancel_right₀ _ (zpow_pos two_pos schema).ne']
  rw [signedValue, if_neg (by decide), Covers, base_zpow, base_zpow, hwhole]
  constructor
  · refine lt_of_le_of_lt (Real.rpow_le_rpow_of_exponent_le one_le_two ?_) two_rpow_lt_greatest
    exact Rat.cast_le.2 (exponent_le_of_lt hl hu (Int.sub_one_lt_iff.2 le_rfl))
  · have hle : magnitude (rankLimit - 1) ≤ magnitude rankLimit := magnitude_strictMono.monotone (Nat.sub_le _ _)
    rw [two_rpow_limit, ← magnitude_rankLimit]
    exact Rat.cast_le.2 hle

/-! ## The bounds -/

/-- The exponent of a short index is exact. -/
theorem exists_exponent (hl : -4 ≤ schema) (hu : schema ≤ 8) (hindex : index.natAbs ≤ 2 ^ 20) :
    ∃ k : Fin rankLimit, exponent schema index = .ok (finite (index < 0) k) ∧
      signedValue (index < 0) (magnitude k.val) = index / 2 ^ schema := by
  have hshort : 2 ^ 20 < binade := by decide
  obtain ⟨i, hi⟩ := exists_rank_natCast (n := index.natAbs) (by omega)
  have hlt : (index.natAbs : ℚ) * 2 ^ (-schema) < 2 ^ 1024 := by
    have hscale : (2 : ℚ) ^ (-schema) ≤ 2 ^ (4 : Int) := zpow_le_zpow_right₀ one_le_two (by omega)
    have hcast : (index.natAbs : ℚ) ≤ 2 ^ 20 := by exact_mod_cast hindex
    have hpow : (2 : ℚ) ^ 20 * 2 ^ (4 : Int) = 2 ^ 24 := by norm_num
    calc (index.natAbs : ℚ) * 2 ^ (-schema) ≤ 2 ^ 20 * 2 ^ (4 : Int) :=
          mul_le_mul hcast hscale (zpow_pos two_pos _).le (pow_pos two_pos _).le
      _ = 2 ^ 24 := hpow
      _ < 2 ^ 1024 := pow_lt_pow_right₀ one_lt_two (by decide)
  obtain ⟨k, hk⟩ := exists_rank (by omega) (by omega) hlt
  rw [zpow_neg, ← div_eq_mul_inv] at hk
  exact ⟨k, exponent_exact (by omega) (by omega) hi hk, by rw [hk, signedValue_natAbs_div]⟩

/-- **A bound below the top index can be computed.** -/
theorem exists_upperBound (hl : -4 ≤ schema) (hu : schema ≤ 8) (hlower : -(2 ^ 20) ≤ index)
    (hupper : index < topIndex schema) : ∃ x, upperBound schema index = .ok x := by
  have htop := topIndex_le hu
  have hsmall : index.natAbs ≤ 2 ^ 20 := by omega
  obtain ⟨k, hexponent, hvalue⟩ := exists_exponent hl hu hsmall
  have hlt : (2 : ℝ) ^ ((signedValue (index < 0) (magnitude k.val) : ℚ) : ℝ) < integerLimit := by
    have hgreatest : (magnitude (rankLimit - 1) : ℝ) < integerLimit := by
      have h := Rat.cast_lt (K := ℝ).2 (magnitude_lt_boundary (rankLimit - 1))
      rwa [Nat.sub_add_cancel (by decide), boundary_rankLimit, Rat.cast_natCast] at h
    rw [hvalue]
    refine lt_of_le_of_lt (Real.rpow_le_rpow_of_exponent_le one_le_two ?_) (two_rpow_lt_greatest.trans hgreatest)
    exact Rat.cast_le.2 (exponent_le_of_lt hl hu hupper)
  obtain ⟨x, hx⟩ := Option.ne_none_iff_exists'.1 (fun hnone => not_le.2 hlt (twoPow?_eq_none_iff.1 hnone))
  exact ⟨x, by rw [upperBound_of_exponent hexponent, twoPow_of_twoPow? hx]⟩

/-- **The bound at the top index is too large.** -/
theorem upperBound_topIndex (hl : -4 ≤ schema) (hu : schema ≤ 8) :
    upperBound schema (topIndex schema) = .error .powerTooLarge := by
  have hpos := topIndex_pos schema
  have htop := topIndex_le hu
  have hsmall : (topIndex schema).natAbs ≤ 2 ^ 20 := by omega
  obtain ⟨k, hexponent, hvalue⟩ := exists_exponent hl hu hsmall
  have hsign : decide (topIndex schema < 0) = false := decide_eq_false (not_lt.2 hpos.le)
  rw [topIndex_cast hl, mul_div_cancel_right₀ _ (zpow_pos two_pos schema).ne', hsign, signedValue, if_neg (by decide)]
    at hvalue
  rw [hsign] at hexponent
  rw [upperBound_of_exponent hexponent]
  exact twoPow_of_none (twoPow?_eq_none hvalue.ge)

end Native

open Native

namespace NativePoint

/-- A schema in the standard range, a finite threshold, and buckets that cover a finite double each. -/
structure Legitimate (p : NativePoint) : Prop where
  schema_ge : -4 ≤ p.schema
  schema_le : p.schema ≤ 8
  threshold : ∃ s r, p.zeroThreshold.toBinary64? = some (.finite s r)
  positive : ∀ e ∈ p.positive.entries, ∃ (s : Bool) (r : Fin rankLimit),
    Covers p.schema e.1 (signedValue s (magnitude r.val))
  negative : ∀ e ∈ p.negative.entries, ∃ (s : Bool) (r : Fin rankLimit),
    CoversMirrored p.schema e.1 (signedValue s (magnitude r.val))

/-- There is an entry for the positive bucket that ends at `2 ^ 1024`. -/
def TopHeavy (p : NativePoint) : Prop := ∃ e ∈ p.positive.entries, e.1 = topIndex p.schema

variable {p : NativePoint}

/-- The only step of a legitimate point that can fail is the bound of its top bucket. -/
theorem Legitimate.fault?_of_mem (hp : p.Legitimate) {st : Step} (hst : st ∈ p.steps) :
    st.fault? = none ∨ (p.TopHeavy ∧ st.fault? = some .powerTooLarge) := by
  have hl := hp.schema_ge
  have hu := hp.schema_le
  rcases mem_steps_iff.1 hst with ⟨e, he, rfl⟩ | ⟨e, he, rfl⟩ | ⟨-, rfl⟩
  · obtain ⟨s, r, hcovers⟩ := hp.negative e he
    rw [coversMirrored_iff, neg_signedValue] at hcovers
    obtain ⟨hlower, hupper⟩ := hcovers.index_bounds hl hu
    left
    rw [Step.fault?, faultOf_eq_none_iff]
    exact exists_upperBound hl hu (by omega) (by omega)
  · obtain ⟨s, r, hcovers⟩ := hp.positive e he
    obtain ⟨hlower, hupper⟩ := hcovers.index_bounds hl hu
    rcases Int.lt_or_eq_of_le hupper with hlt | heq
    · left
      rw [Step.fault?, faultOf_eq_none_iff]
      exact exists_upperBound hl hu (by omega) hlt
    · right
      rw [Step.fault?, faultOf_eq_some_iff, heq]
      exact ⟨⟨e, he, heq⟩, upperBound_topIndex hl hu⟩
  · obtain ⟨s, r, hz⟩ := hp.threshold
    left
    rw [Step.fault?, SampleValue.fault?, Number.fault?_eq, hz, if_neg (fun h => by cases h)]

theorem Legitimate.exists_fault (hp : p.Legitimate) (h : p.TopHeavy) :
    ∃ st ∈ p.steps, st.fault? = some .powerTooLarge := by
  obtain ⟨e, he, heq⟩ := h
  refine ⟨.bound p.schema e.1, mem_steps_iff.2 (.inr (.inl ⟨e, he, rfl⟩)), ?_⟩
  rw [Step.fault?, faultOf_eq_some_iff, heq]
  exact upperBound_topIndex hp.schema_ge hp.schema_le

theorem Legitimate.exists_toClassic (hp : p.Legitimate) (h : ¬p.TopHeavy) : ∃ q, p.toClassic = .ok q := by
  rw [← faultOf_eq_none_iff, faultOf_toClassic, List.findSome?_eq_none_iff]
  exact fun st hst => (hp.fault?_of_mem hst).resolve_right fun hfault => h hfault.1

theorem Legitimate.toClassic_fails (hp : p.Legitimate) (h : p.TopHeavy) : p.toClassic = .error .powerTooLarge := by
  rw [← faultOf_eq_some_iff, faultOf_toClassic]
  exact findSome?_eq_some_of_forall (hp.exists_fault h) fun st hst => (hp.fault?_of_mem hst).imp_right And.right

end NativePoint

/-! ## Documents -/

section Documents

variable {s : Snapshot} {f : Family} {isGauge : Bool} {ps : List NativePoint}

/-- Why a snapshot of legitimate points may fail. -/
theorem Snapshot.cause_of_legitimate (hs : s.Extends (.family f)) (hf : f.points = .native isGauge ps)
    (hps : ∀ p ∈ ps, p.Legitimate) {withCreated : Bool} {st : Step} {e : Fault} (hst : st ∈ s.steps withCreated)
    (he : st.fault? = some e) :
    ((∃ p ∈ ps, p.TopHeavy) ∧ e = .powerTooLarge) ∨ (s.WritesTooLarge withCreated ∧ e = .integerTooLarge) ∨
      (s.WritesTooLong withCreated ∧ e = .tooManyDigits) := by
  obtain ⟨hsize, -⟩ := Snapshot.cause_of_step hst he
  have hfamily := Snapshot.family?_eq_some_iff.2 hs
  rw [steps_of_family hsize hfamily] at hst
  rcases List.mem_cons.1 hst with rfl | hst
  · rw [Step.fault?, hfamily] at he
    cases he
  rw [Family.steps, hf] at hst
  rcases List.mem_append.1 hst with hst | hst
  · obtain ⟨p, hp, hst⟩ := List.mem_flatMap.1 hst
    rcases (hps p hp).fault?_of_mem hst with hnone | ⟨htop, hfault⟩
    · rw [hnone] at he
      cases he
    · rw [hfault] at he
      cases he
      exact .inl ⟨⟨p, hp, htop⟩, rfl⟩
  · obtain ⟨v, hv, rfl⟩ := List.mem_map.1 hst
    have hv' : v ∈ f.points.numbers withCreated := by rw [hf]; exact hv
    rcases SampleValue.fault?_eq_some_iff.1 he with ⟨hlarge, rfl⟩ | ⟨hlong, rfl⟩
    · exact .inr (.inl ⟨⟨f, hs, v, hv', hlarge⟩, rfl⟩)
    · exact .inr (.inr ⟨⟨f, hs, v, hv', hlong⟩, rfl⟩)

theorem Document.cause_of_legitimate (hs : s.Extends (.family f)) (hf : f.points = .native isGauge ps)
    (hps : ∀ p ∈ ps, p.Legitimate) {withCreated : Bool} {e : Fault} (he : encode withCreated [s] = .error e) :
    ((∃ p ∈ ps, p.TopHeavy) ∧ e = .powerTooLarge) ∨ (s.WritesTooLarge withCreated ∧ e = .integerTooLarge) ∨
      (s.WritesTooLong withCreated ∧ e = .tooManyDigits) := by
  obtain ⟨st, hst, hfault⟩ := List.exists_of_findSome?_eq_some (encode_eq_error.1 he)
  rw [steps, List.flatMap_singleton] at hst
  exact Snapshot.cause_of_legitimate hs hf hps hst hfault

/-- A top bucket breaks the document off before any number is written. -/
theorem Document.encode_topHeavy (hs : s.Extends (.family f)) (hf : f.points = .native isGauge ps)
    (hps : ∀ p ∈ ps, p.Legitimate) (h : ∃ p ∈ ps, p.TopHeavy) (withCreated : Bool) :
    encode withCreated [s] = .error .powerTooLarge := by
  obtain ⟨p, hp, htop⟩ := h
  have hfamily := Snapshot.family?_eq_some_iff.2 hs
  have hsize : 0 < s.size := by
    rw [Snapshot.size_of_family? hfamily, hf]
    exact List.length_pos_of_mem hp
  have hconversions : (ps.flatMap NativePoint.steps).findSome? Step.fault? = some .powerTooLarge := by
    obtain ⟨st, hst, hfault⟩ := (hps p hp).exists_fault htop
    refine findSome?_eq_some_of_forall ⟨st, List.mem_flatMap.2 ⟨p, hp, hst⟩, hfault⟩ fun st' hst' => ?_
    obtain ⟨p', hp', hst'⟩ := List.mem_flatMap.1 hst'
    exact ((hps p' hp').fault?_of_mem hst').imp_right And.right
  rw [encode_eq_error, steps, List.flatMap_singleton, Snapshot.steps_of_family hsize hfamily, Family.steps, hf,
    List.findSome?_cons, Step.fault?, hfamily]
  show List.findSome? _ (ps.flatMap NativePoint.steps ++ _) = _
  rw [List.findSome?_append, hconversions, Option.some_or]

/-- **Which legitimate native histograms are converted.**  Those without a positive bucket that ends at `2 ^ 1024`; with one
the power is too large, though that bucket covers the greatest double.  The document of a snapshot of legitimate points
fails alike, and apart from that only because of a number that it writes: a whole one that has no double, or one of too
many digits. -/
theorem NativePoint.toClassic_legitimate (hs : s.Extends (.family f)) (hf : f.points = .native isGauge ps)
    (hps : ∀ p ∈ ps, p.Legitimate) (withCreated : Bool) :
    (∀ p ∈ ps, (¬p.TopHeavy → ∃ q, p.toClassic = .ok q) ∧ (p.TopHeavy → p.toClassic = .error .powerTooLarge)) ∧
    (Document.encode withCreated [s] = .error .powerTooLarge ↔ ∃ p ∈ ps, p.TopHeavy) ∧
    ∀ e, Document.encode withCreated [s] = .error e → (∀ p ∈ ps, ¬p.TopHeavy) →
      (s.WritesTooLarge withCreated ∧ e = .integerTooLarge) ∨ (s.WritesTooLong withCreated ∧ e = .tooManyDigits) := by
  refine ⟨fun p hp => ⟨(hps p hp).exists_toClassic, (hps p hp).toClassic_fails⟩, ⟨fun he => ?_, fun h => ?_⟩, ?_⟩
  · rcases Document.cause_of_legitimate hs hf hps he with ⟨h, -⟩ | ⟨-, h⟩ | ⟨-, h⟩
    · exact h
    · cases h
    · cases h
  · exact Document.encode_topHeavy hs hf hps h withCreated
  · intro e he hno
    refine (Document.cause_of_legitimate hs hf hps he).resolve_left ?_
    rintro ⟨⟨p, hp, htop⟩, -⟩
    exact hno p hp htop

end Documents

namespace NativePoint

/-- The greatest double, observed once in schema 0. -/
def topObservation : NativePoint where
  schema := 0
  zeroThreshold := .float .zero
  zeroCount := 0
  positive := ⟨[(1024, 1)], List.nodup_singleton 1024⟩
  negative := .empty
  labels := []
  count := none
  sum := none
  exemplars := []
  created := none
  scrape := none

/-- The least double instead, observed once in the mirror image of that bucket. -/
def bottomObservation : NativePoint :=
  { topObservation with positive := .empty, negative := ⟨[(1024, 1)], List.nodup_singleton 1024⟩ }

def greatestRank : Fin rankLimit := ⟨rankLimit - 1, by decide⟩

theorem legitimate_topObservation : topObservation.Legitimate where
  schema_ge := by decide
  schema_le := by decide
  threshold := ⟨false, _, rfl⟩
  positive := by
    intro e he
    rw [List.mem_singleton.1 he]
    exact ⟨false, greatestRank, covers_topIndex (by decide) (by decide)⟩
  negative := fun e he => by cases he

theorem legitimate_bottomObservation : bottomObservation.Legitimate where
  schema_ge := by decide
  schema_le := by decide
  threshold := ⟨false, _, rfl⟩
  positive := fun e he => by cases he
  negative := by
    intro e he
    rw [List.mem_singleton.1 he]
    refine ⟨true, greatestRank, coversMirrored_iff.2 ?_⟩
    rw [neg_signedValue]
    exact covers_topIndex (by decide) (by decide)

/-- The observation at the bottom is converted, and no bound of it breaks a document off. -/
theorem toClassic_legitimate_bottomObservation :
    bottomObservation.Legitimate ∧ (∃ q, bottomObservation.toClassic = .ok q) ∧
      Document.encode false [.family ⟨⟨"h", none, none⟩, .native false [bottomObservation]⟩] ≠ .error .powerTooLarge := by
  have hno : ¬bottomObservation.TopHeavy := by
    rintro ⟨e, he, -⟩
    cases he
  have hpoints : ∀ p ∈ [bottomObservation], p.Legitimate := by
    intro p hp
    rw [List.mem_singleton.1 hp]
    exact legitimate_bottomObservation
  obtain ⟨hconverted, hbreaks, -⟩ := toClassic_legitimate
    (.refl (.family ⟨⟨"h", none, none⟩, .native false [bottomObservation]⟩)) rfl hpoints false
  refine ⟨legitimate_bottomObservation, (hconverted _ (List.mem_singleton_self _)).1 hno, fun he => ?_⟩
  obtain ⟨p, hp, htop⟩ := hbreaks.1 he
  rw [List.mem_singleton.1 hp] at htop
  exact hno htop

/-- The observation at the top is as legitimate, and neither it nor a document with it comes out. -/
theorem topObservation_breaks :
    topObservation.Legitimate ∧ (∀ q, topObservation.toClassic ≠ .ok q) ∧
      Document.encode false [.family ⟨⟨"h", none, none⟩, .native false [topObservation]⟩] = .error .powerTooLarge := by
  have htop : topObservation.TopHeavy := ⟨(1024, 1), List.mem_singleton_self _, by decide⟩
  have hpoints : ∀ p ∈ [topObservation], p.Legitimate := by
    intro p hp
    rw [List.mem_singleton.1 hp]
    exact legitimate_topObservation
  refine ⟨legitimate_topObservation, fun q hq => ?_, ?_⟩
  · rw [legitimate_topObservation.toClassic_fails htop] at hq
    cases hq
  · exact Document.encode_topHeavy (.refl _) rfl hpoints ⟨_, List.mem_singleton_self _, htop⟩ false

end NativePoint
end Exposition
