import Exposition.Family
import Exposition.Proofs.Binary64.Values
import Exposition.Proofs.Histogram.Bounds
import Exposition.Proofs.Record.Line
import Exposition.Proofs.Text.Digits
/-!
# Totals — a converted histogram counts what the native one counts

The lines of a histogram show running totals, so on ascending bounds the last line at a bound shows how many observations
lie up to it (`HistogramPoint.value_of_isLastBucketAt`).  For a converted histogram these are the observations of the native
buckets that end there or before, whatever order they were given in, and the last line of all shows the total, or what was
observed if that is more (`NativePoint.toClassic_keeps_counts`).
-/
namespace Exposition

open Native

namespace Bucket

theorem total_append : ∀ (as bs : List Bucket), total (as ++ bs) = total as + total bs
  | [], bs => (Int.zero_add _).symm
  | a :: as, bs => by
    rw [List.cons_append, total, total, total_append as bs, Int.add_assoc]

def endsUpTo (u : Number) (b : Bucket) : Bool := b.upperBound.le u

end Bucket

/-- Two numbers that stand for one value; zeros do not differ. -/
def Number.Same (x y : Number) : Prop := x.le y = true ∧ y.le x = true

/-! ## Lines of buckets -/

/-- A line that shows the running total up to the number `u`. -/
def Sample.IsBucketAt (s : Sample) (u : Number) : Prop :=
  s.suffix = some ("_bucket" : Text) ∧ ∃ x, s.added = some (.bound x) ∧ x.Same u

def Sample.IsLastBucketAt (s : Sample) (lines : List Sample) (u : Number) : Prop :=
  s.IsBucketAt u ∧ ∃ before after, lines = before ++ s :: after ∧ ∀ t ∈ after, ¬t.IsBucketAt u

/-- A line that shows a whole number behind the text of its series.  A number of too many digits ends it there. -/
def Sample.Shows (s : Sample) (n : Int) : Prop :=
  ∃ l, s.additional = .ok l ∧
    (n.natAbs < 10 ^ Text.digitLimit → s.emission.text =
      seriesText s.family s.suffix s.labels l ++ Text.ofInt n ++ (lineEnd s.timestamp s.exemplar).text) ∧
    (10 ^ Text.digitLimit ≤ n.natAbs →
      s.emission = ⟨seriesPieces s.family s.suffix s.labels l, some .tooManyDigits⟩)

theorem countText_eq_ok {n : Int} (h : n.natAbs < 10 ^ Text.digitLimit) : countText n = .ok (Text.ofInt n) := by
  rw [countText, Text.ofInt?_eq_some_iff.2 ⟨h, rfl⟩]
  rfl

theorem countText_eq_error {n : Int} (h : 10 ^ Text.digitLimit ≤ n.natAbs) : countText n = .error .tooManyDigits := by
  rw [countText, Text.ofInt?_eq_none_iff.2 h]
  rfl

theorem Sample.shows_of_count {s : Sample} {l : Option Label} {n : Int} (hl : s.additional = .ok l)
    (hn : s.value = .count n) : s.Shows n := by
  have hemission : s.emission = .ofPieces (seriesPieces s.family s.suffix s.labels l) ++ .ofExcept (countText n) ++
      lineEnd s.timestamp s.exemplar := by
    rw [emission, hl, hn]
    rfl
  refine ⟨l, hl, ?_, ?_⟩
  · intro hshort
    obtain ⟨hf, ht⟩ := text_ofExcept (countText_eq_ok hshort)
    have hnone : (Emission.ofPieces (seriesPieces s.family s.suffix s.labels l) ++
        Emission.ofExcept (countText n)).fault = none := by rw [Emission.fault_append_of_none rfl, hf]
    rw [hemission, Emission.text_append_of_none hnone, Emission.text_append_of_none rfl, ht]
    rfl
  · intro hlong
    rw [hemission, countText_eq_error hlong, Emission.append_of_fault]
    · exact congrArg (Emission.mk · _) (List.append_nil _)
    · rfl

namespace HistogramPoint

variable {family : Text} {p : HistogramPoint}

/-- Each line of the buckets belongs to one of them and shows the total up to it. -/
theorem bucketSamples_eq_append : ∀ (bs : List Bucket) (below : Int) (lower : Number) {before after : List Sample}
    {s : Sample}, p.bucketSamples family below lower bs = before ++ s :: after →
    ∃ bs₁ b bs₂ below' lower', bs = bs₁ ++ b :: bs₂ ∧ after = p.bucketSamples family below' lower' bs₂ ∧
      s.suffix = some ("_bucket" : Text) ∧ s.added = some (.bound b.upperBound) ∧
      s.value = .count (below + Bucket.total (bs₁ ++ [b]))
  | [], _, _, before, after, s, h => by
    cases before with
    | nil => cases h
    | cons x before => cases h
  | b :: bs, below, lower, before, after, s, h => by
    rw [bucketSamples] at h
    cases before with
    | nil =>
      obtain ⟨rfl, rfl⟩ := List.cons.inj h
      refine ⟨[], b, bs, _, _, rfl, rfl, rfl, rfl, ?_⟩
      simp only [List.nil_append, Bucket.total, Int.add_zero]
    | cons x before =>
      obtain ⟨-, h'⟩ := List.cons.inj h
      obtain ⟨bs₁, b', bs₂, below', lower', rfl, hafter, hsuffix, hadded, hvalue⟩ := bucketSamples_eq_append bs _ _ h'
      refine ⟨b :: bs₁, b', bs₂, below', lower', rfl, hafter, hsuffix, hadded, ?_⟩
      rw [hvalue, List.cons_append, Bucket.total, Int.add_assoc]

theorem exists_bucketSample (family : Text) (p : HistogramPoint) : ∀ (bs : List Bucket) (below : Int) (lower : Number),
    ∀ b ∈ bs, ∃ s ∈ p.bucketSamples family below lower bs,
      s.suffix = some ("_bucket" : Text) ∧ s.added = some (.bound b.upperBound)
  | [], _, _, _, h => by cases h
  | b :: bs, below, lower, b', h => by
    rcases List.mem_cons.1 h with rfl | h
    · exact ⟨_, List.mem_cons_self, rfl, rfl⟩
    · obtain ⟨s, hs, h'⟩ := exists_bucketSample family p bs (below + b.count) b.upperBound b' h
      exact ⟨s, List.mem_cons_of_mem _ hs, h'⟩

def otherSamples (withCreated isGauge : Bool) (family : Text) (p : HistogramPoint) : List Sample :=
  (if p.count.isSome && p.sum.isSome then
    countAndSumSamples family (histogramSuffixes isGauge).1 (histogramSuffixes isGauge).2 p.labels p.count p.sum []
      p.scrape
  else []) ++ createdSamples withCreated family p.labels p.created p.scrape

theorem samples_eq (withCreated isGauge : Bool) :
    p.samples withCreated isGauge family =
      p.bucketSamples family 0 (.float (.infinite true)) p.buckets ++ p.otherSamples withCreated isGauge family := rfl

/-- Behind the lines of its buckets a point shows the count, the sum, and when the series began. -/
theorem mem_otherSamples {withCreated isGauge : Bool} {s : Sample} (h : s ∈ p.otherSamples withCreated isGauge family) :
    (s.suffix = some (histogramSuffixes isGauge).1 ∧ s.added = none ∧ ∃ n, p.count = some n ∧ s.value = .count n) ∨
      s.suffix = some (histogramSuffixes isGauge).2 ∨ s.suffix = some ("_created" : Text) := by
  unfold otherSamples at h
  rcases List.mem_append.1 h with h | h
  · split at h
    · rw [countAndSumSamples_eq] at h
      rcases List.mem_append.1 h with h | h
      · cases hn : p.count with
        | none => rw [hn] at h; cases h
        | some n =>
          rw [hn, List.mem_singleton] at h
          subst h
          exact .inl ⟨rfl, rfl, n, rfl, rfl⟩
      · cases hx : p.sum with
        | none => rw [hx] at h; cases h
        | some x =>
          rw [hx, List.mem_singleton] at h
          subst h
          exact .inr (.inl rfl)
    · cases h
  · unfold createdSamples at h
    split at h
    · rw [List.mem_singleton] at h
      subst h
      exact .inr (.inr rfl)
    · cases h

theorem suffix_otherSamples (withCreated isGauge : Bool) (family : Text) (p : HistogramPoint) :
    ∀ s ∈ p.otherSamples withCreated isGauge family, s.suffix ≠ some ("_bucket" : Text) := by
  intro s hs
  rcases mem_otherSamples hs with ⟨h, -⟩ | h | h
  · rw [h]
    cases isGauge <;> exact fun h => absurd (Option.some.inj h) (by decide)
  · rw [h]
    cases isGauge <;> exact fun h => absurd (Option.some.inj h) (by decide)
  · rw [h]
    exact fun h => absurd (Option.some.inj h) (by decide)

theorem bucketSamples_of_samples {withCreated isGauge : Bool} {before after : List Sample} {s : Sample}
    (h : p.samples withCreated isGauge family = before ++ s :: after) (hs : s.suffix = some ("_bucket" : Text)) :
    ∃ after', p.bucketSamples family 0 (.float (.infinite true)) p.buckets = before ++ s :: after' ∧
      after = after' ++ p.otherSamples withCreated isGauge family := by
  have hother := suffix_otherSamples withCreated isGauge family p
  rw [samples_eq] at h
  rcases List.append_eq_append_iff.1 h with ⟨c, -, hc⟩ | ⟨c, hc, hc'⟩
  · exact absurd hs (hother s (hc ▸ List.mem_append_right c List.mem_cons_self))
  · cases c with
    | nil =>
      rw [List.nil_append] at hc'
      exact absurd hs (hother s (hc' ▸ List.mem_cons_self))
    | cons x c =>
      obtain ⟨rfl, hafter⟩ := List.cons.inj hc'
      exact ⟨c, hc, hafter⟩

theorem filter_endsUpTo {bs₁ bs₂ : List Bucket} {b : Bucket} {u : Number}
    (hsorted : (bs₁ ++ b :: bs₂).Pairwise Bucket.EndsBy) (hb : b.upperBound.Same u)
    (hlast : ∀ c ∈ bs₂, ¬c.upperBound.Same u) :
    (bs₁ ++ b :: bs₂).filter (Bucket.endsUpTo u) = bs₁ ++ [b] := by
  obtain ⟨-, hsorted₂, hcross⟩ := List.pairwise_append.1 hsorted
  obtain ⟨hafter, -⟩ := List.pairwise_cons.1 hsorted₂
  have hself : Bucket.endsUpTo u b = true := hb.1
  have h₁ : ∀ a ∈ bs₁, Bucket.endsUpTo u a = true := by
    intro a ha
    exact Number.le_trans (hcross a ha b List.mem_cons_self) hb.1
  have h₂ : ∀ c ∈ bs₂, ¬Bucket.endsUpTo u c = true := by
    intro c hc hle
    apply hlast c hc
    exact ⟨hle, Number.le_trans hb.2 (hafter c hc)⟩
  rw [List.filter_append, List.filter_cons_of_pos hself, List.filter_eq_self.2 h₁, List.filter_eq_nil_iff.2 h₂]

/-- **On ascending bounds the last line at a number shows the total up to it.** -/
theorem value_of_isLastBucketAt {withCreated isGauge : Bool} (hsorted : p.buckets.Pairwise Bucket.EndsBy)
    {u : Number} {s : Sample} (hs : s.IsLastBucketAt (p.samples withCreated isGauge family) u) :
    s.value = .count (Bucket.total (p.buckets.filter (Bucket.endsUpTo u))) := by
  obtain ⟨⟨hsuffix, x, hx, hsame⟩, before, after, hlines, hlast⟩ := hs
  obtain ⟨after', hbuckets, rfl⟩ := bucketSamples_of_samples hlines hsuffix
  obtain ⟨bs₁, b, bs₂, below, lower, hbs, hafter, -, hadded, hvalue⟩ := bucketSamples_eq_append _ _ _ hbuckets
  rw [hx] at hadded
  cases hadded
  rw [hbs] at hsorted
  have hno : ∀ c ∈ bs₂, ¬c.upperBound.Same u := by
    intro c hc hcu
    obtain ⟨t, ht, htsuffix, htadded⟩ := exists_bucketSample family p bs₂ below lower c hc
    exact hlast t (List.mem_append_left _ (hafter ▸ ht)) ⟨htsuffix, _, htadded, hcu⟩
  rw [hbs, filter_endsUpTo hsorted hsame hno, hvalue, Int.zero_add]

theorem exists_bucket_of_isLastBucketAt {withCreated isGauge : Bool} {u : Number} {s : Sample}
    (hs : s.IsLastBucketAt (p.samples withCreated isGauge family) u) :
    ∃ b ∈ p.buckets, s.added = some (.bound b.upperBound) := by
  obtain ⟨⟨hsuffix, -⟩, before, after, hlines, -⟩ := hs
  obtain ⟨after', hbuckets, -⟩ := bucketSamples_of_samples hlines hsuffix
  obtain ⟨bs₁, b, bs₂, -, -, hbs, -, -, hadded, -⟩ := bucketSamples_eq_append _ _ _ hbuckets
  exact ⟨b, hbs ▸ List.mem_append_right _ List.mem_cons_self, hadded⟩

theorem exists_last {α : Type} {P : α → Prop} : ∀ (l : List α), (∃ a ∈ l, P a) →
    ∃ before a after, l = before ++ a :: after ∧ P a ∧ ∀ b ∈ after, ¬P b
  | [], h => by
    obtain ⟨a, ha, -⟩ := h
    cases ha
  | a :: l, h => by
    by_cases hl : ∃ b ∈ l, P b
    · obtain ⟨before, b, after, rfl, hb⟩ := exists_last l hl
      exact ⟨a :: before, b, after, rfl, hb⟩
    · obtain ⟨b, hb, hP⟩ := h
      rcases List.mem_cons.1 hb with rfl | hb
      · exact ⟨[], b, l, rfl, hP, fun c hc hPc => hl ⟨c, hc, hPc⟩⟩
      · exact absurd ⟨b, hb, hP⟩ hl

theorem exists_isLastBucketAt (withCreated isGauge : Bool) {b : Bucket} {u : Number} (hb : b ∈ p.buckets)
    (hu : b.upperBound.Same u) : ∃ s : Sample, s.IsLastBucketAt (p.samples withCreated isGauge family) u := by
  obtain ⟨s, hs, hsuffix, hadded⟩ := exists_bucketSample family p p.buckets 0 (.float (.infinite true)) b hb
  have hmem : s ∈ p.samples withCreated isGauge family := by
    rw [samples_eq]
    exact List.mem_append_left _ hs
  have hat : s.IsBucketAt u := ⟨hsuffix, _, hadded, hu⟩
  obtain ⟨before, t, after, hlines, ht, hlast⟩ := exists_last (P := fun t : Sample => t.IsBucketAt u) _ ⟨s, hmem, hat⟩
  exact ⟨t, ht, before, after, hlines, hlast⟩

/-- The samples of a point stand together among the records of its family. -/
theorem infix_histogramBlock (f : Family) (withCreated isGauge : Bool) {ps : List HistogramPoint} (hp : p ∈ ps) :
    (p.samples withCreated isGauge f.metadata.name).map Record.sample <:+: f.histogramBlock withCreated isGauge ps := by
  obtain ⟨as, bs, rfl⟩ := List.append_of_mem hp
  refine ⟨f.metadata.records f.type ++ (as.flatMap (·.samples withCreated isGauge f.metadata.name)).map .sample,
    (bs.flatMap (·.samples withCreated isGauge f.metadata.name)).map .sample, ?_⟩
  rw [Family.histogramBlock, Family.block, List.flatMap_append, List.flatMap_cons, List.map_append, List.map_append]
  simp only [List.append_assoc]

end HistogramPoint

/-! ## Native buckets -/

namespace NativePoint

/-- The zero bucket, whether it counts anything or not. -/
def thresholdBucket (p : NativePoint) : Except Fault Bucket :=
  (orFault .integerTooLarge p.zeroThreshold.toBinary64?).map (⟨.float ·, p.zeroCount⟩)

/-- The buckets of a native histogram with their own bounds, as they were given. -/
def ownBuckets (p : NativePoint) : List (Except Fault Bucket) :=
  p.negative.entries.map (negativeBucket p.schema) ++ (if 0 < p.zeroCount then [p.thresholdBucket] else []) ++
    p.positive.entries.map (positiveBucket p.schema)

def countIfUpTo (u : Number) : Except Fault Bucket → Int
  | .ok b => if b.endsUpTo u then b.count else 0
  | .error _ => 0

/-- What the native buckets count that end at `u` or before. -/
def countUpTo (p : NativePoint) (u : Number) : Int := (p.ownBuckets.map (countIfUpTo u)).sum

/-- What the native buckets count together. -/
def observed (p : NativePoint) : Int :=
  (p.negative.entries.map Prod.snd).sum + (if 0 < p.zeroCount then p.zeroCount else 0) +
    (p.positive.entries.map Prod.snd).sum

variable {p : NativePoint} {bs : List Bucket}

/-- **The converted buckets are the native ones in another order.** -/
theorem ownBuckets_perm (h : p.observedBuckets = .ok bs) : p.ownBuckets.Perm (bs.map Except.ok) := by
  obtain ⟨negative, zero, positive, hn, hzero, hp, rfl⟩ := observedBuckets_eq_ok h
  have hneg : (p.negative.entries.map (negativeBucket p.schema)).Perm (negative.map Except.ok) := by
    have hmap : negative.map Except.ok = (descending p.negative).map (negativeBucket p.schema) :=
      map_eq_map_of_mapM (fun _ _ h => h.symm) hn
    rw [hmap]
    exact ((descending_perm p.negative).map _).symm
  have hpos : (p.positive.entries.map (positiveBucket p.schema)).Perm (positive.map Except.ok) := by
    have hmap : positive.map Except.ok = (ascending p.positive).map (positiveBucket p.schema) :=
      map_eq_map_of_mapM (fun _ _ h => h.symm) hp
    rw [hmap]
    exact ((ascending_perm p.positive).map _).symm
  have hmid : (if 0 < p.zeroCount then [p.thresholdBucket] else []) = zero.map Except.ok := by
    rcases zeroBucket_eq_ok hzero with ⟨hcount, rfl⟩ | ⟨hcount, z, hz, rfl⟩
    · rw [if_neg hcount]
      rfl
    · rw [if_pos hcount, thresholdBucket, orFault_eq_ok_iff.2 hz]
      rfl
  rw [List.map_append, List.map_append, ownBuckets, hmid]
  exact (hneg.append_right _).append hpos

theorem exists_toClassic (h : ∀ x ∈ p.ownBuckets, ∃ b, x = .ok b) : ∃ q, p.toClassic = .ok q := by
  have hneg : ∀ e ∈ descending p.negative, ∃ b, negativeBucket p.schema e = .ok b := by
    intro e he
    apply h
    exact List.mem_append_left _ (List.mem_append_left _
      (List.mem_map_of_mem ((descending_perm p.negative).mem_iff.1 he)))
  have hpos : ∀ e ∈ ascending p.positive, ∃ b, positiveBucket p.schema e = .ok b := by
    intro e he
    apply h
    exact List.mem_append_right _ (List.mem_map_of_mem ((ascending_perm p.positive).mem_iff.1 he))
  have hzero : ∃ zero, p.zeroBucket = .ok zero := by
    unfold zeroBucket
    split
    · rename_i hcount
      obtain ⟨b, hb⟩ := h p.thresholdBucket (List.mem_append_left _ (List.mem_append_right _ (by
        rw [if_pos hcount]
        exact List.mem_singleton.2 rfl)))
      unfold thresholdBucket at hb
      cases hz : p.zeroThreshold.toBinary64? with
      | none => rw [hz] at hb; cases hb
      | some z => exact ⟨_, rfl⟩
    · exact ⟨[], rfl⟩
  obtain ⟨negative, hn⟩ := exists_mapM_eq_ok_iff.2 hneg
  obtain ⟨positive, hp⟩ := exists_mapM_eq_ok_iff.2 hpos
  obtain ⟨zero, hz⟩ := hzero
  refine ⟨_, bind_eq_ok_iff.2 ⟨negative ++ zero ++ positive, ?_, rfl⟩⟩
  exact bind_eq_ok_iff.2 ⟨negative, hn, bind_eq_ok_iff.2 ⟨positive, hp, bind_eq_ok_iff.2 ⟨zero, hz, rfl⟩⟩⟩

theorem total_filter_eq_countUpTo (h : p.observedBuckets = .ok bs) (u : Number) :
    Bucket.total (bs.filter (Bucket.endsUpTo u)) = p.countUpTo u := by
  have hsum : ∀ (l : List Bucket),
      Bucket.total (l.filter (Bucket.endsUpTo u)) = ((l.map Except.ok).map (countIfUpTo u)).sum := by
    intro l
    induction l with
    | nil => rfl
    | cons b l ih =>
      rw [List.map_cons, List.map_cons, List.sum_cons, ← ih, List.filter_cons, countIfUpTo]
      cases b.endsUpTo u with
      | true => rfl
      | false => exact (Int.zero_add _).symm
  rw [hsum, countUpTo]
  exact ((ownBuckets_perm h).map _).sum_eq.symm

theorem total_of_mapM {f : Int × Int → Except Fault Bucket} (hf : ∀ e b, f e = .ok b → b.count = e.2) :
    ∀ {l : List (Int × Int)} {bs : List Bucket}, l.mapM f = .ok bs → Bucket.total bs = (l.map Prod.snd).sum
  | [], bs, h => by
    cases h
    rfl
  | e :: l, bs, h => by
    obtain ⟨b, bs', hb, hbs, rfl⟩ := List.forall₂_cons_left_iff.1 (mapM_eq_ok_iff.1 h)
    rw [List.map_cons, List.sum_cons, Bucket.total, hf e b hb, total_of_mapM hf (mapM_eq_ok_iff.2 hbs)]

theorem total_eq_observed (h : p.observedBuckets = .ok bs) : Bucket.total bs = p.observed := by
  obtain ⟨negative, zero, positive, hn, hzero, hp, rfl⟩ := observedBuckets_eq_ok h
  have hneg : Bucket.total negative = (p.negative.entries.map Prod.snd).sum := by
    rw [total_of_mapM (fun e b hb => ?_) hn]
    · exact ((descending_perm p.negative).map _).sum_eq
    · obtain ⟨x, -, rfl⟩ := negativeBucket_eq_ok hb
      rfl
  have hpos : Bucket.total positive = (p.positive.entries.map Prod.snd).sum := by
    rw [total_of_mapM (fun e b hb => ?_) hp]
    · exact ((ascending_perm p.positive).map _).sum_eq
    · obtain ⟨x, -, rfl⟩ := positiveBucket_eq_ok hb
      rfl
  have hmid : Bucket.total zero = if 0 < p.zeroCount then p.zeroCount else 0 := by
    rcases zeroBucket_eq_ok hzero with ⟨hcount, rfl⟩ | ⟨hcount, z, -, rfl⟩
    · rw [if_neg hcount]
      rfl
    · rw [if_pos hcount]
      exact Int.add_zero _
  rw [Bucket.total_append, Bucket.total_append, hneg, hmid, hpos, observed]

theorem not_endsUpTo_finite {b : Bucket} (hb : b.upperBound = .float (.infinite false)) (sign : Bool)
    (rank : Fin Binary64.rankLimit) : ¬Bucket.endsUpTo (.float (.finite sign rank)) b = true := by
  intro h
  rw [Bucket.endsUpTo, hb] at h
  obtain ⟨-, -, hle⟩ := Number.le_float_iff.1 h
  exact absurd hle (not_le.2 (Binary64.position_finite_lt sign rank).2)

theorem same_infinite : Number.Same (.float (.infinite false)) (.float (.infinite false)) := ⟨by decide, by decide⟩

variable {q : HistogramPoint}

theorem total_upTo_finite (hq : p.toClassic = .ok q) (sign : Bool) (rank : Fin Binary64.rankLimit) :
    Bucket.total (q.buckets.filter (Bucket.endsUpTo (.float (.finite sign rank)))) =
      p.countUpTo (.float (.finite sign rank)) := by
  obtain ⟨bs, hbs, rfl⟩ := toClassic_eq_ok hq
  have hlast := not_endsUpTo_finite (b := p.lastBucket bs) rfl sign rank
  rw [List.filter_append, List.filter_cons_of_neg hlast, List.filter_nil, List.append_nil]
  exact total_filter_eq_countUpTo hbs _

theorem total_toClassic (hq : p.toClassic = .ok q) :
    Bucket.total q.buckets = max (p.count.getD p.observed) p.observed := by
  obtain ⟨bs, hbs, rfl⟩ := toClassic_eq_ok hq
  have hlast : (p.lastBucket bs).count = max (p.count.getD p.observed - p.observed) 0 := by
    rw [← total_eq_observed hbs]
    rfl
  show Bucket.total (bs ++ [p.lastBucket bs]) = _
  rw [Bucket.total_append, Bucket.total, Bucket.total, hlast, total_eq_observed hbs]
  omega

theorem filter_upTo_infinite (hq : p.toClassic = .ok q) (hz : p.ThresholdInOrder) :
    q.buckets.filter (Bucket.endsUpTo (.float (.infinite false))) = q.buckets := by
  have hsorted := toClassic_ascending hq hz
  obtain ⟨bs, hbs, rfl⟩ := toClassic_eq_ok hq
  apply List.filter_eq_self.2
  intro b hb
  rcases List.mem_append.1 hb with hb | hb
  · exact (List.pairwise_append.1 hsorted).2.2 b hb _ (List.mem_singleton.2 rfl)
  · rw [List.mem_singleton] at hb
    subst hb
    exact same_infinite.1

/-- The bounds of a converted histogram are doubles, so each of its lines has a label for its bound. -/
theorem additional_of_isLastBucketAt {withCreated isGauge : Bool} {family : Text} {s : Sample} {u : Number}
    (hq : p.toClassic = .ok q) (hz : p.ThresholdInOrder)
    (h : s.IsLastBucketAt (q.samples withCreated isGauge family) u) : ∃ l, s.additional = .ok l := by
  obtain ⟨bs, hbs, rfl⟩ := toClassic_eq_ok hq
  obtain ⟨b, hb, hadded⟩ := HistogramPoint.exists_bucket_of_isLastBucketAt h
  have hfloat : ∃ x, b.upperBound = .float x := by
    rcases List.mem_append.1 hb with hb | hb
    · obtain ⟨x, hx, -⟩ := observedBuckets_float hbs hz b hb
      exact ⟨x, hx⟩
    · rw [List.mem_singleton.1 hb]
      exact ⟨_, rfl⟩
  obtain ⟨x, hx⟩ := hfloat
  unfold Sample.additional
  rw [hadded, hx]
  exact ⟨_, rfl⟩

/-- A converted histogram is written point by point, the lines of each together. -/
theorem infix_of_records {withCreated isGauge : Bool} {f : Family} {ps : List NativePoint} {rs : List Record}
    (hf : f.points = .native isGauge ps) (hp : p ∈ ps) (hq : p.toClassic = .ok q) (hr : f.records withCreated = .ok rs) :
    (q.samples withCreated isGauge f.metadata.name).map Record.sample <:+: rs := by
  unfold Family.records at hr
  rw [hf] at hr
  simp only at hr
  cases hqs : ps.mapM toClassic with
  | error e => rw [hqs] at hr; cases hr
  | ok qs =>
    rw [hqs] at hr
    cases hr
    obtain ⟨q', hmem, h'⟩ := exists_of_mapM_of_mem hqs p hp
    rw [hq] at h'
    cases h'
    exact HistogramPoint.infix_histogramBlock f withCreated isGauge hmem

end NativePoint

/-! ## The line of the count -/

namespace HistogramPoint

variable {family : Text} {q : HistogramPoint} {n : Int}

theorem exists_countSample (withCreated isGauge : Bool) (hn : q.count = some n) (hsum : q.sum.isSome = true) :
    ∃ s ∈ q.samples withCreated isGauge family, s.suffix = some (histogramSuffixes isGauge).1 := by
  rw [samples_eq, otherSamples, countAndSumSamples_eq, hn, hsum]
  refine ⟨_, List.mem_append_right _ (List.mem_append_left _ (List.mem_append_left _ (List.mem_singleton.2 rfl))), rfl⟩

theorem shows_countSample {withCreated isGauge : Bool} {s : Sample} (hn : q.count = some n)
    (hs : s ∈ q.samples withCreated isGauge family) (hsuffix : s.suffix = some (histogramSuffixes isGauge).1) :
    s.Shows n := by
  rw [samples_eq] at hs
  rcases List.mem_append.1 hs with hs | hs
  · obtain ⟨before, after, h⟩ := List.append_of_mem hs
    obtain ⟨_, _, _, _, _, -, -, hbucket, -⟩ := bucketSamples_eq_append _ _ _ h
    rw [hbucket] at hsuffix
    cases isGauge <;> exact absurd (Option.some.inj hsuffix) (by decide)
  rcases mem_otherSamples hs with ⟨-, hadded, m, hm, hvalue⟩ | h | h
  · rw [hn] at hm
    cases hm
    exact Sample.shows_of_count (by rw [Sample.additional, hadded]) hvalue
  · rw [hsuffix] at h
    cases isGauge <;> exact absurd (Option.some.inj h) (by decide)
  · rw [hsuffix] at h
    cases isGauge <;> exact absurd (Option.some.inj h) (by decide)

end HistogramPoint

namespace NativePoint

/-- Lines that say what a native point does.  Every native bucket has a line at its bound, and the last line at a finite
number shows what the native buckets count that end there or before.  The last line without a bound shows the total, or
what was observed if that is more or no total is given; if the total covers what was observed and comes with a sum, that
line and the one of the count show the same. -/
structure SaidBy (p : NativePoint) (countSuffix : Text) (lines : List Sample) : Prop where
  bound : ∀ b, .ok b ∈ p.ownBuckets → ∃ s : Sample, s.IsLastBucketAt lines b.upperBound
  upTo : ∀ sign rank (s : Sample), s.IsLastBucketAt lines (.float (.finite sign rank)) →
    s.Shows (p.countUpTo (.float (.finite sign rank)))
  last : ∃ s : Sample, s.IsLastBucketAt lines (.float (.infinite false))
  total : ∀ s : Sample, s.IsLastBucketAt lines (.float (.infinite false)) →
    s.Shows (max (p.count.getD p.observed) p.observed)
  count : ∀ n, p.count = some n → p.observed ≤ n → p.sum.isSome = true →
    (∃ s ∈ lines, s.suffix = some countSuffix) ∧
      ∀ s ∈ lines, s.suffix = some countSuffix ∨ s.IsLastBucketAt lines (.float (.infinite false)) → s.Shows n

theorem saidBy_samples {p : NativePoint} {q : HistogramPoint} (hq : p.toClassic = .ok q) (hz : p.ThresholdInOrder)
    (withCreated isGauge : Bool) (family : Text) :
    p.SaidBy (histogramSuffixes isGauge).1 (q.samples withCreated isGauge family) := by
  have hsorted := toClassic_ascending hq hz
  obtain ⟨bs, hbs, hbuckets⟩ := toClassic_eq_ok hq
  have hcount : q.count = p.count := by rw [hbuckets]
  have hsum : q.sum = p.sum := by rw [hbuckets]
  have hend : q.buckets = bs ++ [p.lastBucket bs] := by rw [hbuckets]
  have htotal : ∀ s : Sample, s.IsLastBucketAt (q.samples withCreated isGauge family) (.float (.infinite false)) →
      s.Shows (max (p.count.getD p.observed) p.observed) := by
    intro s hs
    obtain ⟨l, hl⟩ := additional_of_isLastBucketAt hq hz hs
    refine Sample.shows_of_count hl ?_
    rw [HistogramPoint.value_of_isLastBucketAt hsorted hs, filter_upTo_infinite hq hz, total_toClassic hq]
  constructor
  case bound =>
    intro b hb
    obtain ⟨b', hb', h⟩ := List.mem_map.1 ((ownBuckets_perm hbs).mem_iff.1 hb)
    cases h
    obtain ⟨x, hx, hnan⟩ := observedBuckets_float hbs hz b hb'
    have hle := Number.le_self_iff.2 fun h => hnan (Number.float.inj (hx.symm.trans h))
    exact HistogramPoint.exists_isLastBucketAt withCreated isGauge (hend ▸ List.mem_append_left _ hb') ⟨hle, hle⟩
  case upTo =>
    intro sign rank s hs
    obtain ⟨l, hl⟩ := additional_of_isLastBucketAt hq hz hs
    refine Sample.shows_of_count hl ?_
    rw [HistogramPoint.value_of_isLastBucketAt hsorted hs, total_upTo_finite hq]
  case last =>
    refine HistogramPoint.exists_isLastBucketAt withCreated isGauge (b := p.lastBucket bs) ?_ same_infinite
    rw [hend]
    exact List.mem_append_right _ (List.mem_singleton.2 rfl)
  case total => exact htotal
  case count =>
    intro n hn hle hs
    refine ⟨HistogramPoint.exists_countSample withCreated isGauge (hcount.trans hn) (hsum ▸ hs), ?_⟩
    rintro s hmem (hsuffix | hlast)
    · exact HistogramPoint.shows_countSample (hcount.trans hn) hmem hsuffix
    · have h := htotal s hlast
      rw [hn, Option.getD_some, max_eq_left hle] at h
      exact h

/-- **A converted histogram says what the native one does.**  The bounds of its buckets never descend and end with the
infinite one, its lines say what the native point does, and they stand together among the records of the family. -/
theorem toClassic_keeps_counts {p : NativePoint} {q : HistogramPoint} (hq : p.toClassic = .ok q)
    (hz : p.ThresholdInOrder) (withCreated isGauge : Bool) (family : Text) :
    q.buckets.Pairwise Bucket.EndsBy ∧
    (∃ bs n, q.buckets = bs ++ [⟨.float (.infinite false), n⟩]) ∧
    p.SaidBy (histogramSuffixes isGauge).1 (q.samples withCreated isGauge family) ∧
    ∀ (f : Family) ps rs, f.metadata.name = family → f.points = .native isGauge ps → p ∈ ps →
      f.records withCreated = .ok rs → (q.samples withCreated isGauge family).map Record.sample <:+: rs := by
  refine ⟨toClassic_ascending hq hz, ?_, saidBy_samples hq hz withCreated isGauge family, ?_⟩
  · obtain ⟨bs, -, rfl⟩ := toClassic_eq_ok hq
    exact ⟨bs, _, rfl⟩
  · rintro f ps rs rfl hf hp hr
    exact infix_of_records hf hp hq hr

/-- A point with buckets on both sides of zero, given out of order. -/
def twoSided : NativePoint where
  schema := 0
  zeroThreshold := .float (.finite false ⟨0x3F50624DD2F1A9FC, by decide⟩)
  zeroCount := 3
  positive := .ofList [(0, 1)]
  negative := .ofList [(1, 2), (2, 5)]
  labels := []
  count := some 12
  sum := some (.int 7)
  exemplars := []
  created := none
  scrape := none

theorem exists_toClassic_twoSided : ∃ q, twoSided.toClassic = .ok q := by
  have hbuckets : twoSided.ownBuckets.all (fun x => x.toOption.isSome) = true := by decide +kernel
  refine exists_toClassic fun x hx => ?_
  have h := List.all_eq_true.1 hbuckets x hx
  cases x with
  | ok b => exact ⟨b, rfl⟩
  | error f => cases h

theorem toClassic_keeps_counts_twoSided :
    ∃ q, twoSided.toClassic = .ok q ∧ twoSided.ThresholdInOrder ∧
      twoSided.countUpTo (.float (.finite true ⟨0x3FF0000000000000, by decide⟩)) = 7 ∧ twoSided.observed = 11 ∧
      twoSided.SaidBy "_count" (q.samples false false "power") := by
  obtain ⟨q, hq⟩ := exists_toClassic_twoSided
  have hnegative : twoSided.negative.entries.all (fun e => (negativeBucket twoSided.schema e).toOption.all
      (fun b => b.upperBound.le twoSided.zeroThreshold)) = true := by decide +kernel
  have hpositive : twoSided.positive.entries.all (fun e => (positiveBucket twoSided.schema e).toOption.all
      (fun b => twoSided.zeroThreshold.le b.upperBound)) = true := by decide +kernel
  have hz : twoSided.ThresholdInOrder := by
    rintro - z hz
    cases hz
    refine ⟨?_, ?_, ?_⟩
    · intro h
      cases h
    · intro e he b hb
      have h := List.all_eq_true.1 hnegative e he
      rw [hb] at h
      exact h
    · intro e he b hb
      have h := List.all_eq_true.1 hpositive e he
      rw [hb] at h
      exact h
  have hcount : twoSided.countUpTo (.float (.finite true ⟨0x3FF0000000000000, by decide⟩)) = 7 := by decide +kernel
  exact ⟨q, hq, hz, hcount, by decide, (toClassic_keeps_counts hq hz false false "power").2.2.1⟩

end NativePoint
end Exposition
