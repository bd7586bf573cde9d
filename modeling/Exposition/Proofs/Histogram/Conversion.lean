import Exposition.Proofs.Document.Streaming
import Exposition.Proofs.Histogram.Totals
import Exposition.Proofs.Mapping
/-!
# Conversion — native buckets in order, and nothing else changed

A conversion lays the buckets of a native point out by index (`NativePoint.laidOut_of_toClassic`) and carries all else over
(`NativePoint.carriedBy_of_toClassic`).  Indexes are sorted, so it makes no difference in which order they were counted
(`NativePoint.Refills.toClassic_eq`), not even to a document that holds the point at any depth
(`Document.encode_of_refills`).
-/
namespace Exposition

open List (Forall₂)

namespace Native

/-! ## Indexes in order -/

variable {m m' : Mapping Int Int}

/-- Mappings that say the same have their entries in the same order, once these are in any order that keys settle. -/
theorem entries_congr {R : Int × Int → Int × Int → Prop} (hR : ∀ a b, R a b → R b a → a.1 = b.1) (h : m.Agrees m')
    {l l' : List (Int × Int)} (hl : l.Perm m.entries) (hl' : l'.Perm m'.entries) (hs : l.Pairwise R)
    (hs' : l'.Pairwise R) : l = l' := by
  refine List.Perm.eq_of_pairwise (fun a b ha hb hab hba => ?_) hs hs'
    (hl.trans ((Mapping.agrees_iff_perm.1 h).trans hl'.symm))
  have ha' : a ∈ m'.entries := (h.mem_iff a).1 (hl.mem_iff.1 ha)
  exact Mapping.eq_of_mem_entries ha' (hl'.mem_iff.1 hb) (hR a b hab hba)

theorem ascending_congr (h : m.Agrees m') : ascending m = ascending m' :=
  entries_congr (fun _ _ => le_antisymm) h (ascending_perm m) (ascending_perm m') (ascending_pairwise m)
    (ascending_pairwise m')

theorem descending_congr (h : m.Agrees m') : descending m = descending m' :=
  entries_congr (fun _ _ hab hba => le_antisymm hba hab) h (descending_perm m) (descending_perm m') (descending_pairwise m)
    (descending_pairwise m')

theorem keys_ne {l : List (Int × Int)} (h : l.Perm m.entries) : l.Pairwise (fun a b => a.1 ≠ b.1) :=
  List.pairwise_map.1 ((h.map Prod.fst).nodup_iff.2 m.nodup)

theorem ascending_keys (m : Mapping Int Int) : ((ascending m).map Prod.fst).Pairwise (· < ·) := by
  rw [List.pairwise_map]
  exact ((ascending_pairwise m).and (keys_ne (ascending_perm m))).imp fun h => lt_of_le_of_ne h.1 h.2

theorem descending_keys (m : Mapping Int Int) : ((descending m).map Prod.fst).Pairwise (· > ·) := by
  rw [List.pairwise_map]
  exact ((descending_pairwise m).and (keys_ne (descending_perm m))).imp fun h => lt_of_le_of_ne h.1 h.2.symm

/-! ## Buckets by index -/

/-- Buckets of the indexes `is`, which are those that the mapping counts at: each with its count there, and with an upper
bound that `IsBound` tells. -/
structure Counts (m : Mapping Int Int) (IsBound : Int → Number → Prop) (is : List Int) (bs : List Bucket) : Prop where
  indexes : ∀ i, i ∈ is ↔ m.get? i ≠ none
  buckets : Forall₂ (fun i b => IsBound i b.upperBound ∧ m.get? i = some b.count) is bs

theorem counts_of_mapM {IsBound : Int → Number → Prop} {bucket : Int × Int → Except Fault Bucket}
    (hbucket : ∀ e b, bucket e = .ok b → IsBound e.1 b.upperBound ∧ b.count = e.2) {l : List (Int × Int)}
    {bs : List Bucket} (hl : l.Perm m.entries) (h : l.mapM bucket = .ok bs) : Counts m IsBound (l.map Prod.fst) bs := by
  constructor
  case indexes =>
    intro i
    rw [Mapping.get?_ne_none_iff]
    exact (hl.map Prod.fst).mem_iff
  case buckets =>
    have hmem : ∀ e ∈ l, m.get? e.1 = some e.2 := fun e he => Mapping.get?_eq_some_iff.2 (hl.mem_iff.1 he)
    rw [List.forall₂_map_left_iff]
    refine ((List.forall₂_and_left l bs).2 ⟨hmem, mapM_eq_ok_iff.1 h⟩).imp fun e b heb => ?_
    obtain ⟨hbound, hcount⟩ := hbucket e b heb.2
    exact ⟨hbound, hcount ▸ heb.1⟩

end Native

open Native

namespace NativePoint

variable {p p' : NativePoint} {q : HistogramPoint}

/-- The classic buckets of a native point in order: those of negative indexes from the highest down, each ending where its
mirror image begins; the zero bucket if it counts anything; those of positive indexes from the lowest up; and one without
a bound for the rest. -/
structure LaidOut (p : NativePoint) (down up : List Int) (negative zero positive : List Bucket) (last : Bucket) : Prop where
  descends : down.Pairwise (· > ·)
  negative : Counts p.negative (fun i x => ∃ y, upperBound p.schema (i - 1) = .ok y ∧ x = .float y.negate) down negative
  zero : if 0 < p.zeroCount then ∃ z, p.zeroThreshold.toBinary64? = some z ∧ zero = [⟨.float z, p.zeroCount⟩] else zero = []
  ascends : up.Pairwise (· < ·)
  positive : Counts p.positive (fun i x => ∃ y, upperBound p.schema i = .ok y ∧ x = .float y) up positive
  last : last = ⟨.float (.infinite false), max (p.count.getD p.observed - p.observed) 0⟩

theorem laidOut_of_toClassic (h : p.toClassic = .ok q) : ∃ down up negative zero positive last,
    p.LaidOut down up negative zero positive last ∧ q.buckets = negative ++ zero ++ positive ++ [last] := by
  obtain ⟨bs, hbs, rfl⟩ := toClassic_eq_ok h
  have htotal := total_eq_observed hbs
  obtain ⟨negative, zero, positive, hn, hz, hp, rfl⟩ := observedBuckets_eq_ok hbs
  refine ⟨(descending p.negative).map Prod.fst, (ascending p.positive).map Prod.fst, negative, zero, positive, _, ?_, rfl⟩
  constructor
  case descends => exact descending_keys p.negative
  case ascends => exact ascending_keys p.positive
  case negative =>
    refine counts_of_mapM (fun e b hb => ?_) (descending_perm p.negative) hn
    obtain ⟨x, hx, rfl⟩ := negativeBucket_eq_ok hb
    exact ⟨⟨x, hx, rfl⟩, rfl⟩
  case positive =>
    refine counts_of_mapM (fun e b hb => ?_) (ascending_perm p.positive) hp
    obtain ⟨x, hx, rfl⟩ := positiveBucket_eq_ok hb
    exact ⟨⟨x, hx, rfl⟩, rfl⟩
  case zero =>
    rcases zeroBucket_eq_ok hz with ⟨hcount, rfl⟩ | ⟨hcount, z, hthreshold, rfl⟩
    · rw [if_neg hcount]
    · rw [if_pos hcount]
      exact ⟨z, hthreshold, rfl⟩
  case last => rw [lastBucket, htotal]

/-- All that a point holds besides its buckets. -/
structure CarriedBy (p : NativePoint) (q : HistogramPoint) : Prop where
  labels : q.labels = p.labels
  count : q.count = p.count
  sum : q.sum = p.sum
  exemplars : q.exemplars = p.exemplars
  created : q.created = p.created
  scrape : q.scrape = p.scrape

theorem carriedBy_of_toClassic (h : p.toClassic = .ok q) : p.CarriedBy q := by
  obtain ⟨bs, -, rfl⟩ := toClassic_eq_ok h
  exact ⟨rfl, rfl, rfl, rfl, rfl, rfl⟩

/-! ## Buckets that were filled in another order -/

/-- Points that differ at most in the order in which their buckets were filled. -/
structure Refills (p p' : NativePoint) : Prop where
  negative : p.negative.Agrees p'.negative
  positive : p.positive.Agrees p'.positive
  rest : p' = { p with negative := p'.negative, positive := p'.positive }

/-- **A conversion does not tell in which order buckets were filled**, whether it succeeds or fails. -/
theorem Refills.toClassic_eq (h : p.Refills p') : p.toClassic = p'.toClassic := by
  have hneg := descending_congr h.negative
  have hpos := ascending_congr h.positive
  rw [h.rest]
  unfold toClassic observedBuckets
  simp only [hneg, hpos]
  rfl

end NativePoint

inductive Points.Refills : Points → Points → Prop
  | refl (ps : Points) : Refills ps ps
  | native (isGauge : Bool) {ps ps' : List NativePoint} (h : Forall₂ NativePoint.Refills ps ps') :
      Refills (.native isGauge ps) (.native isGauge ps')

/-- Snapshots that differ at most in the order in which buckets of native points were filled. -/
inductive Snapshot.Refills : Snapshot → Snapshot → Prop
  | refl (s : Snapshot) : Refills s s
  | family (m : Metadata) {ps ps' : Points} (h : ps.Refills ps') : Refills (.family ⟨m, ps⟩) (.family ⟨m, ps'⟩)
  | extended (className : Text) {s s' : Snapshot} (h : s.Refills s') : Refills (.extended className s) (.extended className s')

theorem mapM_congr_of_forall₂ {ε α β : Type} {f : α → Except ε β} {R : α → α → Prop} (hf : ∀ a b, R a b → f a = f b) :
    ∀ {l l' : List α}, Forall₂ R l l' → l.mapM f = l'.mapM f
  | _, _, .nil => rfl
  | _, _, .cons h hl => by rw [mapM_cons_eq_bind, mapM_cons_eq_bind, hf _ _ h, mapM_congr_of_forall₂ hf hl]

theorem Family.records_of_refills (withCreated : Bool) (m : Metadata) {ps ps' : Points} (h : ps.Refills ps') :
    Family.records withCreated ⟨m, ps⟩ = Family.records withCreated ⟨m, ps'⟩ := by
  cases h with
  | refl => rfl
  | native isGauge h =>
    simp only [Family.records, mapM_congr_of_forall₂ (fun _ _ h => h.toClassic_eq) h]
    rfl

namespace Snapshot

theorem Refills.size_eq : ∀ {s s' : Snapshot}, s.Refills s' → s.size = s'.size
  | _, _, .refl _ => rfl
  | _, _, .family _ (.refl _) => rfl
  | _, _, .family _ (.native _ h) => h.length_eq
  | _, _, .extended _ h => h.size_eq

theorem Refills.className_eq {s s' : Snapshot} (h : s.Refills s') : s.className = s'.className := by
  cases h with
  | refl => rfl
  | family m h => cases h <;> rfl
  | extended c h => rfl

theorem Refills.family_emission_eq (withCreated : Bool) : ∀ {s s' : Snapshot}, s.Refills s' →
    s.family?.map (·.emission withCreated) = s'.family?.map (·.emission withCreated)
  | _, _, .refl _ => rfl
  | _, _, .family m h => by
    rw [family?, family?, Option.map_some, Option.map_some, Family.emission, Family.emission,
      Family.records_of_refills withCreated m h]
  | _, _, .extended _ h => h.family_emission_eq withCreated

theorem emission_eq_getD (withCreated : Bool) (s : Snapshot) :
    s.emission withCreated =
      if s.isEmpty then .empty
      else (s.family?.map (·.emission withCreated)).getD (.ofFault (.unsupported s.className)) := by
  unfold emission
  cases s.family? <;> rfl

theorem Refills.emission_eq (withCreated : Bool) {s s' : Snapshot} (h : s.Refills s') :
    s.emission withCreated = s'.emission withCreated := by
  rw [emission_eq_getD, emission_eq_getD, isEmpty, isEmpty, h.size_eq, h.className_eq, h.family_emission_eq withCreated]

end Snapshot

namespace Document

theorem emission_of_refills (withCreated : Bool) {ss ss' : List Snapshot} (h : Forall₂ Snapshot.Refills ss ss') :
    emission withCreated ss = emission withCreated ss' := by
  have hmap : ss.map (·.emission withCreated) = ss'.map (·.emission withCreated) := by
    induction h with
    | nil => rfl
    | cons h _ ih => rw [List.map_cons, List.map_cons, h.emission_eq withCreated, ih]
  rw [emission, emission, hmap]

/-- **A document does not tell in which order the buckets of its native points were filled.** -/
theorem encode_of_refills (withCreated : Bool) {ss ss' : List Snapshot} (h : Forall₂ Snapshot.Refills ss ss') :
    encode withCreated ss = encode withCreated ss' := by
  rw [encode_eq, encode_eq, emission_of_refills withCreated h]

end Document

/-! ## Families -/

/-- **A native family becomes a classic one of the same metadata**, point by point, which is written alike. -/
theorem Family.toClassic_eq_ok {f g : Family} {isGauge : Bool} {ps : List NativePoint} (hf : f.points = .native isGauge ps)
    (h : f.toClassic = .ok g) : ∃ qs, Forall₂ (fun p q => p.toClassic = .ok q) ps qs ∧
      g = ⟨f.metadata, .histogram isGauge qs⟩ ∧ ∀ withCreated, g.records withCreated = f.records withCreated := by
  obtain ⟨m, points⟩ := f
  cases hf
  obtain ⟨qs, hqs, rfl⟩ := map_eq_ok_iff.1 h
  refine ⟨qs, mapM_eq_ok_iff.1 hqs, rfl, fun withCreated => ?_⟩
  simp only [records, hqs]
  rfl

namespace NativePoint

/-- **A conversion only puts buckets in order.**  The buckets of a converted point are those of the native one, laid out by
index, and a last one for the rest; all else it holds is carried over.  A family is converted point by point and keeps its
metadata and whether it is a gauge, and is written as what it becomes.  An index that is filled more than once counts what
it was filled with last; points that were filled in another order become the same, and documents that hold them are the
same. -/
theorem toClassic_reorders :
    (∀ (p : NativePoint) (q : HistogramPoint), p.toClassic = .ok q → p.CarriedBy q ∧
      ∃ down up negative zero positive last,
        p.LaidOut down up negative zero positive last ∧ q.buckets = negative ++ zero ++ positive ++ [last]) ∧
    (∀ (f g : Family) isGauge ps, f.points = .native isGauge ps → f.toClassic = .ok g →
      ∃ qs, Forall₂ (fun p q => p.toClassic = .ok q) ps qs ∧ g = ⟨f.metadata, .histogram isGauge qs⟩ ∧
        ∀ withCreated, g.records withCreated = f.records withCreated) ∧
    (∀ (es : List (Int × Int)) i, (Mapping.ofList es).get? i = (es.reverse.find? (fun e => e.1 = i)).map Prod.snd) ∧
    (∀ p p' : NativePoint, p.Refills p' → p.toClassic = p'.toClassic) ∧
    ∀ withCreated ss ss', Forall₂ Snapshot.Refills ss ss' →
      Document.encode withCreated ss = Document.encode withCreated ss' := by
  refine ⟨fun p q h => ⟨carriedBy_of_toClassic h, laidOut_of_toClassic h⟩, ?_, Mapping.get?_ofList,
    fun p p' h => h.toClassic_eq, ?_⟩
  · exact fun f g isGauge ps hf h => Family.toClassic_eq_ok hf h
  · exact fun withCreated ss ss' h => Document.encode_of_refills withCreated h

/-- The point `twoSided`, with its negative buckets given from the highest index down, and an index given twice. -/
def twoSidedRefilled : NativePoint :=
  { twoSided with positive := .ofList [(0, 8), (0, 1)], negative := .ofList [(2, 5), (1, 2)] }

theorem refills_twoSided : twoSided.Refills twoSidedRefilled where
  negative := Mapping.agrees_iff_perm.2 (by decide)
  positive := Mapping.agrees_iff_perm.2 (by decide)
  rest := rfl

theorem toClassic_reorders_twoSided :
    let family (p : NativePoint) : Family := ⟨⟨"power", none, none⟩, .native true [p]⟩
    ∃ q, twoSided.toClassic = .ok q ∧ twoSidedRefilled.toClassic = .ok q ∧ twoSided.CarriedBy q ∧
      (∃ negative zero positive last, twoSided.LaidOut [2, 1] [0] negative zero positive last ∧
        q.buckets = negative ++ zero ++ positive ++ [last]) ∧
      Family.toClassic (family twoSided) = .ok ⟨⟨"power", none, none⟩, .histogram true [q]⟩ ∧
      Family.records false ⟨⟨"power", none, none⟩, .histogram true [q]⟩ = (family twoSided).records false ∧
      Document.encode false [.family (family twoSided)] = Document.encode false [.family (family twoSidedRefilled)] := by
  intro family
  obtain ⟨hpoints, hfamilies, -, hrefills, hdocuments⟩ := toClassic_reorders
  obtain ⟨q, hq⟩ := exists_toClassic_twoSided
  obtain ⟨hcarried, down, up, negative, zero, positive, last, hlaidOut, hbuckets⟩ := hpoints twoSided q hq
  have hdown : down = [2, 1] := by
    refine hlaidOut.descends.eq_of_mem_iff (by decide) fun i => ?_
    rw [hlaidOut.negative.indexes, Mapping.get?_ne_none_iff]
    exact (List.Perm.swap 2 1 []).mem_iff
  have hup : up = [0] := by
    refine hlaidOut.ascends.eq_of_mem_iff (by decide) fun i => ?_
    rw [hlaidOut.positive.indexes, Mapping.get?_ne_none_iff]
    rfl
  subst hdown hup
  have hfamily : Family.toClassic (family twoSided) = .ok ⟨⟨"power", none, none⟩, .histogram true [q]⟩ :=
    map_eq_ok_iff.2 ⟨[q], mapM_eq_ok_iff.2 (.cons hq .nil), rfl⟩
  obtain ⟨-, -, -, hrecords⟩ := hfamilies _ _ true [twoSided] rfl hfamily
  have hrefilled : Snapshot.Refills (.family (family twoSided)) (.family (family twoSidedRefilled)) :=
    .family _ (.native true (.cons refills_twoSided .nil))
  exact ⟨q, hq, (hrefills _ _ refills_twoSided).symm.trans hq, hcarried, ⟨negative, zero, positive, last, hlaidOut, hbuckets⟩,
    hfamily, hrecords false, hdocuments false _ _ (.cons hrefilled .nil)⟩

end NativePoint
end Exposition
