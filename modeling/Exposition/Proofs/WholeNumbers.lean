import Exposition.Histogram.Buckets
import Exposition.Proofs.Binary64.Closest
import Exposition.Proofs.Decimal.Printing
import Exposition.Proofs.Family.Numbers
/-!
# Whole numbers — in the place of doubles

A whole number that stands where a measurement does is written as the double closest to it, and so is a whole number among
the bounds of buckets kept.  Either fails just if the number has no double, a list of bounds before its length is even looked
at (`Bucket.ofLists_eq_tooLarge_iff`).  So the two never disagree on a number (`Number.int_inPlaceOfFloat`).
-/
namespace Exposition

open Binary64 (integerLimit finite IsClosest)

/-! ## One number -/

theorem Number.toBinary64?_eq_none_iff {x : Number} : x.toBinary64? = none ↔ x.TooLarge := by
  have hfault : x.fault? = some .integerTooLarge ↔ x.TooLarge := fault?_eq_some_iff.trans (and_iff_left rfl)
  rw [← hfault, fault?_eq, Option.ite_none_right_eq_some, and_iff_left rfl]

theorem Number.toText_of_some {x : Number} {d : Binary64} (h : x.toBinary64? = some d) : x.toText = .ok d.toText := by
  rw [toText, h]

theorem Number.toText_eq_error_iff {x : Number} : x.toText = .error .integerTooLarge ↔ x.TooLarge := by
  rw [← faultOf_eq_some_iff, faultOf_toText, fault?_eq_some_iff, and_iff_left rfl]

/-! ## Bounds of buckets -/

namespace Bucket

theorem bounds?_eq_none_iff : ∀ {xs : List Number}, bounds? xs = none ↔ ∃ x ∈ xs, x.TooLarge
  | [] => iff_of_false (fun h => by cases h) (by simp)
  | x :: xs => by
    rw [bounds?, List.exists_mem_cons_iff, ← Number.toBinary64?_eq_none_iff, ← bounds?_eq_none_iff]
    cases x.toBinary64? with
    | none => simp
    | some d =>
      cases bounds? xs with
      | none => simp
      | some ds => simp

/-- What is kept is each bound's double, in order. -/
theorem forall₂_of_bounds? : ∀ {xs : List Number} {ds : List Binary64}, bounds? xs = some ds →
    List.Forall₂ (fun x d => x.toBinary64? = some d) xs ds
  | [], ds, h => by
    cases h
    exact .nil
  | x :: xs, ds, h => by
    rw [bounds?] at h
    split at h
    · rename_i d ds' hd hds
      cases h
      exact .cons hd (forall₂_of_bounds? hds)
    · cases h

/-- Whether a list of bounds holds a whole number without a double. -/
def HasTooLarge (bounds : List Number) : Prop := ∃ n, Number.int n ∈ bounds ∧ integerLimit ≤ n.natAbs

theorem hasTooLarge_iff {bounds : List Number} : HasTooLarge bounds ↔ bounds? bounds = none := by
  rw [bounds?_eq_none_iff]
  constructor
  · rintro ⟨n, hmem, hn⟩
    exact ⟨.int n, hmem, n, rfl, hn⟩
  · rintro ⟨x, hmem, n, rfl, hn⟩
    exact ⟨n, hmem, hn⟩

variable {bounds : List Number} {counts : List Int}

theorem ofLists_of_bounds? {ds : List Binary64} (h : bounds? bounds = some ds) :
    ofLists bounds counts =
      if bounds.length = counts.length then .ok (List.zipWith (fun d n => ⟨.float d, n⟩) ds counts) else .error .lengthMismatch := by
  rw [ofLists, h, (forall₂_of_bounds? h).length_eq]

/-- **Too large a bound is complained of whatever the lengths.** -/
theorem ofLists_eq_tooLarge_iff : ofLists bounds counts = .error .integerTooLarge ↔ HasTooLarge bounds := by
  rw [hasTooLarge_iff]
  cases h : bounds? bounds with
  | none =>
    rw [ofLists, h]
    exact iff_of_true rfl rfl
  | some ds =>
    rw [ofLists_of_bounds? h]
    refine iff_of_false (fun hlists => ?_) (fun hnone => by cases hnone)
    split at hlists <;> cases hlists

theorem ofLists_eq_mismatch_iff :
    ofLists bounds counts = .error .lengthMismatch ↔ ¬HasTooLarge bounds ∧ bounds.length ≠ counts.length := by
  rw [hasTooLarge_iff]
  cases h : bounds? bounds with
  | none =>
    rw [ofLists, h]
    exact iff_of_false (fun hlists => by cases hlists) (fun hno => hno.1 rfl)
  | some ds =>
    rw [ofLists_of_bounds? h, and_iff_right (by simp)]
    split
    · rename_i hlength
      exact iff_of_false (fun hlists => by cases hlists) (fun hne => hne hlength)
    · rename_i hlength
      exact iff_of_true rfl hlength

/-- Each place has a bucket with the double of its bound and with its count. -/
theorem exists_ofLists (h : ¬HasTooLarge bounds) (hlength : bounds.length = counts.length) :
    ∃ bs, ofLists bounds counts = .ok bs ∧ bs.length = bounds.length ∧ ∀ i : Fin bounds.length,
      ∃ d n, bounds[i].toBinary64? = some d ∧ counts[i.val]? = some n ∧ bs[i.val]? = some ⟨.float d, n⟩ := by
  rw [hasTooLarge_iff] at h
  obtain ⟨ds, hds⟩ := Option.ne_none_iff_exists'.1 h
  have hforall := forall₂_of_bounds? hds
  have hsame := hforall.length_eq
  refine ⟨List.zipWith (fun d n => ⟨.float d, n⟩) ds counts, ?_, ?_, fun i => ?_⟩
  · rw [ofLists_of_bounds? hds, if_pos hlength]
  · rw [List.length_zipWith]
    omega
  · have hd : i.val < ds.length := hsame ▸ i.isLt
    have hc : i.val < counts.length := hlength ▸ i.isLt
    refine ⟨ds[i.val], counts[i.val], hforall.get i.isLt hd, List.getElem?_eq_getElem hc, ?_⟩
    rw [List.getElem?_zipWith, List.getElem?_eq_getElem hd, List.getElem?_eq_getElem hc]

end Bucket

/-- **A whole number in the place of a double.**  It has no double just if it is `2 ^ 1024 - 2 ^ 970` or more, on either side
of zero, and then cannot be written.  Otherwise it has the closest one, is written as that one is, and is read back as it.
Bounds of buckets are refused for such a number whatever the lengths of the lists, then if the lengths differ, and else each
place has the double of its bound and its count. -/
theorem Number.int_inPlaceOfFloat :
    (∀ n : Int,
      ((Number.int n).toBinary64? = none ↔ integerLimit ≤ n.natAbs) ∧
      ((Number.int n).toText = .error .integerTooLarge ↔ integerLimit ≤ n.natAbs) ∧
      (n.natAbs < integerLimit →
        ∃ s r, (Number.int n).toBinary64? = some (finite s r) ∧ IsClosest n s r ∧
          (Number.int n).toText = (Number.float (finite s r)).toText ∧
          ∃ t d, (Number.int n).toText = .ok t ∧ SignedDecimal.read? t = some d ∧ d.toBinary64? = some (finite s r))) ∧
    ∀ (bounds : List Number) (counts : List Int),
      (Bucket.ofLists bounds counts = .error .integerTooLarge ↔ Bucket.HasTooLarge bounds) ∧
      (Bucket.ofLists bounds counts = .error .lengthMismatch ↔
        ¬Bucket.HasTooLarge bounds ∧ bounds.length ≠ counts.length) ∧
      (¬Bucket.HasTooLarge bounds → bounds.length = counts.length →
        ∃ bs, Bucket.ofLists bounds counts = .ok bs ∧ bs.length = bounds.length ∧ ∀ i : Fin bounds.length,
          ∃ d n, bounds[i].toBinary64? = some d ∧ counts[i.val]? = some n ∧ bs[i.val]? = some ⟨.float d, n⟩) := by
  refine ⟨fun n => ⟨Binary64.ofInt?_eq_none_iff n, ?_, fun h => ?_⟩, fun bounds counts =>
    ⟨Bucket.ofLists_eq_tooLarge_iff, Bucket.ofLists_eq_mismatch_iff, Bucket.exists_ofLists⟩⟩
  · rw [Number.toText_eq_error_iff, Number.tooLarge_int_iff]
  · obtain ⟨s, r, hn, hclosest⟩ := Binary64.exists_closest h
    obtain ⟨d, hread, hbest, -⟩ := Binary64.read?_toText_finite s r
    have htext : (Number.int n).toText = .ok (finite s r).toText := Number.toText_of_some hn
    exact ⟨s, r, hn, hclosest, htext, _, d, htext, hread, SignedDecimal.toBinary64?_eq_some_iff.2 hbest.rounds⟩

/-- The greatest whole number with a double and the one behind it, a bound that is refused although there is no count for it,
and one halfway between two doubles. -/
theorem Number.int_inPlaceOfFloat_edges :
    (∃ s r, (Number.int (2 ^ 1024 - 2 ^ 970 - 1)).toBinary64? = some (finite s r) ∧
      IsClosest ((2 ^ 1024 - 2 ^ 970 - 1 : Int) : ℚ) s r) ∧
    (Number.int (2 ^ 1024 - 2 ^ 970)).toText = .error .integerTooLarge ∧
    Bucket.ofLists [.int (-2 ^ 1024)] [] = .error .integerTooLarge ∧
    ∃ d c, Bucket.ofLists [.int (2 ^ 53 + 1), .float (.infinite false)] [1, 2] = .ok [⟨.float d, 1⟩, c] ∧
      Binary64.ofInt? (2 ^ 53 + 1) = some d := by
  obtain ⟨hnumber, hlists⟩ := Number.int_inPlaceOfFloat
  have hnone : ¬Bucket.HasTooLarge [.int (2 ^ 53 + 1), .float (.infinite false)] := by
    rintro ⟨n, hmem, hn⟩
    simp only [List.mem_cons, Number.int.injEq, reduceCtorEq, List.not_mem_nil, or_false] at hmem
    subst hmem
    exact absurd hn (by decide +kernel)
  obtain ⟨s, r, hgreatest, hclosest, -⟩ := (hnumber (2 ^ 1024 - 2 ^ 970 - 1)).2.2 (by decide +kernel)
  obtain ⟨bs, hbs, hlength, hat⟩ := (hlists [.int (2 ^ 53 + 1), .float (.infinite false)] [1, 2]).2.2 hnone rfl
  obtain ⟨b, c, rfl⟩ := List.length_eq_two.1 hlength
  obtain ⟨d, n, hbound, hcount, hb⟩ := hat ⟨0, by decide⟩
  cases hcount
  cases hb
  refine ⟨⟨s, r, hgreatest, hclosest⟩, ?_, ?_, d, c, hbs, hbound⟩
  · exact (hnumber (2 ^ 1024 - 2 ^ 970)).2.1.2 (by decide +kernel)
  · exact (hlists _ _).1.2 ⟨-2 ^ 1024, List.mem_cons_self, by decide +kernel⟩

/-- A tie goes to the even double. -/
example : (Number.int (2 ^ 53 + 1)).toText = .ok "9007199254740992.0" := by decide +kernel

end Exposition
