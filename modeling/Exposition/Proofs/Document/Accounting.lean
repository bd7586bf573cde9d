import Exposition.Proofs.Document.Streaming
import Mathlib.Order.Bounds.Defs
/-!
# Accounting — what the log is told of a document

A document that is finished is told with the number of snapshots that had data points and the number of those that had
none.  One that the sink breaks off is told as an error with the number of snapshots that had data points among those
whose text the sink took as a whole, and one that cannot be produced is not told at all.  The counter is carried along with
the sink (`writeFrom_accounts`): at each snapshot either all of its text fits and it is counted, or the count ends.
-/
namespace Exposition
namespace Document

/-- How many of the snapshots have data points. -/
def withData (ss : List Snapshot) : Nat := ss.countP (fun s => 0 < s.size)

/-- How many of the snapshots have no data points. -/
def withoutData (ss : List Snapshot) : Nat := ss.countP (fun s => s.size = 0)

/-- What is written of snapshots, without the last line. -/
def body (withCreated : Bool) (ss : List Snapshot) : Emission := .concat (ss.map (·.emission withCreated))

/-- All of the text of the snapshots fits into the sink, and none of them has a fault. -/
def Fits (withCreated : Bool) (sink : Sink) (ss : List Snapshot) : Prop :=
  (body withCreated ss).fault = none ∧ sink.fits (bytesOf (body withCreated ss)).length = true

/-- The first `k` snapshots are the most that fit into the sink. -/
def MostFitting (withCreated : Bool) (sink : Sink) (ss : List Snapshot) (k : Nat) : Prop :=
  IsGreatest {j | j ≤ ss.length ∧ Fits withCreated sink (ss.take j)} k

theorem withData_cons (s : Snapshot) (ss : List Snapshot) :
    withData (s :: ss) = (if s.isEmpty then 0 else 1) + withData ss := by
  unfold withData Snapshot.isEmpty
  rw [List.countP_cons]
  by_cases h : s.size = 0
  · simp [h]
  · simp [h, Nat.pos_of_ne_zero h, Nat.add_comm]

theorem withoutData_cons (s : Snapshot) (ss : List Snapshot) :
    withoutData (s :: ss) = (if s.isEmpty then 1 else 0) + withoutData ss := by
  unfold withoutData Snapshot.isEmpty
  rw [List.countP_cons]
  by_cases h : s.size = 0
  · simp [h, Nat.add_comm]
  · simp [h]

theorem withData_add_withoutData : ∀ (ss : List Snapshot), withData ss + withoutData ss = ss.length
  | [] => rfl
  | s :: ss => by
    have ih := withData_add_withoutData ss
    rw [withData_cons, withoutData_cons, List.length_cons]
    by_cases h : s.isEmpty = true
    · rw [if_pos h, if_pos h]
      omega
    · rw [if_neg h, if_neg h]
      omega

section Fits

variable {withCreated : Bool} {before after : Sink} {s : Snapshot} {ss : List Snapshot}

theorem body_cons : body withCreated (s :: ss) = s.emission withCreated ++ body withCreated ss := by
  unfold body
  rw [List.map_cons, Emission.concat_cons]

theorem fits_nil : Fits withCreated before [] := ⟨rfl, before.fits_zero⟩

theorem fits_cons_of_isEmpty (h : s.isEmpty = true) :
    Fits withCreated before (s :: ss) ↔ Fits withCreated before ss := by
  unfold Fits
  rw [body_cons, emission_of_isEmpty h, Emission.empty_append]

/-- Behind a snapshot that was taken as a whole, those that fit are those for which the sink it left has room. -/
theorem fits_cons_of_received (hef : (s.emission withCreated).fault = none)
    (h : Sink.Received before after (bytesOf (s.emission withCreated)))
    (hf : before.fits (bytesOf (s.emission withCreated)).length = true) :
    Fits withCreated before (s :: ss) ↔ Fits withCreated after ss := by
  unfold Fits
  rw [body_cons, Emission.fault_append_of_none hef, bytesOf, Emission.text_append_of_none hef, Utf8.encode_append,
    List.length_append]
  exact and_congr_right fun _ => iff_of_eq (congrArg (· = true) (h.fits_append hf _))

theorem not_fits_cons (hf : before.fits (bytesOf (s.emission withCreated)).length = false) :
    ¬Fits withCreated before (s :: ss) := by
  rintro ⟨hfault, hfits⟩
  rw [body_cons] at hfault hfits
  rw [bytesOf, Emission.text_append_of_none (Emission.fault_append_eq_none_iff.1 hfault).1, Utf8.encode_append] at hfits
  exact absurd hfits (Bool.eq_false_iff.1 (Sink.fits_append_of_not hf _))

theorem mostFitting_nil : MostFitting withCreated before [] 0 :=
  ⟨⟨Nat.le_refl 0, fits_nil⟩, fun _ hj => hj.1⟩

theorem mostFitting_zero (h : ∀ rest, ¬Fits withCreated before (s :: rest)) :
    MostFitting withCreated before (s :: ss) 0 := by
  refine ⟨⟨Nat.zero_le _, fits_nil⟩, fun j hj => ?_⟩
  cases j with
  | zero => exact Nat.le_refl 0
  | succ j => exact absurd hj.2 (h _)

/-- One snapshot more fits if it is put in front of those that fit into what it leaves. -/
theorem MostFitting.cons {k : Nat} (h : MostFitting withCreated after ss k)
    (hs : ∀ rest, Fits withCreated before (s :: rest) ↔ Fits withCreated after rest) :
    MostFitting withCreated before (s :: ss) (k + 1) := by
  obtain ⟨⟨hk, hfits⟩, hmost⟩ := h
  refine ⟨⟨Nat.succ_le_succ hk, (hs _).2 hfits⟩, fun j hj => ?_⟩
  cases j with
  | zero => exact Nat.zero_le _
  | succ j => exact Nat.succ_le_succ (hmost ⟨Nat.le_of_succ_le_succ hj.1, (hs _).1 hj.2⟩)

theorem MostFitting.eq_length {k : Nat} (h : MostFitting withCreated before ss k) (hs : Fits withCreated before ss) :
    k = ss.length := by
  have hall : Fits withCreated before (ss.take ss.length) := by rwa [List.take_length]
  exact Nat.le_antisymm h.1.1 (h.2 ⟨Nat.le_refl _, hall⟩)

end Fits

/-! ## The log -/

/-- What the log is told of the snapshots `ss`, behind others of which so many had data points and so many had none. -/
def Accounts (withCreated : Bool) (elapsed : Binary64) (before : Sink) (written skipped : Nat) (ss : List Snapshot)
    (w : Written) : Prop :=
  match w.fault with
  | none => w.log = [.ofDocument ↑(written + withData ss) ↑(skipped + withoutData ss) elapsed]
  | some (.document _) => w.log = []
  | some (.sink reason) => ∃ k, MostFitting withCreated before ss k ∧
      w.log = [.errorMet sinkErrorKind reason (some (written + withData (ss.take k)))]

section Accounts

variable {withCreated : Bool} {elapsed : Binary64} {before after : Sink} {s : Snapshot} {ss : List Snapshot}
  {written skipped : Nat} {w : Written}

theorem accounts_of_sinkFailed (h : MostFitting withCreated before ss 0) (reason : Text) :
    Accounts withCreated elapsed before written skipped ss (sinkFailed after written reason) := ⟨0, h, rfl⟩

/-- A snapshot without data points is one more that was left out. -/
theorem Accounts.skip (h : Accounts withCreated elapsed before written (skipped + 1) ss w) (hs : s.isEmpty = true) :
    Accounts withCreated elapsed before written skipped (s :: ss) w := by
  unfold Accounts at h ⊢
  split at h
  · rw [h, withData_cons, withoutData_cons, if_pos hs, if_pos hs, Nat.zero_add, Nat.add_assoc]
  · exact h
  · obtain ⟨k, hk, hlog⟩ := h
    refine ⟨k + 1, hk.cons fun _ => fits_cons_of_isEmpty hs, ?_⟩
    rw [hlog, List.take_succ_cons, withData_cons, if_pos hs, Nat.zero_add]

/-- A snapshot whose text was taken as a whole is one more that was written. -/
theorem Accounts.count (h : Accounts withCreated elapsed after (written + 1) skipped ss w) (hs : s.isEmpty = false)
    (hfits : ∀ rest, Fits withCreated before (s :: rest) ↔ Fits withCreated after rest) :
    Accounts withCreated elapsed before written skipped (s :: ss) w := by
  have hcount : ∀ rest, written + withData (s :: rest) = written + 1 + withData rest := by
    intro rest
    rw [withData_cons, hs, if_neg (by decide), Nat.add_assoc]
  unfold Accounts at h ⊢
  split at h
  · rw [h, hcount, withoutData_cons, hs, if_neg (by decide), Nat.zero_add]
  · exact h
  · obtain ⟨k, hk, hlog⟩ := h
    refine ⟨k + 1, hk.cons hfits, ?_⟩
    rw [hlog, List.take_succ_cons, hcount]

theorem finish_accounts (withCreated : Bool) (elapsed : Binary64) (before : Sink) (written skipped : Nat) :
    Accounts withCreated elapsed before written skipped [] (finish elapsed before written skipped) := by
  unfold finish
  split
  · exact accounts_of_sinkFailed mostFitting_nil _
  · split
    · exact accounts_of_sinkFailed mostFitting_nil _
    · rfl

/-- **The counter keeps step with the sink**, snapshot by snapshot. -/
theorem writeFrom_accounts (withCreated : Bool) (elapsed : Binary64) :
    ∀ (ss : List Snapshot) (before : Sink) (written skipped : Nat),
      Accounts withCreated elapsed before written skipped ss (writeFrom withCreated elapsed before written skipped ss)
  | [], before, written, skipped => finish_accounts withCreated elapsed before written skipped
  | s :: ss, before, written, skipped => by
    rw [writeFrom]
    by_cases he : s.isEmpty = true
    · rw [if_pos he]
      exact (writeFrom_accounts withCreated elapsed ss before written (skipped + 1)).skip he
    rw [if_neg he]
    obtain ⟨h, hf⟩ := Sink.writeAll_received (s.emission withCreated).pieces before
    simp only
    cases hw : before.writeAll (s.emission withCreated).pieces with
    | mk after ok =>
      rw [hw] at h hf
      simp only at h hf
      cases ok with
      | false => exact accounts_of_sinkFailed (mostFitting_zero fun _ => not_fits_cons hf.symm) _
      | true =>
        cases hef : (s.emission withCreated).fault with
        | some f => exact rfl
        | none =>
          exact (writeFrom_accounts withCreated elapsed ss after (written + 1) skipped).count (Bool.eq_false_iff.2 he)
            fun _ => fits_cons_of_received hef h hf.symm

end Accounts

end Document
end Exposition
