import Exposition.Document
import Exposition.Proofs.Emission
import Exposition.Proofs.Sink
/-!
# Streaming — a document on its way to a sink that may fail

Streaming a document is streaming its emission: the sink receives the first bytes of it for which there is room, and the
attempt ends as it would without a limit unless they are not all (`write_streamed`).  A sink that has received
something before differs from a fresh one with the same room only in what it keeps and counts (`write_onTopOf`).  Both
carry over to a run of documents (`writeEach_streams`).
-/
namespace Exposition
namespace Document

def bytesOf (e : Emission) : Bytes := Utf8.encode e.text

/-- How streaming an emission to a sink has to end: if there was no room for it by the sink's error, else by the fault
of the emission, and if it has none by what the flush gives. -/
def endOf (before : Sink) (e : Emission) : Option WriteFault :=
  if before.fits (bytesOf e).length then
    match e.fault with
    | some f => some (.document f)
    | none => before.flushError.map .sink
  else some (.sink before.writeError)

def reachesFlush (before : Sink) (e : Emission) : Bool := before.fits (bytesOf e).length && e.fault.isNone

/-- `w` is what streaming the emission `e` to the sink `before` leaves. -/
structure Streamed (before : Sink) (e : Emission) (w : Written) : Prop where
  bytes : w.sink.bytes = before.bytes ++ before.share (bytesOf e)
  room : w.sink.room = before.room.map (· - (bytesOf e).length)
  writeError : w.sink.writeError = before.writeError
  flushErrors : w.sink.flushErrors = fun i => before.flushErrors (i + if reachesFlush before e then 1 else 0)
  fault : w.fault = endOf before e
  attempts : w.sink.attempts = before.attempts + (if reachesFlush before e then 1 else 0)
  flushes : w.sink.flushes =
    before.flushes + (if reachesFlush before e && before.flushError.isNone then 1 else 0)

/-! ## One document -/

/-- Pieces that do not fit end the attempt, whatever would have followed. -/
theorem streamed_of_not_fits {before after : Sink} {e : Emission} (rest : Emission)
    (h : Sink.Received before after (bytesOf e)) (hf : before.fits (bytesOf e).length = false) (written : Nat) :
    Streamed before (e ++ rest) (sinkFailed after written after.writeError) := by
  have hb : ∃ c, bytesOf (e ++ rest) = bytesOf e ++ c := by
    cases he : e.fault with
    | none => exact ⟨bytesOf rest, by rw [bytesOf, Emission.text_append_of_none he, Utf8.encode_append]; rfl⟩
    | some f => exact ⟨[], by rw [Emission.append_of_fault he, List.append_nil]⟩
  obtain ⟨c, hc⟩ := hb
  have hr := h.append_of_not_fits hf c
  have hn : before.fits (bytesOf (e ++ rest)).length = false := by
    rw [hc]
    exact Sink.fits_append_of_not hf c
  rw [← hc] at hr
  refine ⟨hr.bytes, hr.room, hr.writeError, ?_, ?_, ?_, ?_⟩
  · rw [reachesFlush, hn]
    exact hr.flushErrors
  · rw [endOf, hn, if_neg (by decide), ← hr.writeError]
    rfl
  · rw [reachesFlush, hn]
    exact hr.attempts
  · rw [reachesFlush, hn]
    exact hr.flushes

theorem streamed_of_fault {before after : Sink} {e : Emission} {f : Fault} (hef : e.fault = some f)
    (h : Sink.Received before after (bytesOf e)) (hf : before.fits (bytesOf e).length = true) :
    Streamed before e ⟨after, some (.document f), []⟩ := by
  refine ⟨h.bytes, h.room, h.writeError, ?_, ?_, ?_, ?_⟩
  · rw [reachesFlush, hf, hef]
    exact h.flushErrors
  · rw [endOf, hf, if_pos rfl, hef]
  · rw [reachesFlush, hf, hef]
    exact h.attempts
  · rw [reachesFlush, hf, hef]
    exact h.flushes

theorem Streamed.after {before after : Sink} {e rest : Emission} {w : Written} (hef : e.fault = none)
    (h : Sink.Received before after (bytesOf e)) (hf : before.fits (bytesOf e).length = true)
    (hw : Streamed after rest w) : Streamed before (e ++ rest) w := by
  have hb : bytesOf (e ++ rest) = bytesOf e ++ bytesOf rest := by
    rw [bytesOf, Emission.text_append_of_none hef, Utf8.encode_append]
    rfl
  have hfit : before.fits (bytesOf (e ++ rest)).length = after.fits (bytesOf rest).length := by
    rw [hb, List.length_append]
    exact h.fits_append hf _
  have hend : endOf before (e ++ rest) = endOf after rest := by
    rw [endOf, endOf, hfit, Emission.fault_append_of_none hef, h.writeError, h.flushError]
  have hflush : reachesFlush before (e ++ rest) = reachesFlush after rest := by
    rw [reachesFlush, reachesFlush, hfit, Emission.fault_append_of_none hef]
  -- the part of `rest` that `after` takes is what `before` takes behind `e`
  have hshare : after.bytes ++ after.share (bytesOf rest) =
      before.bytes ++ before.share (bytesOf e ++ bytesOf rest) := by
    obtain ⟨hr, -⟩ := Sink.write_received after (bytesOf rest)
    rw [← hr.bytes]
    exact (h.append hf hr).bytes
  refine ⟨?_, ?_, hw.writeError.trans h.writeError, ?_, ?_, ?_, ?_⟩
  · rw [hw.bytes, hshare, hb]
  · rw [hw.room, h.room, hb]
    cases before.room with
    | none => rfl
    | some r => simp only [Option.map_some, List.length_append, Nat.sub_sub]
  · rw [hw.flushErrors, h.flushErrors, hflush]
  · rw [hw.fault, hend]
  · rw [hw.attempts, h.attempts, hflush]
  · rw [hw.flushes, h.flushes, hflush, h.flushError]

theorem streamed_of_flush {before after : Sink} {e : Emission} {w : Written} (hef : e.fault = none)
    (h : Sink.Received before after (bytesOf e)) (hf : before.fits (bytesOf e).length = true)
    (hs : w.sink = after.flush.1) (hw : w.fault = after.flush.2.map .sink) : Streamed before e w := by
  obtain ⟨sink, fault, log⟩ := w
  rw [Sink.flush_eq] at hs hw
  simp only at hs hw
  subst hs hw
  refine ⟨h.bytes, h.room, h.writeError, ?_, ?_, ?_, ?_⟩
  · rw [reachesFlush, hf, hef, ← h.flushErrors]
    rfl
  · rw [endOf, hf, if_pos rfl, hef, ← h.flushError]
  · rw [reachesFlush, hf, hef, ← h.attempts]
    rfl
  · rw [reachesFlush, hf, hef, ← h.flushError, ← h.flushes]
    rfl

theorem finish_streamed (elapsed : Binary64) (before : Sink) (written skipped : Nat) :
    Streamed before (.ofPieces [endLine]) (finish elapsed before written skipped) := by
  obtain ⟨h, hf⟩ := Sink.writeAll_received [endLine] before
  unfold finish
  cases hw : before.writeAll [endLine] with
  | mk after ok =>
    rw [hw] at h hf
    simp only at h hf
    cases ok with
    | false =>
      have hs := streamed_of_not_fits (e := .ofPieces [endLine]) .empty h hf.symm written
      rw [Emission.append_empty] at hs
      exact hs
    | true =>
      simp only
      cases hfl : after.flush with
      | mk flushed r =>
        cases r with
        | some reason => exact streamed_of_flush rfl h hf.symm (by rw [hfl]; rfl) (by rw [hfl]; rfl)
        | none => exact streamed_of_flush rfl h hf.symm (by rw [hfl]) (by rw [hfl]; rfl)

theorem emission_nil (withCreated : Bool) : emission withCreated [] = .ofPieces [endLine] := Emission.empty_append _

theorem emission_cons (withCreated : Bool) (s : Snapshot) (ss : List Snapshot) :
    emission withCreated (s :: ss) = s.emission withCreated ++ emission withCreated ss := by
  unfold emission
  rw [List.map_cons, Emission.concat_cons, Emission.append_assoc]

theorem emission_of_isEmpty {s : Snapshot} (h : s.isEmpty = true) (withCreated : Bool) :
    s.emission withCreated = .empty := by
  rw [Snapshot.emission, if_pos h]

/-- **Streaming a document is streaming its emission**, wherever the pieces are cut. -/
theorem writeFrom_streamed (withCreated : Bool) (elapsed : Binary64) :
    ∀ (ss : List Snapshot) (before : Sink) (written skipped : Nat),
      Streamed before (emission withCreated ss) (writeFrom withCreated elapsed before written skipped ss)
  | [], before, written, skipped => by
    rw [emission_nil]
    exact finish_streamed elapsed before written skipped
  | s :: ss, before, written, skipped => by
    rw [emission_cons, writeFrom]
    by_cases he : s.isEmpty = true
    · rw [if_pos he, emission_of_isEmpty he, Emission.empty_append]
      exact writeFrom_streamed withCreated elapsed ss before written (skipped + 1)
    · rw [if_neg he]
      obtain ⟨h, hf⟩ := Sink.writeAll_received (s.emission withCreated).pieces before
      simp only
      cases hw : before.writeAll (s.emission withCreated).pieces with
      | mk after ok =>
        rw [hw] at h hf
        simp only at h hf
        cases ok with
        | false => exact streamed_of_not_fits _ h hf.symm written
        | true =>
          cases hef : (s.emission withCreated).fault with
          | some f =>
            simp only
            rw [Emission.append_of_fault hef]
            exact streamed_of_fault hef h hf.symm
          | none =>
            exact .after hef h hf.symm (writeFrom_streamed withCreated elapsed ss after (written + 1) skipped)

theorem write_streamed (withCreated : Bool) (elapsed : Binary64) (before : Sink) (ss : List Snapshot) :
    Streamed before (emission withCreated ss) (write withCreated elapsed before ss) :=
  writeFrom_streamed withCreated elapsed ss before 0 0

/-! ## Without a limit -/

theorem write_unlimited (withCreated : Bool) (elapsed : Binary64) (ss : List Snapshot) :
    (write withCreated elapsed .unlimited ss).sink.bytes = bytesOf (emission withCreated ss) ∧
      (write withCreated elapsed .unlimited ss).fault = (emission withCreated ss).fault.map .document := by
  have h := write_streamed withCreated elapsed .unlimited ss
  refine ⟨h.bytes, ?_⟩
  have hfit : Sink.unlimited.fits (bytesOf (emission withCreated ss)).length = true := rfl
  rw [h.fault, endOf, if_pos hfit]
  cases (emission withCreated ss).fault with
  | none => rfl
  | some f => rfl

/-- **A document in memory is its emission**: the bytes of it, or its fault. -/
theorem encode_eq (withCreated : Bool) (ss : List Snapshot) :
    encode withCreated ss =
      match (emission withCreated ss).fault with
      | some f => .error f
      | none => .ok (bytesOf (emission withCreated ss)) := by
  obtain ⟨hb, hf⟩ := write_unlimited withCreated .zero ss
  unfold encode
  simp only
  rw [hf, hb]
  cases (emission withCreated ss).fault with
  | none => rfl
  | some f => rfl

theorem encode_eq_ok_iff {withCreated : Bool} {ss : List Snapshot} {bytes : Bytes} :
    encode withCreated ss = .ok bytes ↔
      (emission withCreated ss).fault = none ∧ bytes = bytesOf (emission withCreated ss) := by
  rw [encode_eq]
  cases (emission withCreated ss).fault with
  | none => simp [eq_comm]
  | some f => simp

theorem text_emission {withCreated : Bool} {ss : List Snapshot} (h : (emission withCreated ss).fault = none) :
    (emission withCreated ss).text = (Emission.concat (ss.map (·.emission withCreated))).text ++ endLine := by
  unfold emission at h ⊢
  rw [Emission.text_append_of_none (Emission.fault_append_eq_none_iff.1 h).1]
  simp

/-- **An empty sink that has taken a document without a failure holds the document**, last line included. -/
theorem encode_of_write {withCreated : Bool} {elapsed : Binary64} {sink : Sink} {ss : List Snapshot}
    (hs : sink.bytes = []) (h : (write withCreated elapsed sink ss).fault = none) :
    encode withCreated ss = .ok (write withCreated elapsed sink ss).sink.bytes ∧
      Utf8.encode endLine <:+ (write withCreated elapsed sink ss).sink.bytes := by
  have hst := write_streamed withCreated elapsed sink ss
  have hend := hst.fault.symm.trans h
  unfold endOf at hend
  split at hend
  · rename_i hfits
    split at hend
    · cases hend
    · rename_i hfault
      rw [hst.bytes, hs, List.nil_append, Sink.share_of_fits hfits, encode_eq, hfault]
      refine ⟨rfl, ?_⟩
      rw [bytesOf, text_emission hfault, Utf8.encode_append]
      exact List.suffix_append _ _
  · cases hend

/-! ## After other documents -/

/-- What streaming to a fresh sink leaves, on top of what was there before. -/
def Written.onTopOf (w : Written) (before : Sink) : Written := { w with sink := w.sink.onTopOf before }

theorem finish_onTopOf (elapsed : Binary64) (before s : Sink) (written skipped : Nat) :
    finish elapsed (s.onTopOf before) written skipped = (finish elapsed s written skipped).onTopOf before := by
  unfold finish
  rw [Sink.writeAll_onTopOf]
  cases hw : s.writeAll [endLine] with
  | mk t ok =>
    cases ok with
    | false => rfl
    | true =>
      simp only
      rw [Sink.flush_onTopOf]
      cases hf : t.flush with
      | mk u r =>
        cases r with
        | none => rfl
        | some reason => rfl

theorem writeFrom_onTopOf (withCreated : Bool) (elapsed : Binary64) (before : Sink) :
    ∀ (ss : List Snapshot) (s : Sink) (written skipped : Nat),
      writeFrom withCreated elapsed (s.onTopOf before) written skipped ss =
        (writeFrom withCreated elapsed s written skipped ss).onTopOf before
  | [], s, written, skipped => finish_onTopOf elapsed before s written skipped
  | x :: ss, s, written, skipped => by
    rw [writeFrom, writeFrom]
    split
    · exact writeFrom_onTopOf withCreated elapsed before ss s written (skipped + 1)
    · simp only
      rw [Sink.writeAll_onTopOf]
      cases hw : s.writeAll (x.emission withCreated).pieces with
      | mk t ok =>
        cases ok with
        | false => rfl
        | true =>
          cases hf : (x.emission withCreated).fault with
          | some f => rfl
          | none => exact writeFrom_onTopOf withCreated elapsed before ss t (written + 1) skipped

/-- **What a sink received before makes no difference**, beyond the room that it left. -/
theorem write_onTopOf (withCreated : Bool) (elapsed : Binary64) (before : Sink) (ss : List Snapshot) :
    write withCreated elapsed before ss = (write withCreated elapsed before.fresh ss).onTopOf before := by
  have h := writeFrom_onTopOf withCreated elapsed before ss before.fresh 0 0
  rw [Sink.fresh_onTopOf] at h
  exact h

/-! ## Runs -/

/-- The sink that the document at a position of a run meets: the first one the sink that was given, and every other one
the sink that the document before it left. -/
def sinkBefore (sink : Sink) : List Written → Nat → Sink
  | _, 0 => sink
  | [], _ + 1 => sink
  | w :: ws, i + 1 => sinkBefore w.sink ws i

theorem getElem?_writeEach (withCreated : Bool) :
    ∀ (docs : List (List Snapshot)) (elapsed : Nat → Binary64) (sink : Sink) (i : Nat),
      (writeEach withCreated elapsed sink docs)[i]? =
        docs[i]?.map (write withCreated (elapsed i) (sinkBefore sink (writeEach withCreated elapsed sink docs) i))
  | [], _, _, _ => by simp [writeEach]
  | ss :: docs, _, sink, 0 => rfl
  | ss :: docs, elapsed, sink, i + 1 => by
    rw [writeEach, List.getElem?_cons_succ, List.getElem?_cons_succ]
    exact getElem?_writeEach withCreated docs (fun i => elapsed (i + 1)) (write withCreated (elapsed 0) sink ss).sink i

/-- **A run of documents on a sink that may fail.**  Let `all` be what the document at a position puts into an unlimited
sink, which is its emission up to the first fault, and ends in the last line of a document if there is none.  Of `all`
the sink receives the first bytes for which it has room.  The document ends in the sink's error if these are not all of
them, else in the fault of the document, else in what the flush gives; and the flush is attempted exactly if all of a
document without fault was received, which takes the first of the flushes to come.  What earlier documents left behind,
failures included, shows only in the room and in the flushes to come. -/
theorem writeEach_streams (withCreated : Bool) (elapsed : Nat → Binary64) (sink : Sink) (docs : List (List Snapshot))
    (i : Fin docs.length) :
    let before := sinkBefore sink (writeEach withCreated elapsed sink docs) i
    let e := emission withCreated docs[i]
    let plain := write withCreated (elapsed i) .unlimited docs[i]
    let all := plain.sink.bytes
    let flushed := before.fits all.length = true ∧ plain.fault = none
    ∃ w, (writeEach withCreated elapsed sink docs)[i.val]? = some w ∧
      all = Utf8.encode e.text ∧ plain.fault = e.fault.map .document ∧
      (e.fault = none → Utf8.encode endLine <:+ all) ∧
      w.sink.bytes = before.bytes ++ before.share all ∧
      w.sink.room = before.room.map (· - all.length) ∧
      w.fault = (if before.fits all.length then plain.fault.or (before.flushError.map .sink)
        else some (.sink before.writeError)) ∧
      w.sink.attempts = before.attempts + (if flushed then 1 else 0) ∧
      w.sink.flushErrors = (fun k => before.flushErrors (k + if flushed then 1 else 0)) ∧
      w.sink.flushes = before.flushes + (if flushed ∧ before.flushError = none then 1 else 0) ∧
      w = (write withCreated (elapsed i) before.fresh docs[i]).onTopOf before := by
  intro before e plain all flushed
  obtain ⟨hall, hplain⟩ := write_unlimited withCreated (elapsed i) docs[i]
  have h := write_streamed withCreated (elapsed i) before docs[i]
  have hw : (writeEach withCreated elapsed sink docs)[i.val]? =
      some (write withCreated (elapsed i) before docs[i]) := by
    rw [getElem?_writeEach, List.getElem?_eq_getElem i.isLt]
    rfl
  have hreach : reachesFlush before e = decide flushed := by
    show (before.fits (bytesOf e).length && e.fault.isNone) =
      decide (before.fits plain.sink.bytes.length = true ∧ plain.fault = none)
    rw [hplain, hall]
    cases (emission withCreated docs[i]).fault with
    | none => simp [e]
    | some f => simp
  refine ⟨write withCreated (elapsed i) before docs[i], hw, hall, hplain, ?_, ?_, ?_, ?_, ?_, ?_, ?_,
    write_onTopOf withCreated (elapsed i) before _⟩
  · intro hf
    have ht : all = Utf8.encode e.text := hall
    rw [ht, text_emission hf, Utf8.encode_append]
    exact List.suffix_append _ _
  · rw [h.bytes, ← hall]
  · rw [h.room, ← hall]
  · rw [h.fault, endOf, ← hall]
    show _ = if before.fits all.length then plain.fault.or _ else _
    rw [hplain]
    cases (emission withCreated docs[i]).fault with
    | none => rfl
    | some f => rfl
  · rw [h.attempts, hreach]
    simp only [decide_eq_true_eq]
  · rw [h.flushErrors, hreach]
    simp only [decide_eq_true_eq]
  · rw [h.flushes, hreach]
    simp only [Bool.and_eq_true, decide_eq_true_eq, Option.isNone_iff_eq_none]

end Document
end Exposition
