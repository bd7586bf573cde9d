import Exposition.Sink
/-!
# Sinks — what is received does not depend on how it is cut

A sink receives of the bytes that are written to it the first ones for which it has room, and fails exactly if these are
not all.  Both hold of any number of writes as they hold of one (`writeAll_received`), so where a text is cut into
pieces makes no difference.
-/
namespace Exposition
namespace Sink

def fits (s : Sink) (n : Nat) : Bool :=
  match s.room with
  | none => true
  | some r => n ≤ r

/-- The first bytes of `b`, as many as there is room for. -/
def share (s : Sink) (b : Bytes) : Bytes :=
  match s.room with
  | none => b
  | some r => b.take r

/-- `t` is `s` once `b` has been written to it, or as much of `b` as fits. -/
structure Received (s t : Sink) (b : Bytes) : Prop where
  bytes : t.bytes = s.bytes ++ s.share b
  room : t.room = s.room.map (· - b.length)
  writeError : t.writeError = s.writeError
  flushErrors : t.flushErrors = s.flushErrors
  flushes : t.flushes = s.flushes
  attempts : t.attempts = s.attempts

theorem fits_zero (s : Sink) : s.fits 0 = true := by
  unfold fits
  cases s.room with
  | none => rfl
  | some r => exact decide_eq_true (Nat.zero_le r)

theorem share_of_fits {s : Sink} {b : Bytes} (h : s.fits b.length = true) : s.share b = b := by
  unfold fits at h
  unfold share
  cases hr : s.room with
  | none => rfl
  | some r =>
    rw [hr] at h
    exact List.take_of_length_le (of_decide_eq_true h)

theorem Received.flushError {s t : Sink} {b : Bytes} (h : Received s t b) : t.flushError = s.flushError :=
  congrFun h.flushErrors 0

theorem Received.nil (s : Sink) : Received s s [] where
  bytes := by
    unfold share
    cases s.room with
    | none => exact (List.append_nil _).symm
    | some r => simp
  room := by cases s.room <;> rfl
  writeError := rfl
  flushErrors := rfl
  flushes := rfl
  attempts := rfl

theorem write_received (s : Sink) (b : Bytes) :
    Received s (s.write b).1 b ∧ (s.write b).2 = s.fits b.length := by
  have hb := bytes_write s b
  obtain ⟨room, we, fe, kept, fl, at'⟩ := s
  cases room with
  | none => exact ⟨⟨hb, rfl, rfl, rfl, rfl, rfl⟩, rfl⟩
  | some r => exact ⟨⟨hb, rfl, rfl, rfl, rfl, rfl⟩, rfl⟩

/-- What follows bytes that all fitted meets the room they left. -/
theorem Received.fits_append {s t : Sink} {b : Bytes} (h : Received s t b) (hb : s.fits b.length = true) (n : Nat) :
    s.fits (b.length + n) = t.fits n := by
  unfold fits at hb ⊢
  rw [h.room]
  cases hr : s.room with
  | none => rfl
  | some r =>
    rw [hr] at hb
    simp only [decide_eq_true_eq] at hb
    simp only [Option.map_some, decide_eq_decide]
    omega

theorem Received.append {s t u : Sink} {b c : Bytes} (h : Received s t b) (hb : s.fits b.length = true)
    (h' : Received t u c) : Received s u (b ++ c) where
  bytes := by
    rw [h'.bytes, h.bytes, List.append_assoc]
    unfold share fits at *
    rw [h.room]
    cases hr : s.room with
    | none => rfl
    | some r =>
      rw [hr] at hb
      simp only [decide_eq_true_eq] at hb
      simp only [Option.map_some, List.take_append, List.take_of_length_le hb]
  room := by
    rw [h'.room, h.room]
    cases s.room with
    | none => rfl
    | some r => simp only [Option.map_some, List.length_append, Nat.sub_sub]
  writeError := h'.writeError.trans h.writeError
  flushErrors := h'.flushErrors.trans h.flushErrors
  flushes := h'.flushes.trans h.flushes
  attempts := h'.attempts.trans h.attempts

theorem fits_append_of_not {s : Sink} {b : Bytes} (hb : s.fits b.length = false) (c : Bytes) :
    s.fits (b ++ c).length = false := by
  unfold fits at *
  cases hr : s.room with
  | none => rw [hr] at hb; cases hb
  | some r =>
    rw [hr] at hb
    simp only [decide_eq_false_iff_not] at hb
    simp only [List.length_append, decide_eq_false_iff_not]
    omega

/-- Once something did not fit, more of it makes no difference. -/
theorem Received.append_of_not_fits {s t : Sink} {b : Bytes} (h : Received s t b) (hb : s.fits b.length = false)
    (c : Bytes) : Received s t (b ++ c) where
  bytes := by
    rw [h.bytes]
    unfold share fits at *
    cases hr : s.room with
    | none => rw [hr] at hb; cases hb
    | some r =>
      rw [hr] at hb
      simp only [decide_eq_false_iff_not, Nat.not_le] at hb
      simp only [List.take_append_of_le_length (Nat.le_of_lt hb)]
  room := by
    rw [h.room]
    unfold fits at hb
    cases hr : s.room with
    | none => rfl
    | some r =>
      rw [hr] at hb
      simp only [decide_eq_false_iff_not] at hb
      simp only [Option.map_some, List.length_append, Option.some.injEq]
      omega
  writeError := h.writeError
  flushErrors := h.flushErrors
  flushes := h.flushes
  attempts := h.attempts

/-- **Pieces are received as their concatenation is.** -/
theorem writeAll_received : ∀ (ts : List Text) (s : Sink),
    Received s (s.writeAll ts).1 (Utf8.encode ts.flatten) ∧
      (s.writeAll ts).2 = s.fits (Utf8.encode ts.flatten).length
  | [], s => ⟨.nil s, (fits_zero s).symm⟩
  | t :: ts, s => by
    obtain ⟨h, hf⟩ := write_received s (Utf8.encode t)
    rw [List.flatten_cons, Utf8.encode_append]
    unfold writeAll
    cases hw : s.write (Utf8.encode t) with
    | mk s' ok =>
      rw [hw] at h hf
      simp only at h hf
      cases ok with
      | true =>
        obtain ⟨ih, ihf⟩ := writeAll_received ts s'
        refine ⟨h.append hf.symm ih, ?_⟩
        rw [List.length_append, h.fits_append hf.symm]
        exact ihf
      | false => exact ⟨h.append_of_not_fits hf.symm _, (fits_append_of_not hf.symm _).symm⟩

/-- Of the flushes to come the first one is over, whether it failed or not. -/
theorem flush_eq (s : Sink) :
    s.flush = (⟨s.room, s.writeError, fun i => s.flushErrors (i + 1), s.kept,
      s.flushes + (if s.flushError.isNone then 1 else 0), s.attempts + 1⟩, s.flushError) := by
  unfold flush
  cases s.flushError with
  | none => rfl
  | some e => rfl

/-! ## What a sink held before -/

/-- The sink with nothing received and nothing counted. -/
def fresh (s : Sink) : Sink := { s with kept := [], flushes := 0, attempts := 0 }

/-- `s` as it is if what it received and counted comes on top of what `before` did. -/
def onTopOf (s before : Sink) : Sink :=
  { s with kept := s.kept ++ before.kept, flushes := before.flushes + s.flushes
           attempts := before.attempts + s.attempts }

theorem fresh_onTopOf (s : Sink) : s.fresh.onTopOf s = s := rfl

theorem write_onTopOf (s before : Sink) (b : Bytes) :
    (s.onTopOf before).write b = ((s.write b).1.onTopOf before, (s.write b).2) := by
  obtain ⟨room, we, fe, kept, fl, at'⟩ := s
  cases room with
  | none => rfl
  | some r => rfl

theorem writeAll_onTopOf (before : Sink) : ∀ (ts : List Text) (s : Sink),
    (s.onTopOf before).writeAll ts = ((s.writeAll ts).1.onTopOf before, (s.writeAll ts).2)
  | [], _ => rfl
  | t :: ts, s => by
    rw [writeAll, writeAll, write_onTopOf]
    cases hw : s.write (Utf8.encode t) with
    | mk s' ok =>
      cases ok with
      | true => exact writeAll_onTopOf before ts s'
      | false => rfl

theorem flush_onTopOf (s before : Sink) :
    (s.onTopOf before).flush = ((s.flush).1.onTopOf before, (s.flush).2) := by
  have herror : (s.onTopOf before).flushError = s.flushError := rfl
  unfold flush
  rw [herror]
  cases s.flushError with
  | none => rfl
  | some e => rfl

end Sink
end Exposition
