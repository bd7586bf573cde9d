import Exposition.Proofs.Document.Streaming
import Exposition.Proofs.Text.Strings
/-!
# Encoding — the bytes of a document, wherever its text is cut

An unlimited sink keeps, one beside the other, the bytes of every piece that a document consists of
(`write_kept`).  As a code point has its bytes whatever stands next to it, surrogates included, these are the bytes of the
whole text and those of any other pieces of it (`encode_cutAnywhere`).
-/
namespace Exposition

/-! ## What an unlimited sink keeps -/

theorem Sink.writeAll_of_room_none : ∀ (ts : List Text) {s : Sink}, s.room = none →
    s.writeAll ts = ({ s with kept := (ts.map Utf8.encode).reverse ++ s.kept }, true)
  | [], _, _ => rfl
  | t :: ts, s, h => by
    have hw : s.write (Utf8.encode t) = ({ s with kept := Utf8.encode t :: s.kept }, true) := by
      rw [Sink.write, h]
    have ih := writeAll_of_room_none ts (s := { s with kept := Utf8.encode t :: s.kept }) h
    rw [Sink.writeAll, hw]
    simp only
    rw [ih, List.map_cons, List.reverse_cons, List.append_assoc]
    rfl

namespace Document

theorem finish_kept (elapsed : Binary64) {s : Sink} (h : s.room = none) (written skipped : Nat) :
    (finish elapsed s written skipped).sink.kept = Utf8.encode endLine :: s.kept := by
  rw [finish, Sink.writeAll_of_room_none [endLine] h]
  simp only [Sink.flush_eq]
  cases hf : Sink.flushError _ with
  | none => rfl
  | some e => rfl

theorem writeFrom_kept (withCreated : Bool) (elapsed : Binary64) :
    ∀ (ss : List Snapshot) (before : Sink) (written skipped : Nat),
      before.room = none → (emission withCreated ss).fault = none →
      (writeFrom withCreated elapsed before written skipped ss).sink.kept =
        ((emission withCreated ss).pieces.map Utf8.encode).reverse ++ before.kept
  | [], before, written, skipped, hroom, _ => by
    rw [emission_nil]
    exact finish_kept elapsed hroom written skipped
  | s :: ss, before, written, skipped, hroom, hfault => by
    rw [emission_cons] at hfault ⊢
    rw [writeFrom]
    by_cases he : s.isEmpty = true
    · rw [emission_of_isEmpty he, Emission.empty_append] at hfault ⊢
      rw [if_pos he]
      exact writeFrom_kept withCreated elapsed ss before written (skipped + 1) hroom hfault
    · obtain ⟨hs, hss⟩ := Emission.fault_append_eq_none_iff.1 hfault
      have ih := writeFrom_kept withCreated elapsed ss
        { before with kept := ((s.emission withCreated).pieces.map Utf8.encode).reverse ++ before.kept }
        (written + 1) skipped hroom hss
      rw [if_neg he, Emission.pieces_append_of_none hs, List.map_append, List.reverse_append, List.append_assoc, ← ih]
      simp only [Sink.writeAll_of_room_none (s.emission withCreated).pieces hroom, hs]

/-- **Each piece is encoded by itself**, in the order in which the pieces leave. -/
theorem write_kept {withCreated : Bool} {ss : List Snapshot} (h : (emission withCreated ss).fault = none)
    (elapsed : Binary64) : (write withCreated elapsed .unlimited ss).sink.kept.reverse = (emission withCreated ss).pieces.map Utf8.encode := by
  rw [write, writeFrom_kept withCreated elapsed ss _ 0 0 rfl h]
  simp [Sink.unlimited]

/-! ## Cuts -/

/-- **A document is UTF-8, and does not depend on where its text is cut.**  What is written are the bytes of one piece of
text after the other.  Together they are the bytes of the whole text; they are decoded as this text with a question mark for
each surrogate, and a string with this text has just these bytes.  Any other pieces with the same text give the same bytes,
also if a cut is between two surrogates. -/
theorem encode_cutAnywhere {withCreated : Bool} {ss : List Snapshot} {bytes : Bytes}
    (h : encode withCreated ss = .ok bytes) :
    let pieces := (emission withCreated ss).pieces
    let text := pieces.flatten
    (∀ elapsed, (write withCreated elapsed .unlimited ss).sink.kept.reverse = pieces.map Utf8.encode) ∧
    bytes = (pieces.map Utf8.encode).flatten ∧ bytes = Utf8.encode text ∧
    Utf8.decode bytes = .ok (Utf8.replaceSurrogates text) ∧
    (∃ s : String, (s : Text) = Utf8.replaceSurrogates text ∧ s.toUTF8.data.toList = bytes) ∧
    ∀ ts : List Text, ts.flatten = text →
      (Sink.unlimited.writeAll ts).1.bytes = bytes ∧ (Sink.unlimited.writeAll ts).2 = true := by
  intro pieces text
  obtain ⟨hfault, hbytes⟩ := encode_eq_ok_iff.1 h
  change bytes = Utf8.encode text at hbytes
  refine ⟨write_kept hfault, ?_, hbytes, ?_, ?_, fun ts hts => ?_⟩
  · rw [hbytes, Utf8.flatten_map_encode]
  · rw [hbytes, Utf8.decode_encode]
  · rw [hbytes]
    exact Utf8.exists_string text
  · obtain ⟨hreceived, hall⟩ := Sink.writeAll_received ts .unlimited
    rw [hts, ← hbytes] at hreceived hall
    exact ⟨hreceived.bytes, hall⟩

/-- Surrogates everywhere, those of a pair beside each other, and characters of every length. -/
def surrogateFamily : Family where
  metadata :=
    { name := ("g" : Text) ++ [.ofNat 0xDFFF], help := some (("é" : Text) ++ [.ofNat 0xD83D, .ofNat 0xDE00] ++ ("€\n" : Text))
      unit := some [.ofNat 0xD800] }
  points := .info [{ labels := [⟨[.ofNat 0xDC00], [.ofNat 0xD83D, .ofNat 0xDE00] ++ ("😀" : Text)⟩], scrape := none }]

theorem encode_cutAnywhere_surrogateFamily :
    let text := (emission false [.family surrogateFamily]).pieces.flatten
    ∃ bytes, encode false [.family surrogateFamily] = .ok bytes ∧
      Utf8.decode bytes = .ok (("# TYPE g? info\n# UNIT g? ?\n# HELP g? é??€\\n\ng?_info\x7b?=\"??😀\"\x7d 1\n" : Text)
        ++ endLine) ∧
      (Sink.unlimited.writeAll (text.map ([·]))).1.bytes = bytes := by
  intro text
  have hok : encode false [.family surrogateFamily] = .ok (Utf8.encode text) := rfl
  obtain ⟨-, -, -, hdecode, -, hcut⟩ := encode_cutAnywhere hok
  refine ⟨_, hok, hdecode.trans (congrArg Except.ok ?_), (hcut (text.map ([·])) ?_).1⟩
  · decide +kernel
  · decide +kernel

end Document
end Exposition
