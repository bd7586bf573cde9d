import Exposition.Decimal.Layout
import Exposition.Log.Event
import Exposition.Proofs.Binary64.Millionths
/-!
# Durations — how long a document took, as it is told

An event of a finished document tells its duration in whole millionths of a second: the millionths nearest to the exact
value of the double that was measured, as the double nearest to these.  Nothing else about the duration changes, and telling
it once more tells the same (`ofDocument_duration`).
-/
namespace Exposition

namespace Log.Event

open Binary64

variable {δ : Type}

/-- **The duration that is told of a document.**  For a finite one, `k` being the whole number nearest to it in millionths,
the even one of two, it is the double closest to `k / 10 ^ 6`, and zero of the same sign if `k` is zero; infinities and what
is no number are told as they are.  A duration that is no longer is not told as a longer one, and what has been told is told
again as it is. -/
theorem ofDocument_duration (written skipped : Int) (d : Binary64) :
    ∃ x, (ofDocument written skipped d : Event δ) = documentWritten written skipped x ∧
      (∀ s r, d = finite s r → ∃ (k : Int) (r' : Fin rankLimit), x = finite s r' ∧
        IsNearestInteger (signedValue s (magnitude r.val) * 10 ^ 6) k ∧
        (k = 0 → r'.val = 0) ∧ (k ≠ 0 → IsClosest (k / 10 ^ 6) s r')) ∧
      ((d = nan ∨ ∃ s, d = infinite s) → x = d) ∧
      (∀ d', Number.le (.float d) (.float d') = true →
        ∃ x', (ofDocument written skipped d' : Event δ) = documentWritten written skipped x' ∧
          Number.le (.float x) (.float x') = true) ∧
      (ofDocument written skipped x : Event δ) = documentWritten written skipped x := by
  refine ⟨d.roundToMillionths, rfl, ?_, ?_, fun d' hle => ⟨d'.roundToMillionths, rfl, roundToMillionths_mono hle⟩, ?_⟩
  · rintro s r rfl
    exact exists_roundToMillionths s r
  · rintro (rfl | ⟨s, rfl⟩) <;> rfl
  · rw [ofDocument, roundToMillionths_idem]

/-- Half a millionth goes to the even one, and next to nothing to zero, each with its sign. -/
example : (finite true ⟨1016 * binade, by decide⟩).toText = "-0.0078125" ∧
    (finite true ⟨1016 * binade, by decide⟩).roundToMillionths.toText = "-0.007812" ∧
    (finite true ⟨1, by decide⟩).roundToMillionths.toText = "-0.0" := by
  decide +kernel

end Log.Event
end Exposition
