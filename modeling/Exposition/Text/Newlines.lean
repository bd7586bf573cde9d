import Exposition.Text.Escape
/-!
# Line ends — one line feed for each

A text file that is read line by line may end its lines in a line feed, a carriage return, or both
in this order; the text that is read has a line feed for each.
-/
namespace Exposition
namespace Text

/-- A carriage return, with a line feed behind it or not, becomes one line feed. -/
def unifyLineEnds : Text → Text
  | [] => []
  | [c] => if c = carriageReturn then [lineFeed] else [c]
  | c :: d :: r =>
    if c = carriageReturn then
      if d = lineFeed then lineFeed :: unifyLineEnds r else lineFeed :: unifyLineEnds (d :: r)
    else c :: unifyLineEnds (d :: r)

theorem carriageReturn_notMem_unifyLineEnds (t : Text) : carriageReturn ∉ unifyLineEnds t := by
  have hne : carriageReturn ≠ lineFeed := by decide
  induction t using unifyLineEnds.induct with
  | case1 => exact List.not_mem_nil
  | case2 => simp [unifyLineEnds, hne]
  | case3 c hc => simp [unifyLineEnds, hc, Ne.symm hc]
  | case4 r ih => simpa [unifyLineEnds, hne] using ih
  | case5 d r hd ih => simpa [unifyLineEnds, hd, hne] using ih
  | case6 c d r hc ih => simpa [unifyLineEnds, hc, Ne.symm hc] using ih

theorem unifyLineEnds_of_notMem (t : Text) (h : carriageReturn ∉ t) : unifyLineEnds t = t := by
  induction t using unifyLineEnds.induct with
  | case1 => rfl
  | case2 => exact absurd List.mem_cons_self h
  | case3 c hc => rw [unifyLineEnds, if_neg hc]
  | case4 r ih => exact absurd List.mem_cons_self h
  | case5 d r hd ih => exact absurd List.mem_cons_self h
  | case6 c d r hc ih => rw [unifyLineEnds, if_neg hc, ih (fun hmem => h (List.mem_cons_of_mem _ hmem))]

/-- **Only a text without carriage returns is read as it stands.** -/
theorem unifyLineEnds_eq_self_iff {t : Text} : unifyLineEnds t = t ↔ carriageReturn ∉ t :=
  ⟨fun h => h ▸ carriageReturn_notMem_unifyLineEnds t, unifyLineEnds_of_notMem t⟩

end Text
end Exposition
