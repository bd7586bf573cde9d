import Exposition.Proofs.Record.Line
/-!
# Series — one text however its parts are given

A label set is read back whatever follows it, with an additional label as its last one.  A series is its name with the
suffix, its labels with the additional one, and a space; so it makes no difference whether the suffix is a part of the name
already, or the additional label one of the set (`Labels.toText_readsBack`).
-/
namespace Exposition

/-- Whether a reader finds the end of a label's name, and does not take the name for the end of the set. -/
def Label.HasClearName (l : Label) : Prop := Labels.equalsSign ∉ l.name ∧ Labels.closingBrace ∉ l.name

instance (l : Label) : Decidable l.HasClearName := inferInstanceAs (Decidable (_ ∧ _))

theorem Labels.toText_eq (ls : Labels) : ∀ (additional : Option Label),
    ls.toText additional = Labels.toText (ls ++ additional.toList) none
  | none => by rw [Option.toList_none, List.append_nil]
  | some l => toText_additional ls l

theorem seriesText_eq (name : Text) (suffix : Option Text) (ls : Labels) (additional : Option Label) :
    seriesText name suffix ls additional =
      name ++ suffix.getD [] ++ (optionalLabelsText (ls ++ additional.toList) ++ [space]) :=
  flatten_seriesPieces name suffix ls additional

theorem seriesText_additional (name : Text) (suffix : Option Text) (ls : Labels) (l : Label) :
    seriesText name suffix ls (some l) = seriesText name suffix (ls ++ [l]) none := by
  rw [seriesText_eq, seriesText_eq, Option.toList_some, Option.toList_none, List.append_nil]

theorem seriesText_suffix (name suffix : Text) (ls : Labels) (additional : Option Label) :
    seriesText name (some suffix) ls additional = seriesText (name ++ suffix) none ls additional := by
  rw [seriesText_eq, seriesText_eq, Option.getD_some, Option.getD_none, List.append_nil]

/-- **Label sets are read back.**  From the text of a set whose names are clear, whatever its values hold and whatever comes
behind it, the reader recovers the labels in order with the additional one last, and leaves the rest.  An additional label is
written as a last label is, also in a series, where a suffix is written as the end of a name is. -/
theorem Labels.toText_readsBack :
    (∀ (ls : Labels) (additional : Option Label) (rest : Text), (∀ l ∈ ls ++ additional.toList, l.HasClearName) →
      Labels.read? (ls.toText additional ++ rest) = some (ls ++ additional.toList, rest)) ∧
    (∀ (ls : Labels) (l : Label), ls.toText (some l) = Labels.toText (ls ++ [l]) none) ∧
    (∀ (name : Text) (suffix : Option Text) (ls : Labels) (l : Label),
      seriesText name suffix ls (some l) = seriesText name suffix (ls ++ [l]) none) ∧
    ∀ (name suffix : Text) (ls : Labels) (additional : Option Label),
      seriesText name (some suffix) ls additional = seriesText (name ++ suffix) none ls additional := by
  refine ⟨fun ls additional rest hnames => ?_, toText_additional, seriesText_additional, seriesText_suffix⟩
  rw [toText_eq]
  exact read?_toText hnames rest

/-- A name that comes twice, an empty one, and values that hold quotes, commas, braces, line feeds and surrogates. -/
theorem Labels.toText_readsBack_hostileSet :
    let ls : Labels := [⟨"a", "\"\x7d,\\"⟩, ⟨[], [.ofNat 0xD800, .ofNat 0xDC00]⟩, ⟨"a", "\n\\\"=\""⟩]
    (∀ l ∈ ls ++ [⟨"le", "\x7d"⟩], l.HasClearName) ∧
      Labels.read? (ls.toText (some ⟨"le", "\x7d"⟩) ++ ",b=\"\"\x7d 1") =
        some (ls ++ [⟨"le", "\x7d"⟩], (",b=\"\"\x7d 1" : Text)) := by
  intro ls
  have hnames : ∀ l ∈ ls ++ (some (⟨"le", "\x7d"⟩ : Label)).toList, l.HasClearName := by decide
  exact ⟨hnames, toText_readsBack.1 ls (some ⟨"le", "\x7d"⟩) ",b=\"\"\x7d 1" hnames⟩

end Exposition
