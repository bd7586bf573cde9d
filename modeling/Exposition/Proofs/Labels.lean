import Exposition.Proofs.Text.Escaping
import Exposition.Proofs.Text.Words
/-!
# Labels — a label set is read back exactly

The reader takes from a label set in braces its labels in order and leaves whatever follows the closing brace
(`read?_toText`).  Names must keep clear of the equals sign and the closing brace, values may hold anything.  An
additional label is no different from one more label at the end (`toText_additional`).
-/
namespace Exposition
namespace Labels

def labelText (l : Label) : Text := l.name ++ equalsSign :: Text.quote :: (l.value.escape ++ [Text.quote])

def bodyText : Labels → Text
  | [] => []
  | [l] => labelText l
  | l :: ls => labelText l ++ comma :: bodyText ls

theorem flatten_labelPieces (l : Label) : (labelPieces l).flatten = labelText l := by
  have he : Text.ofString "=\"" = [equalsSign, Text.quote] := by decide
  have hq : Text.ofString "\"" = [Text.quote] := by decide
  simp [labelPieces, labelText, he, hq]

theorem flatten_bodyPieces : ∀ (ls : Labels), (bodyPieces ls).flatten = bodyText ls
  | [] => rfl
  | [l] => flatten_labelPieces l
  | l :: l' :: ls => by
    have hc : Text.ofString "," = [comma] := by decide
    rw [bodyPieces, List.flatten_append, List.flatten_cons, flatten_labelPieces, flatten_bodyPieces (l' :: ls), hc]
    · rfl
    · simp

theorem bodyText_cons (l : Label) {ls : Labels} (h : ls ≠ []) :
    bodyText (l :: ls) = labelText l ++ comma :: bodyText ls := by
  cases ls with
  | nil => exact absurd rfl h
  | cons l' ls => rfl

theorem bodyText_append_singleton (l : Label) : ∀ (ls : Labels),
    bodyText (ls ++ [l]) = bodyText ls ++ ((if ls.isEmpty then [] else [comma]) ++ labelText l)
  | [] => rfl
  | [l'] => rfl
  | l' :: l'' :: ls => by
    have ih := bodyText_append_singleton l (l'' :: ls)
    rw [List.cons_append, bodyText_cons _ (by simp), ih, bodyText_cons l' (List.cons_ne_nil l'' ls)]
    simp

theorem toText_none (ls : Labels) : ls.toText none = openingBrace :: (bodyText ls ++ [closingBrace]) := by
  have ho : Text.ofString "\x7b" = [openingBrace] := by decide
  have hc : Text.ofString "\x7d" = [closingBrace] := by decide
  unfold toText pieces
  rw [List.flatten_cons, List.flatten_append, flatten_bodyPieces, ho, hc]
  simp

/-- **An additional label is a last label.** -/
theorem toText_additional (ls : Labels) (l : Label) : ls.toText (some l) = Labels.toText (ls ++ [l]) none := by
  have ho : Text.ofString "\x7b" = [openingBrace] := by decide
  have hc : Text.ofString "\x7d" = [closingBrace] := by decide
  have hcomma : Text.ofString "," = [comma] := by decide
  rw [toText_none, bodyText_append_singleton]
  unfold toText pieces
  rw [List.flatten_cons, List.flatten_append, List.flatten_append, List.flatten_append, flatten_bodyPieces,
    flatten_labelPieces, ho, hc, hcomma]
  cases ls with
  | nil => rfl
  | cons l' ls => simp

/-! ## Reading -/

theorem readLabel?_labelText {l : Label} (h : equalsSign ∉ l.name) (rest : Text) :
    readLabel? (labelText l ++ rest) = some (l, rest) := by
  have hs : ∀ c ∈ l.name, (fun c => decide (c = equalsSign)) c = false := fun c hc =>
    decide_eq_false (fun e => h (e ▸ hc))
  have he : Text.ofString "=\"" = [equalsSign, Text.quote] := by decide
  have ht : labelText l ++ rest =
      l.name ++ equalsSign :: Text.quote :: (l.value.escape ++ Text.quote :: rest) := by simp [labelText]
  have ha : Text.after? [equalsSign, Text.quote] (equalsSign :: Text.quote :: (l.value.escape ++ Text.quote :: rest)) =
      some (l.value.escape ++ Text.quote :: rest) := Text.after?_append [equalsSign, Text.quote] _
  unfold readLabel?
  simp only
  rw [ht, Text.splitAtFirst_append hs (decide_eq_true rfl), he, ha]
  simp only
  rw [Text.readQuoted?_escape]
  rfl

theorem readBody?_bodyText (rest : Text) : ∀ (ls : Labels) (n : Nat), ls ≠ [] → ls.length ≤ n →
    (∀ l ∈ ls, equalsSign ∉ l.name) → readBody? n (bodyText ls ++ closingBrace :: rest) = some (ls, rest)
  | [], _, h, _, _ => absurd rfl h
  | [l], n + 1, _, _, hl => by
    rw [readBody?, bodyText, readLabel?_labelText (hl l (by simp))]
    simp only
    rw [if_neg (by decide), if_pos trivial]
  | l :: l' :: ls, n + 1, _, hn, hl => by
    have ih := readBody?_bodyText rest (l' :: ls) n (List.cons_ne_nil _ _) (by simp at hn ⊢; omega)
      (fun x hx => hl x (List.mem_cons_of_mem l hx))
    rw [readBody?, bodyText_cons l (List.cons_ne_nil l' ls), List.append_assoc, List.cons_append,
      readLabel?_labelText (hl l List.mem_cons_self)]
    simp only
    rw [if_pos trivial, ih]
    rfl

theorem length_le_length_bodyText : ∀ (ls : Labels), ls.length ≤ (bodyText ls).length
  | [] => Nat.le_refl 0
  | [l] => by simp [bodyText, labelText]; omega
  | l :: l' :: ls => by
    have ih := length_le_length_bodyText (l' :: ls)
    rw [bodyText_cons l (List.cons_ne_nil l' ls), List.length_append, List.length_cons, List.length_cons]
    simp only [labelText, List.length_append, List.length_cons]
    simp only [List.length_cons] at ih
    omega

/-- A label set that is not empty does not begin like one that is. -/
theorem bodyText_head {l : Label} (h : closingBrace ∉ l.name) (ls : Labels) :
    ∃ c r, bodyText (l :: ls) = c :: r ∧ c ≠ closingBrace := by
  have hl : ∃ c r, labelText l = c :: r ∧ c ≠ closingBrace := by
    unfold labelText
    cases hn : l.name with
    | nil => exact ⟨equalsSign, _, rfl, by decide⟩
    | cons c r =>
      refine ⟨c, _, rfl, fun e => h ?_⟩
      rw [hn, e]
      exact List.mem_cons_self
  obtain ⟨c, r, hr, hc⟩ := hl
  cases ls with
  | nil => exact ⟨c, r, hr, hc⟩
  | cons l' ls =>
    refine ⟨c, r ++ comma :: bodyText (l' :: ls), ?_, hc⟩
    rw [bodyText_cons l (List.cons_ne_nil l' ls), hr, List.cons_append]

/-- **A label set is read back, and what follows it is left.** -/
theorem read?_toText {ls : Labels} (h : ∀ l ∈ ls, equalsSign ∉ l.name ∧ closingBrace ∉ l.name) (rest : Text) :
    read? (ls.toText none ++ rest) = some (ls, rest) := by
  have ho : Text.ofString "\x7b" = [openingBrace] := by decide
  have ha : ∀ t : Text, Text.after? [openingBrace] (openingBrace :: t) = some t := Text.after?_append [openingBrace]
  have ht : ls.toText none ++ rest = openingBrace :: (bodyText ls ++ closingBrace :: rest) := by
    rw [toText_none, List.cons_append, List.append_assoc, List.singleton_append]
  unfold read?
  rw [ht, ho, ha]
  cases ls with
  | nil => rfl
  | cons l ls =>
    obtain ⟨c, r, hr, hc⟩ := bodyText_head (h l List.mem_cons_self).2 ls
    have hlen := length_le_length_bodyText (l :: ls)
    have hb := readBody?_bodyText rest (l :: ls) (bodyText (l :: ls) ++ closingBrace :: rest).length
      (List.cons_ne_nil l ls) (by rw [List.length_append]; omega) (fun x hx => (h x hx).1)
    rw [hr, List.cons_append] at hb ⊢
    simp only
    rw [if_neg hc, hb]

end Labels
end Exposition
