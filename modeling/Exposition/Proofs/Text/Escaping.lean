import Exposition.Text.Scan
/-!
# Escaping — what is escaped comes back, and stays on its line

`escape` replaces three characters one after the other; it is the same as looking at each character once
(`escape_eq_escapeAtOnce`), and so an escaped text is read back by `unescape?` and by `readQuoted?`, the latter
whatever follows the closing quote.
-/
namespace Exposition
namespace Text

theorem substitute_append (s t : Text) (c : CodePoint) (w : Text) :
    (s ++ t).substitute c w = s.substitute c w ++ t.substitute c w := List.flatMap_append

/-- One character, escaped by the three passes: none of the later passes meets what it has to replace in what an
earlier one brought in. -/
theorem escape_singleton (c : CodePoint) : escape [c] = escapeSequence c := by
  unfold escape escapeSequence substitute
  by_cases hb : c = backslash
  · subst hb
    decide
  · by_cases hq : c = quote
    · subst hq
      decide
    · by_cases hl : c = lineFeed
      · subst hl
        decide
      · simp [hb, hq, hl]

theorem escape_append (s t : Text) : escape (s ++ t) = escape s ++ escape t := by
  unfold escape
  rw [substitute_append, substitute_append, substitute_append]

/-- **The three passes are one pass.** -/
theorem escape_eq_escapeAtOnce : ∀ (t : Text), escape t = escapeAtOnce t
  | [] => rfl
  | c :: t => by
    have hc : c :: t = [c] ++ t := rfl
    rw [hc, escape_append, escape_singleton, escape_eq_escapeAtOnce t]
    rfl

theorem escape_cons (c : CodePoint) (t : Text) : escape (c :: t) = escapeSequence c ++ escape t := by
  rw [escape_eq_escapeAtOnce, escape_eq_escapeAtOnce]
  rfl

theorem escapeSequence_cases (c : CodePoint) :
    (c = backslash ∧ escapeSequence c = [backslash, backslash]) ∨
    (c = quote ∧ escapeSequence c = [backslash, quote]) ∨
    (c = lineFeed ∧ escapeSequence c = [backslash, letterN]) ∨
    (c ≠ backslash ∧ c ≠ quote ∧ c ≠ lineFeed ∧ escapeSequence c = [c]) := by
  unfold escapeSequence
  split
  · exact .inl ⟨‹_›, rfl⟩
  · split
    · exact .inr (.inl ⟨‹_›, rfl⟩)
    · split
      · exact .inr (.inr (.inl ⟨‹_›, rfl⟩))
      · exact .inr (.inr (.inr ⟨‹_›, ‹_›, ‹_›, rfl⟩))

theorem lineFeed_notMem_escape : ∀ (t : Text), lineFeed ∉ escape t
  | [] => List.not_mem_nil
  | c :: t => by
    rw [escape_cons, List.mem_append, not_or]
    refine ⟨?_, lineFeed_notMem_escape t⟩
    rcases escapeSequence_cases c with ⟨-, h⟩ | ⟨-, h⟩ | ⟨-, h⟩ | ⟨-, -, hl, h⟩
    · rw [h]; decide
    · rw [h]; decide
    · rw [h]; decide
    · rw [h, List.mem_singleton]
      exact Ne.symm hl

/-! ## Reading back -/

theorem unescape?_cons_of_ne {c : CodePoint} (hc : c ≠ backslash) (t : Text) :
    unescape? (c :: t) = (unescape? t).map (c :: ·) := by
  cases t with
  | nil => simp [unescape?, hc]
  | cons d r => rw [unescape?, if_neg hc]

theorem unescape?_escape : ∀ (t : Text), unescape? (escape t) = some t
  | [] => rfl
  | c :: t => by
    have ih := unescape?_escape t
    rw [escape_cons]
    rcases escapeSequence_cases c with ⟨rfl, h⟩ | ⟨rfl, h⟩ | ⟨rfl, h⟩ | ⟨hb, -, -, h⟩
    · rw [h, List.cons_append, List.cons_append, List.nil_append, unescape?, if_pos rfl, if_pos rfl, ih]
      rfl
    · rw [h, List.cons_append, List.cons_append, List.nil_append, unescape?, if_pos rfl, if_neg (by decide),
        if_pos rfl, ih]
      rfl
    · rw [h, List.cons_append, List.cons_append, List.nil_append, unescape?, if_pos rfl, if_neg (by decide),
        if_neg (by decide), if_pos rfl, ih]
      rfl
    · rw [h, List.singleton_append, unescape?_cons_of_ne hb, ih]
      rfl

theorem unescape?_of_notMem : ∀ (t : Text), backslash ∉ t → unescape? t = some t
  | [], _ => rfl
  | c :: t, h => by
    rw [List.mem_cons, not_or] at h
    rw [unescape?_cons_of_ne (Ne.symm h.1), unescape?_of_notMem t h.2]
    rfl

theorem readQuoted?_quote (rest : Text) : readQuoted? (quote :: rest) = some ([], rest) := by
  cases rest with
  | nil => rfl
  | cons d r => rw [readQuoted?, if_pos rfl]

theorem readQuoted?_cons_of_ne {c : CodePoint} (hq : c ≠ quote) (hb : c ≠ backslash) (t : Text) :
    readQuoted? (c :: t) = (readQuoted? t).map (fun p => (c :: p.1, p.2)) := by
  cases t with
  | nil => simp [readQuoted?, hq]
  | cons d r => rw [readQuoted?, if_neg hq, if_neg hb]

/-- **A quoted text ends at its own closing quote**, whatever it holds and whatever follows. -/
theorem readQuoted?_escape (rest : Text) : ∀ (t : Text), readQuoted? (escape t ++ quote :: rest) = some (t, rest)
  | [] => readQuoted?_quote rest
  | c :: t => by
    have ih := readQuoted?_escape rest t
    rw [escape_cons, List.append_assoc]
    rcases escapeSequence_cases c with ⟨rfl, h⟩ | ⟨rfl, h⟩ | ⟨rfl, h⟩ | ⟨hb, hq, -, h⟩
    · rw [h, List.cons_append, List.cons_append, List.nil_append, readQuoted?, if_neg (by decide), if_pos rfl,
        if_pos rfl, ih]
      rfl
    · rw [h, List.cons_append, List.cons_append, List.nil_append, readQuoted?, if_neg (by decide), if_pos rfl,
        if_neg (by decide), if_pos rfl, ih]
      rfl
    · rw [h, List.cons_append, List.cons_append, List.nil_append, readQuoted?, if_neg (by decide), if_pos rfl,
        if_neg (by decide), if_neg (by decide), if_pos rfl, ih]
      rfl
    · rw [h, List.singleton_append, readQuoted?_cons_of_ne hq hb, ih]
      rfl

end Text
end Exposition
