import Exposition.Proofs.Text.Escaping
import Mathlib.Algebra.Ring.Parity
/-!
# Backslashes — what stands in front of a quote

In an escaped text every second backslash of a run belongs to the one before it, so what a run escapes hangs on its length:
a quote behind an odd run is escaped, and a text that ends in an even one leaves nothing to be escaped behind it.  Each
character that is escaped keeps both (`IsEscaped.append_escapeSequence`), and so the quotes of an escaped text are all
escaped, and whatever follows it is not (`isEscaped_escape`).
-/
namespace Exposition
namespace Text

/-- The length of the run of backslashes at the end of a text. -/
def endingBackslashes (t : Text) : Nat := (t.reverse.takeWhile (fun c => c = backslash)).length

theorem endingBackslashes_append_backslash (t : Text) :
    endingBackslashes (t ++ [backslash]) = endingBackslashes t + 1 := by
  rw [endingBackslashes, List.reverse_concat, List.takeWhile_cons_of_pos (by simp), List.length_cons]
  rfl

theorem endingBackslashes_append_of_ne (t : Text) {c : CodePoint} (hc : c ≠ backslash) :
    endingBackslashes (t ++ [c]) = 0 := by
  rw [endingBackslashes, List.reverse_concat, List.takeWhile_cons_of_neg (by simpa using hc)]
  rfl

/-- A text whose quotes are escaped, and which leaves nothing to be escaped behind it. -/
structure IsEscaped (t : Text) : Prop where
  quotes : ∀ before after, t = before ++ quote :: after → Odd (endingBackslashes before)
  ending : Even (endingBackslashes t)

theorem isEscaped_nil : IsEscaped [] where
  quotes := fun before after h => by simp at h
  ending := ⟨0, rfl⟩

/-- Quotes are escaped behind one more character if that is no quote, or if an odd run of backslashes stands before it. -/
theorem quotes_append_singleton {t : Text} {c : CodePoint}
    (ht : ∀ before after, t = before ++ quote :: after → Odd (endingBackslashes before))
    (hc : c = quote → Odd (endingBackslashes t)) :
    ∀ before after, t ++ [c] = before ++ quote :: after → Odd (endingBackslashes before) := by
  intro before after h
  rcases List.eq_nil_or_concat after with rfl | ⟨rest, last, rfl⟩
  · obtain ⟨rfl, hquote⟩ := List.append_inj' h rfl
    exact hc (List.singleton_inj.1 hquote)
  · rw [List.concat_eq_append, ← List.cons_append, ← List.append_assoc] at h
    exact ht before rest (List.append_inj' h rfl).1

variable {s : Text}

/-- **One character more, escaped, keeps a text escaped.** -/
theorem IsEscaped.append_escapeSequence (hs : IsEscaped s) (c : CodePoint) : IsEscaped (s ++ escapeSequence c) := by
  -- a backslash as the first of two makes the run odd, whatever the second one is
  have hfirst : Odd (endingBackslashes (s ++ [backslash])) := by
    rw [endingBackslashes_append_backslash]
    exact hs.ending.add_one
  have hquotes := quotes_append_singleton hs.quotes (c := backslash) (fun h => absurd h (by decide))
  have hpair : ∀ d : CodePoint, s ++ [backslash, d] = s ++ [backslash] ++ [d] := fun d => by
    rw [List.append_assoc, List.singleton_append]
  rcases escapeSequence_cases c with ⟨-, h⟩ | ⟨-, h⟩ | ⟨-, h⟩ | ⟨hb, hq, -, h⟩
  · rw [h, hpair]
    refine ⟨quotes_append_singleton hquotes fun _ => hfirst, ?_⟩
    rw [endingBackslashes_append_backslash]
    exact hfirst.add_one
  · rw [h, hpair]
    refine ⟨quotes_append_singleton hquotes fun _ => hfirst, ?_⟩
    rw [endingBackslashes_append_of_ne _ (by decide)]
    exact Even.zero
  · rw [h, hpair]
    refine ⟨quotes_append_singleton hquotes fun _ => hfirst, ?_⟩
    rw [endingBackslashes_append_of_ne _ (by decide)]
    exact Even.zero
  · rw [h]
    refine ⟨quotes_append_singleton hs.quotes fun hc => absurd hc hq, ?_⟩
    rw [endingBackslashes_append_of_ne _ hb]
    exact Even.zero

/-- What is escaped stays so with an escaped text behind it. -/
theorem IsEscaped.append_escape : ∀ (t : Text) {s : Text}, IsEscaped s → IsEscaped (s ++ escape t)
  | [], s, hs => by
    rw [show escape [] = [] from rfl, List.append_nil]
    exact hs
  | c :: t, s, hs => by
    rw [escape_cons, ← List.append_assoc]
    exact append_escape t (hs.append_escapeSequence c)

theorem isEscaped_escape (t : Text) : IsEscaped (escape t) := isEscaped_nil.append_escape t

/-- **Three passes of replacing are one pass over the characters**, so a text is escaped part by part.  No line feed is left,
a quote stands behind an odd run of backslashes, the text does not end in one, and reading it character by character gives
back what was escaped. -/
theorem escape_onePass (t : Text) :
    escape t = escapeAtOnce t ∧
    (∀ u, escape (t ++ u) = escape t ++ escape u) ∧
    lineFeed ∉ escape t ∧
    (∀ before after, escape t = before ++ quote :: after → Odd (endingBackslashes before)) ∧
    ¬Odd (endingBackslashes (escape t)) ∧
    unescape? (escape t) = some t := by
  have h := isEscaped_escape t
  exact ⟨escape_eq_escapeAtOnce t, escape_append t, lineFeed_notMem_escape t, h.quotes, Nat.not_odd_iff_even.2 h.ending,
    unescape?_escape t⟩

/-- A run of backslashes before a quote, one before a line feed, and one at the end, with a quote cut off behind it. -/
theorem escape_onePass_runs :
    let t : Text := "\\\\\"\\\n\\"
    let before : Text := "\\\\\\\\\\"
    escape t = before ++ quote :: ("\\\\\\n\\\\" : Text) ∧ Odd (endingBackslashes before) ∧
      endingBackslashes before = 5 ∧ escape (t ++ [quote]) = escape t ++ [backslash, quote] ∧
      unescape? (escape t) = some t := by
  intro t before
  obtain ⟨-, happend, -, hquotes, -, hread⟩ := escape_onePass t
  have ht : escape t = before ++ quote :: ("\\\\\\n\\\\" : Text) := by decide
  exact ⟨ht, hquotes _ _ ht, by decide, happend [quote], hread⟩

end Text
end Exposition
