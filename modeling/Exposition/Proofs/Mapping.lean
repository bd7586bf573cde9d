import Exposition.Mapping
import Mathlib.Data.List.Nodup
/-!
# Mappings — what they say, whatever order their keys came in

A mapping says at most one value for each key: that of its one entry for the key (`get?_eq_some_iff`), which is the last one
that was put there (`get?_ofList`).  Two mappings say the same if and only if they have the same entries in perhaps another
order (`agrees_iff_perm`).
-/
namespace Exposition
namespace Mapping

variable {κ ν : Type}

theorem nodup_entries (m : Mapping κ ν) : m.entries.Nodup := m.nodup.of_map

theorem eq_of_mem_entries {m : Mapping κ ν} {a b : κ × ν} (ha : a ∈ m.entries) (hb : b ∈ m.entries) (h : a.1 = b.1) :
    a = b :=
  List.inj_on_of_nodup_map m.nodup ha hb h

variable [DecidableEq κ] {m m' : Mapping κ ν} {k : κ} {v : ν}

theorem get?_eq_some_iff : m.get? k = some v ↔ (k, v) ∈ m.entries := by
  rw [get?, Option.map_eq_some_iff]
  constructor
  · rintro ⟨e, he, rfl⟩
    obtain rfl : e.1 = k := by simpa using List.find?_some he
    exact List.mem_of_find?_eq_some he
  · intro hmem
    cases he : m.entries.find? (fun e => e.1 = k) with
    | none =>
      have hno := List.find?_eq_none.1 he _ hmem
      exact absurd (decide_eq_true rfl) hno
    | some e =>
      have hk : e.1 = k := by simpa using List.find?_some he
      exact ⟨e, rfl, congrArg Prod.snd (eq_of_mem_entries (List.mem_of_find?_eq_some he) hmem hk)⟩

theorem get?_ne_none_iff : m.get? k ≠ none ↔ k ∈ m.entries.map Prod.fst := by
  rw [Option.ne_none_iff_exists', List.mem_map]
  constructor
  · rintro ⟨v, hv⟩
    exact ⟨(k, v), get?_eq_some_iff.1 hv, rfl⟩
  · rintro ⟨⟨k', v⟩, he, rfl⟩
    exact ⟨v, get?_eq_some_iff.2 he⟩

/-- **The last entry for a key wins.** -/
theorem get?_ofList (es : List (κ × ν)) (k : κ) :
    (ofList es).get? k = (es.reverse.find? (fun e => e.1 = k)).map Prod.snd := by
  have hfold : ∀ (es : List (κ × ν)) (m : Mapping κ ν), (es.foldl (fun m e => m.put e.1 e.2) m).get? k =
      ((es.reverse.find? (fun e => e.1 = k)).map Prod.snd).or (m.get? k) := by
    intro es
    induction es with
    | nil => exact fun m => rfl
    | cons e es ih =>
      intro m
      rw [List.foldl_cons, ih, get?_put, List.reverse_cons, List.find?_append]
      cases es.reverse.find? (fun e => e.1 = k) with
      | some e' => rfl
      | none =>
        by_cases h : k = e.1
        · subst h
          simp
        · simp [h, Ne.symm h]
  rw [ofList, hfold]
  exact Option.or_none

/-- Mappings that say the same value for each key. -/
def Agrees (m m' : Mapping κ ν) : Prop := ∀ k, m.get? k = m'.get? k

theorem Agrees.mem_iff (h : m.Agrees m') (e : κ × ν) : e ∈ m.entries ↔ e ∈ m'.entries := by
  obtain ⟨k, v⟩ := e
  rw [← get?_eq_some_iff, ← get?_eq_some_iff, h k]

/-- **Mappings agree if they differ in the order of their entries only.** -/
theorem agrees_iff_perm : m.Agrees m' ↔ m.entries.Perm m'.entries := by
  rw [List.perm_ext_iff_of_nodup m.nodup_entries m'.nodup_entries]
  constructor
  · exact fun h => h.mem_iff
  · intro h k
    ext v
    rw [get?_eq_some_iff, get?_eq_some_iff, h]

end Mapping
end Exposition
