/-!
# Mapping — keys in the order in which they first came

A key that comes again keeps its place and takes the new value.
-/
namespace Exposition

/-- Entries with distinct keys, in the order in which the keys first came. -/
structure Mapping (κ ν : Type) where
  entries : List (κ × ν)
  nodup : (entries.map Prod.fst).Nodup
  deriving DecidableEq

namespace Mapping

variable {κ ν : Type}

def empty : Mapping κ ν := ⟨[], List.nodup_nil⟩

variable [DecidableEq κ]

def putEntry (k : κ) (v : ν) : List (κ × ν) → List (κ × ν)
  | [] => [(k, v)]
  | e :: es => if e.1 = k then (k, v) :: es else e :: putEntry k v es

theorem keys_putEntry (k : κ) (v : ν) : ∀ (es : List (κ × ν)),
    (putEntry k v es).map Prod.fst =
      if k ∈ es.map Prod.fst then es.map Prod.fst else es.map Prod.fst ++ [k]
  | [] => by simp [putEntry]
  | e :: es => by
    rw [putEntry]
    by_cases h : e.1 = k
    · simp [h]
    · rw [if_neg h, List.map_cons, keys_putEntry k v es]
      have hne : k ≠ e.1 := Ne.symm h
      by_cases hm : k ∈ es.map Prod.fst
      · rw [if_pos hm, List.map_cons, if_pos (List.mem_cons_of_mem _ hm)]
      · rw [if_neg hm, List.map_cons, if_neg (by simp [hne, hm]), List.cons_append]

theorem nodup_keys_putEntry (k : κ) (v : ν) (es : List (κ × ν)) (h : (es.map Prod.fst).Nodup) :
    ((putEntry k v es).map Prod.fst).Nodup := by
  rw [keys_putEntry]
  split
  · exact h
  · rename_i hm
    rw [List.nodup_append]
    exact ⟨h, by simp, fun a ha b hb => by simp at hb; rintro rfl; exact hm (hb ▸ ha)⟩

def put (m : Mapping κ ν) (k : κ) (v : ν) : Mapping κ ν :=
  ⟨putEntry k v m.entries, nodup_keys_putEntry k v m.entries m.nodup⟩

def ofList (es : List (κ × ν)) : Mapping κ ν := es.foldl (fun m e => m.put e.1 e.2) empty

def erase (m : Mapping κ ν) (k : κ) : Mapping κ ν :=
  ⟨m.entries.filter (fun e => e.1 ≠ k), m.nodup.sublist (List.filter_sublist.map Prod.fst)⟩

def get? (m : Mapping κ ν) (k : κ) : Option ν := (m.entries.find? (fun e => e.1 = k)).map Prod.snd

theorem find?_putEntry (k k' : κ) (v : ν) : ∀ (es : List (κ × ν)),
    ((putEntry k v es).find? (fun e => e.1 = k')).map Prod.snd =
      if k' = k then some v else (es.find? (fun e => e.1 = k')).map Prod.snd
  | [] => by
    by_cases h : k = k'
    · simp [putEntry, h]
    · simp [putEntry, h, Ne.symm h]
  | e :: es => by
    rw [putEntry]
    by_cases h : e.1 = k
    · rw [if_pos h]
      by_cases hk : k = k'
      · simp [hk]
      · have he : e.1 ≠ k' := h ▸ hk
        simp [hk, Ne.symm hk, he]
    · rw [if_neg h, List.find?_cons]
      by_cases hk : e.1 = k'
      · have hne : k' ≠ k := hk ▸ h
        simp [hk, hne]
      · simp only [hk, decide_false, List.find?_cons]
        exact find?_putEntry k k' v es

theorem get?_put (m : Mapping κ ν) (k k' : κ) (v : ν) :
    (m.put k v).get? k' = if k' = k then some v else m.get? k' := find?_putEntry k k' v m.entries

theorem get?_erase (m : Mapping κ ν) (k k' : κ) :
    (m.erase k).get? k' = if k' = k then none else m.get? k' := by
  unfold erase get?
  rw [List.find?_filter]
  by_cases h : k' = k
  · subst h
    simp
  · rw [if_neg h]
    congr 2
    funext e
    by_cases he : e.1 = k'
    · simp [he, h]
    · simp [he]

end Mapping
end Exposition
