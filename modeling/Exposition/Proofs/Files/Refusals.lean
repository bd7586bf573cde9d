import Exposition.Proofs.Files.Walks
/-!
# Refusals — how operations on files fail

A path that cannot be handed over is refused before anything is tried, and all other failures are those of the system
(`FileError.IsSystem`).  A text that begins a text without faults has none itself, so a path can be handed over if a path
can whose text begins with its own; that makes a metrics file, its directory and all that lead to it as good as the
temporary file beside it.
-/
namespace Exposition

namespace Path

theorem surrogateFault?_of_append : ∀ {s : Text} {offset : Nat} (rest : Text),
    surrogateFault? offset (s ++ rest) = none → surrogateFault? offset s = none
  | [], _, _, _ => rfl
  | c :: s, offset, rest, h => by
    rw [List.cons_append, surrogateFault?] at h
    split at h
    · cases h
    · rename_i hc
      rw [surrogateFault?, if_neg hc]
      exact surrogateFault?_of_append rest h

/-- A path can be handed over if one can whose text begins with its own. -/
theorem fault?_of_longer {p q : Path} (h : p.toText <+: q.toText) (hq : q.fault? = none) : p.fault? = none := by
  obtain ⟨rest, hrest⟩ := h
  unfold fault? at hq ⊢
  rw [← hrest] at hq
  split at hq
  · cases hq
  · rename_i hsurrogates
    rw [surrogateFault?_of_append rest hsurrogates]
    split at hq
    · cases hq
    · rename_i hnull
      rw [List.any_append, Bool.or_eq_true, not_or] at hnull
      exact if_neg hnull.1

theorem joined_cons {cs : List Text} (h : cs ≠ []) (c : Text) : joined (c :: cs) = c ++ slash :: joined cs := by
  cases cs with
  | nil => exact absurd rfl h
  | cons c' cs => rfl

/-- What is behind the same components is joined behind the same text. -/
theorem joined_prefix_append {xs ys : List Text} (hxs : xs ≠ []) (h : joined xs <+: joined ys) (hys : ys ≠ []) :
    ∀ (cs : List Text), joined (cs ++ xs) <+: joined (cs ++ ys)
  | [] => h
  | c :: cs => by
    obtain ⟨rest, hrest⟩ := joined_prefix_append hxs h hys cs
    refine ⟨rest, ?_⟩
    rw [List.cons_append, List.cons_append, joined_cons (List.append_ne_nil_of_right_ne_nil cs hxs),
      joined_cons (List.append_ne_nil_of_right_ne_nil cs hys), ← hrest, List.append_assoc, List.cons_append]

variable {a : Anchor}

theorem toText_of_ne_nil {cs : List Text} (h : cs ≠ []) : toText ⟨a, cs⟩ = a.toText ++ joined cs :=
  if_neg fun hhere => h hhere.2

theorem fault?_of_longer_joined {cs ds : List Text} (hcs : cs ≠ []) (hds : ds ≠ []) (h : joined cs <+: joined ds)
    (hvalid : fault? ⟨a, ds⟩ = none) : fault? ⟨a, cs⟩ = none := by
  refine fault?_of_longer ?_ hvalid
  rw [toText_of_ne_nil hcs, toText_of_ne_nil hds]
  exact (List.prefix_append_right_inj a.toText).mpr h

/-- Where paths start from can be handed over. -/
theorem fault?_nil (a : Anchor) : fault? ⟨a, []⟩ = none := by
  cases a <;> decide

/-- **What leads to a path that can be handed over can be handed over.** -/
theorem fault?_of_longer_path {cs ds : List Text} (h : cs <+: ds) (hvalid : fault? ⟨a, ds⟩ = none) :
    fault? ⟨a, cs⟩ = none := by
  rcases List.eq_nil_or_concat cs with rfl | ⟨init, last, rfl⟩
  · exact fault?_nil a
  obtain ⟨rest, rfl⟩ := h
  rw [List.concat_eq_append, List.append_assoc] at hvalid
  rw [List.concat_eq_append]
  refine fault?_of_longer_joined (by simp) (by simp) (joined_prefix_append (by simp) ?_ (by simp) init) hvalid
  cases rest with
  | nil => exact List.prefix_rfl
  | cons r rest => exact List.prefix_append _ _

/-- A path can be handed over if it can with more text behind its last component. -/
theorem fault?_of_longer_name {cs : List Text} {n ending : Text} (hvalid : fault? ⟨a, cs ++ [n ++ ending]⟩ = none) :
    fault? ⟨a, cs ++ [n]⟩ = none := by
  have hname : joined [n] <+: joined [n ++ ending] := List.prefix_append n ending
  exact fault?_of_longer_joined (by simp) (by simp) (joined_prefix_append (by simp) hname (by simp) cs) hvalid

end Path

namespace Tree

/-- How a walk may fail. -/
def WalkError (e : FileError) : Prop := e = .notFound ∨ e = .notADirectory ∨ e = .nameTooLong

theorem WalkError.isSystem {e : FileError} (h : WalkError e) : e.IsSystem := by
  rcases h with rfl | rfl | rfl <;> trivial

theorem walkError_of_step {t : Tree} {l : Location} {c : Text} {e : FileError} (h : t.step l c = .error e) :
    WalkError e := by
  unfold step at h
  split at h
  · exact .inl (Except.error.inj h).symm
  · exact .inr (.inl (Except.error.inj h).symm)
  · split at h
    · cases h
    · split at h
      · exact .inr (.inr (Except.error.inj h).symm)
      · cases h

theorem walkError_of_walk {t : Tree} {e : FileError} : ∀ {cs : List Text} {l : Location},
    t.walk l cs = .error e → WalkError e
  | [], _, h => by cases h
  | c :: cs, l, h => by
    unfold walk at h
    split at h
    · exact walkError_of_walk h
    · rename_i hstep
      cases h
      exact walkError_of_step hstep

variable {t : Tree} {p q : Path} {e : FileError}

/-- **A path that cannot be handed over is refused, and any other leads somewhere or fails on the walk.** -/
theorem locate_eq_error (h : t.locate p = .error e) :
    (∃ f, p.fault? = some f ∧ e = .faultyPath f) ∨ (p.fault? = none ∧ WalkError e) := by
  unfold locate at h
  split at h
  · rename_i f hf
    exact .inl ⟨f, hf, (Except.error.inj h).symm⟩
  · rename_i hf
    refine .inr ⟨hf, ?_⟩
    split at h
    · exact .inr (.inr (Except.error.inj h).symm)
    · exact walkError_of_walk h

theorem fault?_of_locate {l : Location} (h : t.locate p = .ok l) : p.fault? = none := by
  unfold locate at h
  split at h
  · cases h
  · assumption

theorem find_eq_error (h : t.find p = .error e) :
    (∃ f, p.fault? = some f ∧ e = .faultyPath f) ∨ (p.fault? = none ∧ WalkError e) := by
  unfold find at h
  split at h
  · rename_i hlocate
    cases h
    exact locate_eq_error hlocate
  · rename_i hlocate
    split at h
    · cases h
    · exact .inr ⟨fault?_of_locate hlocate, .inl (Except.error.inj h).symm⟩

theorem isSystem_of_locate (hp : p.fault? = none) (h : t.locate p = .error e) : e.IsSystem := by
  rcases locate_eq_error h with ⟨f, hf, -⟩ | ⟨-, hwalk⟩
  · rw [hp] at hf
    cases hf
  · exact hwalk.isSystem

theorem isSystem_of_find (hp : p.fault? = none) (h : t.find p = .error e) : e.IsSystem := by
  rcases find_eq_error h with ⟨f, hf, -⟩ | ⟨-, hwalk⟩
  · rw [hp] at hf
    cases hf
  · exact hwalk.isSystem

/-! ## Operations on paths that can be handed over -/

theorem isSystem_of_truncate (hp : p.fault? = none) (h : t.truncate p = .error e) : e.IsSystem := by
  unfold truncate at h
  split at h
  · rename_i hlocate
    cases h
    exact isSystem_of_locate hp hlocate
  · split at h <;> cases h
    trivial

theorem isSystem_of_setMode {mode : Nat} (hp : p.fault? = none) (h : t.setMode p mode = .error e) : e.IsSystem := by
  unfold setMode at h
  split at h
  · rename_i hfind
    cases h
    exact isSystem_of_find hp hfind
  · cases h
  · cases h

theorem isSystem_of_moveFile (hp : p.fault? = none) (hq : q.fault? = none) (h : t.moveFile p q = .error e) :
    e.IsSystem := by
  unfold moveFile at h
  split at h
  · rename_i hfind
    cases h
    exact isSystem_of_find hp hfind
  · split at h
    · rename_i hlocate
      cases h
      exact isSystem_of_locate hq hlocate
    · split at h <;> cases h <;> trivial

theorem isSystem_of_makeDirectory (hp : p.fault? = none) (h : t.makeDirectory p = .error e) : e.IsSystem := by
  unfold makeDirectory at h
  split at h
  · rename_i hlocate
    cases h
    exact isSystem_of_locate hp hlocate
  · split at h <;> cases h
    trivial

theorem isSystem_of_ensureDirectoryAt {a : Anchor} : ∀ {cs : List Text} {t : Tree},
    Path.fault? ⟨a, cs.reverse⟩ = none → (t.ensureDirectoryAt a cs).2 = some e → e.IsSystem
  | [], t, _, h => by
    unfold ensureDirectoryAt at h
    simp only at h
    split at h <;> cases h
    trivial
  | c :: cs, t, hp, h => by
    have hexisting : ∀ {t' : Tree} {e' : FileError},
        (if t'.isDirectory ⟨a, (c :: cs).reverse⟩ then none else some e') = some e → e' = e := by
      intro t' e' h
      split at h <;> cases h
      rfl
    unfold ensureDirectoryAt at h
    simp only at h
    split at h
    · cases h
    · split at h
      · rename_i e' hup
        cases h
        have hbegins : cs.reverse <+: (c :: cs).reverse := by
          rw [List.reverse_cons]
          exact List.prefix_append _ _
        exact isSystem_of_ensureDirectoryAt (Path.fault?_of_longer_path hbegins hp) (congrArg Prod.snd hup)
      · split at h
        · cases h
        · cases h
          trivial
        · rename_i hmake
          rw [← hexisting h]
          exact isSystem_of_makeDirectory hp hmake
    · rename_i hmake
      rw [← hexisting h]
      exact isSystem_of_makeDirectory hp hmake

theorem isSystem_of_ensureDirectory (hp : p.fault? = none) (h : (t.ensureDirectory p).2 = some e) : e.IsSystem := by
  refine isSystem_of_ensureDirectoryAt ?_ h
  rw [List.reverse_reverse]
  exact hp

end Tree
end Exposition
