import Exposition.Proofs.Files.Refusals
/-!
# Directories — made with all that lead to them

What was made is there (`isDirectory_of_ensureDirectory`), and where a directory is already, nothing is made
(`ensureDirectory_of_isDirectory`); so making a directory once more changes nothing.  For a path that cannot be handed over
nothing is even tried (`ensureDirectory_of_fault`).
-/
namespace Exposition
namespace Tree

variable {t t' : Tree} {p : Path}

theorem isDirectory_of_makeDirectory (h : t.makeDirectory p = .ok t') : t'.isDirectory p = true := by
  have hgrows := makeDirectory_grows h
  obtain ⟨l, hlocate, hfree, rfl⟩ := makeDirectory_eq_ok h
  have hne : l ≠ [] := ne_nil_of_entryAt? (by rw [hfree]; exact fun h => by cases h)
  refine isDirectory_iff.2 ⟨l, hgrows.locate hlocate, ?_⟩
  rw [entryAt?_put t hne, if_pos rfl]

/-- What is there already may only be a directory. -/
theorem isDirectory_of_orExisting {e : FileError} (h : (t, if t.isDirectory p then none else some e) = (t', none)) :
    t'.isDirectory p = true := by
  obtain ⟨rfl, hnone⟩ := Prod.mk.inj h
  split at hnone
  · assumption
  · cases hnone

theorem isDirectory_of_ensureDirectoryAt {a : Anchor} : ∀ {cs : List Text} {t t' : Tree},
    t.ensureDirectoryAt a cs = (t', none) → t'.isDirectory ⟨a, cs.reverse⟩ = true
  | [], t, t', h => by
    unfold ensureDirectoryAt at h
    exact isDirectory_of_orExisting h
  | c :: cs, t, t', h => by
    unfold ensureDirectoryAt at h
    simp only at h
    split at h
    · rename_i hmake
      cases h
      exact isDirectory_of_makeDirectory hmake
    · split at h
      · cases h
      · split at h
        · rename_i hmake
          cases h
          exact isDirectory_of_makeDirectory hmake
        · cases h
        · exact isDirectory_of_orExisting h
    · exact isDirectory_of_orExisting h

/-- **A directory that was made with all that lead to it is there.** -/
theorem isDirectory_of_ensureDirectory (h : t.ensureDirectory p = (t', none)) : t'.isDirectory p = true := by
  have hdirectory := isDirectory_of_ensureDirectoryAt h
  rwa [List.reverse_reverse] at hdirectory

/-- A path whose components are given from the last one on, as directories are made. -/
theorem exists_reverse (p : Path) : ∃ (a : Anchor) (cs : List Text), p = ⟨a, cs.reverse⟩ :=
  ⟨p.anchor, p.components.reverse, by rw [List.reverse_reverse]⟩

/-- **Where a directory is already, nothing is made.** -/
theorem ensureDirectory_of_isDirectory (h : t.isDirectory p = true) : t.ensureDirectory p = (t, none) := by
  obtain ⟨l, hlocate, hentry⟩ := isDirectory_iff.1 h
  have hmake : t.makeDirectory p = .error .alreadyExists := by
    rw [makeDirectory, hlocate]
    simp only [hentry]
  obtain ⟨a, cs, rfl⟩ := exists_reverse p
  rw [ensureDirectory, List.reverse_reverse]
  cases cs with
  | nil => exact congrArg (Prod.mk t) (if_pos h)
  | cons c cs =>
    rw [ensureDirectoryAt]
    simp only [hmake, if_pos h]

/-- **For a path that cannot be handed over nothing is made.** -/
theorem ensureDirectory_of_fault {f : Path.Fault} (h : p.fault? = some f) :
    t.ensureDirectory p = (t, some (.faultyPath f)) := by
  have hlocate : t.locate p = .error (.faultyPath f) := by rw [locate, h]
  have hmake : t.makeDirectory p = .error (.faultyPath f) := by rw [makeDirectory, hlocate]
  have hnot : t.isDirectory p = false := by rw [isDirectory, find, hlocate]
  obtain ⟨a, cs, rfl⟩ := exists_reverse p
  rw [ensureDirectory, List.reverse_reverse]
  cases cs with
  | nil =>
    rw [List.reverse_nil, Path.fault?_nil] at h
    cases h
  | cons c cs =>
    rw [ensureDirectoryAt]
    simp only [hmake, hnot, Bool.false_eq_true, if_false]

/-- The failures of the system are those that the path is not to blame for. -/
theorem isSystem_iff_of_ensureDirectory {e : FileError} (h : t.ensureDirectory p = (t', some e)) :
    e.IsSystem ↔ p.fault? = none := by
  constructor
  · intro hsystem
    cases hfault : p.fault? with
    | none => rfl
    | some f =>
      rw [ensureDirectory_of_fault hfault] at h
      cases h
      exact hsystem.elim
  · exact fun hvalid => isSystem_of_ensureDirectory hvalid (congrArg Prod.snd h)

theorem fault?_of_ensureDirectory (h : t.ensureDirectory p = (t', none)) : p.fault? = none := by
  obtain ⟨l, hlocate, -⟩ := isDirectory_iff.1 (isDirectory_of_ensureDirectory h)
  exact fault?_of_locate hlocate

end Tree
end Exposition
