import Exposition.MetricsFile
import Exposition.Proofs.Document.Streaming
import Exposition.Proofs.Files.Walks
/-!
# Replacing — a metrics file is replaced as a whole or not at all

An attempt to write a metrics file fills the temporary file beside it and then puts that in its place.  What it leaves
follows from how far it comes: to a temporary file that holds all of the document (`written?`), and then to the moment at
which that file has taken the place of the metrics file (`replaced?`).  Before that moment nothing changes at the
metrics file (`attempt_of_not_replaced`), and after it the document stands there (`attempt_of_replaced`), wherever the
attempt breaks off.
-/
namespace Exposition
namespace MetricsFile

open Exposition.Tree (Grows)

/-- The tree in which the temporary file holds all of the document and is closed, if it comes to that once the directory
is there. -/
def filled? (f : MetricsFile) (c : Circumstances) (t : Tree) (temporary : Path) (ss : List Snapshot) :
    Option Tree :=
  if c.obstacle = some .opening ∨ c.obstacle = some .closing then none
  else
    match t.truncate temporary with
    | .error _ => none
    | .ok (opened, l) =>
      let w := Document.write f.withCreated c.elapsed c.sink ss
      if w.fault = none then some (opened.setBytes l w.sink.bytes) else none

/-- The tree in which the temporary file holds all of the document and is closed, if it comes to that. -/
def written? (f : MetricsFile) (c : Circumstances) (t : Tree) (temporary : Path) (ss : List Snapshot) :
    Option Tree :=
  match f.makeParent c t with
  | (_, some _) => none
  | (made, none) => f.filled? c made temporary ss

/-- The tree in which the temporary file has just taken the place of the metrics file, if it comes to that. -/
def replaced? (f : MetricsFile) (c : Circumstances) (t : Tree) (temporary : Path) (ss : List Snapshot) :
    Option Tree :=
  match f.written? c t temporary ss with
  | none => none
  | some full => if c.obstacle = some .replacing then none else (full.moveFile temporary f.path).toOption

/-! ## The two locations -/

section Locations

variable {f : MetricsFile} {temporary : Path}

theorem temporary?_eq_some (h : f.temporary? = some temporary) :
    ∃ cs n, f.path.components = cs ++ [n] ∧ temporary = ⟨f.path.anchor, cs ++ [n ++ temporaryEnding]⟩ := by
  obtain ⟨n, hn, rfl⟩ := Option.map_eq_some_iff.1 h
  obtain ⟨cs, hcs⟩ := List.getLast?_eq_some_iff.1 hn
  exact ⟨cs, n, hcs, by rw [Path.withName, hcs, List.dropLast_concat]⟩

theorem append_temporaryEnding_ne_above (n : Text) : n ++ temporaryEnding ≠ Path.above := by
  intro h
  have hlength := congrArg List.length h
  have hending : temporaryEnding.length = 4 := by decide
  have habove : Path.above.length = 2 := by decide
  rw [List.length_append] at hlength
  omega

/-- The temporary file has a location of its own. -/
theorem spelledOut_temporary_ne (h : f.temporary? = some temporary) (t : Tree) :
    t.spelledOut temporary ≠ t.spelledOut f.path := by
  obtain ⟨cs, n, hcs, rfl⟩ := temporary?_eq_some h
  rw [Tree.spelledOut_eq, Tree.spelledOut_eq, hcs]
  simp only [List.foldl_append, List.foldl_cons, List.foldl_nil, Tree.turn,
    if_neg (append_temporaryEnding_ne_above n)]
  intro he
  have hlength := congrArg List.length he
  split at he
  · rename_i hn
    rw [if_pos hn] at hlength
    simp only [List.length_append, List.length_singleton, List.length_dropLast] at hlength
    omega
  · have hname : n ++ temporaryEnding = n := by
      have hlast := List.append_cancel_left he
      exact (List.cons.inj hlast).1
    have hending : temporaryEnding = [] := List.append_right_eq_self.1 hname
    exact absurd hending (by decide)

/-- Only with double dots a path leads to a location on the way to its parent. -/
theorem above_mem_of_onTheWay (h : f.temporary? = some temporary) {t : Tree}
    (hl : t.OnTheWay f.path.parent (t.spelledOut f.path)) : Path.above ∈ f.path.components := by
  obtain ⟨cs, n, hcs, -⟩ := temporary?_eq_some h
  rw [Path.parent, hcs, List.dropLast_concat] at hl
  rw [hcs]
  exact Tree.above_mem_of_onTheWay (by rw [Tree.spelledOut, hcs] at hl; exact hl)

/-- Nor does the path of the temporary file. -/
theorem above_mem_of_onTheWay_temporary (h : f.temporary? = some temporary) {t : Tree}
    (hl : t.OnTheWay f.path.parent (t.spelledOut temporary)) : Path.above ∈ f.path.components := by
  obtain ⟨cs, n, hcs, rfl⟩ := temporary?_eq_some h
  rw [Path.parent, hcs, List.dropLast_concat] at hl
  rw [hcs]
  rcases List.mem_append.1 (Tree.above_mem_of_onTheWay hl) with hm | hm
  · exact List.mem_append_left _ hm
  · exact absurd (List.mem_singleton.1 hm).symm (append_temporaryEnding_ne_above n)

end Locations

/-! ## The temporary file -/

section Steps

variable {f : MetricsFile} {c : Circumstances} {t full placed : Tree} {temporary : Path} {ss : List Snapshot}

theorem bytes_sink (c : Circumstances) : c.sink.bytes = [] := by
  unfold Circumstances.sink
  split <;> rfl

theorem ending_ne_done (c : Circumstances) (e : FileError) : c.ending e ≠ .done := by
  cases e <;> exact fun h => by cases h

/-- The directory of the metrics file is made, or not all of it and the attempt is no success. -/
theorem makeParent_grows (f : MetricsFile) (c : Circumstances) (t : Tree) :
    Grows t (f.makeParent c t).1 [] (t.OnTheWay f.path.parent) ∧ (f.makeParent c t).2 ≠ some .done := by
  unfold makeParent
  split
  · refine ⟨?_, fun h => by cases h⟩
    rename_i made _
    refine (t.ensureDirectory_grows _).mono (List.Subset.refl _) ?_
    rintro l ⟨cs, hcs, hl⟩
    exact ⟨cs, hcs.trans (List.take_prefix made _), hl⟩
  · have hgrows := t.ensureDirectory_grows f.path.parent
    split
    · rename_i hdir
      rw [hdir] at hgrows
      exact ⟨hgrows, fun h => ending_ne_done c _ (Option.some.inj h)⟩
    · rename_i hdir
      rw [hdir] at hgrows
      exact ⟨hgrows, fun h => by cases h⟩

/-- The temporary file is cut to nothing, or made, and then holds what is written to it. -/
theorem setBytes_of_truncate {made opened : Tree} {l : Location} {way : Location → Prop} (hmade : Grows t made [] way)
    (h : made.truncate temporary = .ok (opened, l)) (b : Bytes) :
    l = t.spelledOut temporary ∧ (∃ mode, (opened.setBytes l b).find temporary = .ok (l, .file mode b)) ∧
      Grows t (opened.setBytes l b) [l] way := by
  obtain ⟨hlocate, hfree, mode, rfl⟩ := Tree.truncate_eq_ok h
  obtain ⟨hlocate', hempty⟩ := Tree.find_eq_ok.1 (Tree.find_put_file hlocate hfree mode [])
  have hfile := Tree.ne_directory_of_file hempty
  have hspelled := (Tree.locate_eq_ok hlocate).trans (hmade.spelledOut temporary)
  rw [Tree.setBytes_eq_put hempty]
  refine ⟨hspelled, ⟨mode, Tree.find_put_file hlocate' hfile mode b⟩, ?_⟩
  exact (hmade.widen (List.nil_subset _)).trans ((Grows.put_file hfree mode [] way).trans (.put_file hfile mode b way))

theorem full_of_filled {made : Tree} {way : Location → Prop} (hmade : Grows t made [] way)
    (h : f.filled? c made temporary ss = some full) :
    ∃ bytes mode, Document.encode f.withCreated ss = .ok bytes ∧ Utf8.encode Document.endLine <:+ bytes ∧
      full.find temporary = .ok (t.spelledOut temporary, .file mode bytes) ∧
      Grows t full [t.spelledOut temporary] way := by
  unfold filled? at h
  split at h
  · cases h
  split at h
  · cases h
  rename_i opened l htruncate
  simp only at h
  split at h
  · rename_i hfault
    cases h
    obtain ⟨hencode, hend⟩ := Document.encode_of_write (bytes_sink c) hfault
    obtain ⟨rfl, ⟨mode, hfind⟩, hgrows⟩ := setBytes_of_truncate hmade htruncate
      (Document.write f.withCreated c.elapsed c.sink ss).sink.bytes
    exact ⟨_, mode, hencode, hend, hfind, hgrows⟩
  · cases h

/-- **A finished temporary file holds all of the document.** -/
theorem full_of_written (h : f.written? c t temporary ss = some full) :
    ∃ bytes mode, Document.encode f.withCreated ss = .ok bytes ∧ Utf8.encode Document.endLine <:+ bytes ∧
      full.find temporary = .ok (t.spelledOut temporary, .file mode bytes) ∧
      Grows t full [t.spelledOut temporary] (t.OnTheWay f.path.parent) := by
  obtain ⟨hmade, -⟩ := f.makeParent_grows c t
  unfold written? at h
  split at h
  · cases h
  · rename_i made hdir
    rw [hdir] at hmade
    exact full_of_filled hmade h

/-- The temporary file is finished and then put in place, or nothing but that file is changed. -/
theorem fill_cases {made : Tree} {way : Location → Prop} (hmade : Grows t made [] way) (f : MetricsFile)
    (c : Circumstances) (ss : List Snapshot) :
    (∃ full log, f.filled? c made temporary ss = some full ∧
      f.fill c made temporary ss =
        ((f.install c full temporary).1, (f.install c full temporary).2, log)) ∨
    (f.filled? c made temporary ss = none ∧
      Grows t (f.fill c made temporary ss).1 [t.spelledOut temporary] way ∧
      (f.fill c made temporary ss).2.1 ≠ .done) := by
  have hmade' := hmade.widen (List.nil_subset [t.spelledOut temporary])
  unfold filled? fill
  by_cases hopening : c.obstacle = some .opening
  · rw [if_pos (.inl hopening), if_pos hopening]
    exact .inr ⟨rfl, hmade', fun h => by cases h⟩
  rw [if_neg hopening]
  cases htruncate : made.truncate temporary with
  | error e => exact .inr ⟨ite_self none, hmade', ending_ne_done c e⟩
  | ok o =>
    obtain ⟨opened, l⟩ := o
    obtain ⟨rfl, -, hgrows⟩ := setBytes_of_truncate hmade htruncate
      (Document.write f.withCreated c.elapsed c.sink ss).sink.bytes
    simp only
    by_cases hclosing : c.obstacle = some .closing
    · -- the file is closed before it is put in place, so it is `install` that tells of the failure
      rw [if_pos (.inr hclosing), install, if_pos (.inl hclosing)]
      refine .inr ⟨rfl, ?_⟩
      split <;> exact ⟨hgrows, fun h => by cases h⟩
    · rw [if_neg (not_or.2 ⟨hopening, hclosing⟩)]
      cases hfault : (Document.write f.withCreated c.elapsed c.sink ss).fault with
      | none => exact .inl ⟨_, _, if_pos rfl, rfl⟩
      | some fault =>
        refine .inr ⟨if_neg (fun h => by cases h), ?_⟩
        cases fault <;> exact ⟨hgrows, fun h => by cases h⟩

/-- An attempt finishes the temporary file and goes on to put it in place, or it changes nothing but that file. -/
theorem attempt_cases (f : MetricsFile) (c : Circumstances) (t : Tree) (temporary : Path)
    (ss : List Snapshot) :
    (∃ full log, f.written? c t temporary ss = some full ∧
      f.attempt c t temporary ss =
        ((f.install c full temporary).1, (f.install c full temporary).2, log)) ∨
    (f.written? c t temporary ss = none ∧
      Grows t (f.attempt c t temporary ss).1 [t.spelledOut temporary] (t.OnTheWay f.path.parent) ∧
      (f.attempt c t temporary ss).2.1 ≠ .done) := by
  obtain ⟨hmade, hdone⟩ := f.makeParent_grows c t
  unfold written? attempt
  rcases hdir : f.makeParent c t with ⟨made, _ | failure⟩
  · rw [hdir] at hmade
    exact fill_cases hmade f c ss
  · rw [hdir] at hmade hdone
    exact .inr ⟨rfl, hmade.widen (List.nil_subset _), fun h => hdone (congrArg some h)⟩

/-! ## The metrics file -/

/-- Until the temporary file is moved, nothing is done to the tree. -/
theorem install_of_not_moved (h : c.obstacle = some .replacing ∨ (full.moveFile temporary f.path).toOption = none) :
    (f.install c full temporary).1 = full ∧ (f.install c full temporary).2 ≠ .done := by
  unfold install
  split
  · exact ⟨rfl, fun h => by cases h⟩
  · rename_i hnot
    rcases h with h | h
    · exact absurd (.inr h) hnot
    · cases hmove : full.moveFile temporary f.path with
      | error e => exact ⟨rfl, ending_ne_done c e⟩
      | ok placed =>
        rw [hmove] at h
        cases h

/-- A moved file stands at the metrics file, and no longer beside it. -/
theorem moveFile_grows {l : Location} {mode : Nat} {bytes : Bytes}
    (hfind : full.find temporary = .ok (l, .file mode bytes)) (hne : l ≠ full.spelledOut f.path)
    (hmove : full.moveFile temporary f.path = .ok placed) (way : Location → Prop) :
    placed.find f.path = .ok (full.spelledOut f.path, .file mode bytes) ∧ placed.entryAt? l = none ∧
      Grows full placed [l, full.spelledOut f.path] way := by
  obtain ⟨l₁, l', mode₁, bytes₁, hfind₁, hlocate', hentry', rfl⟩ := Tree.moveFile_eq_ok hmove
  cases hfind₁.symm.trans hfind
  obtain rfl := Tree.locate_eq_ok hlocate'
  have hfile := Tree.ne_directory_of_file (Tree.find_eq_ok.1 hfind).2
  have herase := Tree.entryAt?_erase_file hfile
  have hfile' : (full.erase l).entryAt? (full.spelledOut f.path) ≠ some .directory := by
    rw [herase, if_neg hne.symm]
    exact hentry'
  have herased : Grows full (full.erase l) [l] way := .erase_file hfile way
  have hput : Grows (full.erase l) _ [full.spelledOut f.path] way := .put_file hfile' mode bytes way
  refine ⟨Tree.find_put_file (herased.locate hlocate') hfile' mode bytes, ?_, ?_⟩
  · rw [Tree.entryAt?_put_file hfile', if_neg hne, herase, if_pos rfl]
  · exact (herased.widen (List.cons_subset_cons _ (List.nil_subset _))).trans (hput.widen (List.subset_cons_self ..))

/-- Once the temporary file is moved its bytes stay at the metrics file, whether that can be given its mode or not. -/
theorem install_of_moved {l : Location} {mode : Nat} {bytes : Bytes}
    (hobstacle : ¬ (c.obstacle = some .closing ∨ c.obstacle = some .replacing))
    (hfind : full.find temporary = .ok (l, .file mode bytes)) (hne : l ≠ full.spelledOut f.path)
    (hmove : full.moveFile temporary f.path = .ok placed) (way : Location → Prop) :
    (∃ mode, (f.install c full temporary).1.find f.path = .ok (full.spelledOut f.path, .file mode bytes)) ∧
      (f.install c full temporary).1.entryAt? l = none ∧
      Grows full (f.install c full temporary).1 [l, full.spelledOut f.path] way := by
  obtain ⟨hplaced, hgone, hgrows⟩ := moveFile_grows hfind hne hmove way
  unfold install
  rw [if_neg hobstacle, hmove]
  simp only
  split
  · exact ⟨⟨mode, hplaced⟩, hgone, hgrows⟩
  · cases hmode : placed.setMode f.path MetricsFile.mode with
    | error e => exact ⟨⟨mode, hplaced⟩, hgone, hgrows⟩
    | ok finished =>
      rcases Tree.setMode_eq_ok hmode with rfl | ⟨l₁, mode₁, bytes₁, hfind₁, rfl⟩
      · exact ⟨⟨mode, hplaced⟩, hgone, hgrows⟩
      · cases hfind₁.symm.trans hplaced
        obtain ⟨hlocate, hentry⟩ := Tree.find_eq_ok.1 hplaced
        have hfile := Tree.ne_directory_of_file hentry
        refine ⟨⟨MetricsFile.mode, Tree.find_put_file hlocate hfile MetricsFile.mode bytes⟩, ?_, ?_⟩
        · rw [Tree.entryAt?_put_file hfile, if_neg hne, hgone]
        · exact hgrows.trans ((Grows.put_file hfile MetricsFile.mode bytes way).widen (List.subset_cons_self ..))

/-- **Unless the temporary file takes the place of the metrics file, an attempt changes no file but the temporary one**,
and it is no success. -/
theorem attempt_of_not_replaced (h : f.replaced? c t temporary ss = none) :
    Grows t (f.attempt c t temporary ss).1 [t.spelledOut temporary] (t.OnTheWay f.path.parent) ∧
      (f.attempt c t temporary ss).2.1 ≠ .done := by
  rcases attempt_cases f c t temporary ss with ⟨full, log, hwritten, hattempt⟩ | ⟨-, hgrows, hdone⟩
  · have hmoved : c.obstacle = some .replacing ∨ (full.moveFile temporary f.path).toOption = none := by
      rw [replaced?, hwritten] at h
      simp only at h
      split at h
      · exact .inl ‹_›
      · exact .inr h
    obtain ⟨htree, hdone⟩ := install_of_not_moved hmoved
    obtain ⟨-, -, -, -, -, hgrows⟩ := full_of_written hwritten
    rw [hattempt]
    refine ⟨?_, hdone⟩
    rw [htree]
    exact hgrows
  · exact ⟨hgrows, hdone⟩

theorem replaced?_eq_some (h : f.replaced? c t temporary ss = some placed) :
    ∃ full, f.written? c t temporary ss = some full ∧ c.obstacle ≠ some .replacing ∧
      full.moveFile temporary f.path = .ok placed := by
  unfold replaced? at h
  split at h
  · cases h
  · rename_i full hwritten
    split at h
    · cases h
    · rename_i hobstacle
      cases hmove : full.moveFile temporary f.path with
      | error e =>
        rw [hmove] at h
        cases h
      | ok placed' =>
        rw [hmove] at h
        cases h
        exact ⟨full, hwritten, hobstacle, hmove⟩

theorem ne_closing_of_written (h : f.written? c t temporary ss = some full) : c.obstacle ≠ some .closing := by
  intro hclosing
  unfold written? at h
  split at h
  · cases h
  · rw [filled?, if_pos (.inr hclosing)] at h
    cases h

/-- **Once the temporary file has taken the place of the metrics file, the document stands there**, however the attempt
ends, and no temporary file is left. -/
theorem attempt_of_replaced (hname : f.temporary? = some temporary)
    (h : f.replaced? c t temporary ss = some placed) :
    ∃ bytes mode, Document.encode f.withCreated ss = .ok bytes ∧
      (f.attempt c t temporary ss).1.find f.path = .ok (t.spelledOut f.path, .file mode bytes) ∧
      (f.attempt c t temporary ss).1.entryAt? (t.spelledOut temporary) = none ∧
      Grows t (f.attempt c t temporary ss).1 [t.spelledOut temporary, t.spelledOut f.path]
        (t.OnTheWay f.path.parent) := by
  obtain ⟨full, hwritten, hobstacle, hmove⟩ := replaced?_eq_some h
  obtain ⟨bytes, mode, hencode, -, hfind, hgrows⟩ := full_of_written hwritten
  have hspelled := hgrows.spelledOut f.path
  obtain ⟨⟨mode', hplaced⟩, hgone, hgrows'⟩ := install_of_moved
    (fun ho => ho.elim (ne_closing_of_written hwritten) hobstacle) hfind
    (hspelled ▸ spelledOut_temporary_ne hname t) hmove (t.OnTheWay f.path.parent)
  rw [hspelled] at hplaced hgrows'
  rcases attempt_cases f c t temporary ss with ⟨full', log, hwritten', hattempt⟩ | ⟨hnone, -, -⟩
  · obtain rfl : full = full' := Option.some.inj (hwritten.symm.trans hwritten')
    rw [hattempt]
    exact ⟨bytes, mode', hencode, hplaced, hgone,
      (hgrows.widen (List.cons_subset_cons _ (List.nil_subset _))).trans hgrows'⟩
  · rw [hwritten] at hnone
    cases hnone

/-! ## A call -/

theorem cleanUp_grows {t' : Tree} (h : cleanUp t temporary = .ok t') (way : Location → Prop) :
    Grows t t' [t.spelledOut temporary] way := by
  unfold cleanUp at h
  split at h
  · cases h
  · cases h
    exact .refl ..
  · obtain ⟨l, mode, b, hfind, rfl⟩ := Tree.removeFile_eq_ok h
    obtain ⟨hlocate, hentry⟩ := Tree.find_eq_ok.1 hfind
    rw [← Tree.locate_eq_ok hlocate]
    exact .erase_file (Tree.ne_directory_of_file hentry) way

/-- A call ends in the tree of its attempt, less the temporary file; only a finished attempt is a success. -/
theorem writeAgainst_grows (hname : f.temporary? = some temporary) :
    Grows (f.attempt c t temporary ss).1 (f.writeAgainst c t ss).tree
        [(f.attempt c t temporary ss).1.spelledOut temporary] (t.OnTheWay f.path.parent) ∧
      ((f.writeAgainst c t ss).outcome = .ok true → (f.attempt c t temporary ss).2.1 = .done) := by
  unfold writeAgainst
  rw [hname]
  simp only
  split
  · exact ⟨.refl .., fun h => by cases h⟩
  · rename_i t' hclean
    refine ⟨cleanUp_grows hclean _, fun h => ?_⟩
    cases hattempt : (f.attempt c t temporary ss).2.1 with
    | done => rfl
    | _ =>
      rw [hattempt] at h
      cases h

/-- A call in which the metrics file is not replaced changes no file but the temporary one, and is no success. -/
theorem writeAgainst_of_not_replaced (hname : f.temporary? = some temporary)
    (h : f.replaced? c t temporary ss = none) :
    Grows t (f.writeAgainst c t ss).tree [t.spelledOut temporary] (t.OnTheWay f.path.parent) ∧
      (f.writeAgainst c t ss).outcome ≠ .ok true := by
  obtain ⟨hgrows, hdone⟩ := attempt_of_not_replaced h
  obtain ⟨hclean, htrue⟩ := writeAgainst_grows hname
  rw [hgrows.spelledOut] at hclean
  exact ⟨hgrows.trans hclean, fun ho => hdone (htrue ho)⟩

/-- After a call in which the metrics file is replaced, it holds the document. -/
theorem writeAgainst_of_replaced (hname : f.temporary? = some temporary)
    (h : f.replaced? c t temporary ss = some placed) :
    ∃ bytes mode, Document.encode f.withCreated ss = .ok bytes ∧
      (f.writeAgainst c t ss).tree.find f.path = .ok (t.spelledOut f.path, .file mode bytes) := by
  obtain ⟨bytes, mode, hencode, hplaced, -, hgrows⟩ := attempt_of_replaced hname h
  obtain ⟨hclean, -⟩ := writeAgainst_grows hname
  obtain ⟨hlocate, hentry⟩ := Tree.find_eq_ok.1 hplaced
  rw [hgrows.spelledOut] at hclean
  have hkept := hclean.entry_of_some (fun hm => spelledOut_temporary_ne hname t (List.mem_singleton.1 hm).symm) hentry
  exact ⟨bytes, mode, hencode, Tree.find_eq_ok.2 ⟨hclean.locate hlocate, hkept⟩⟩

/-- **A metrics file is replaced as a whole or not at all.**  Whatever fails during a call, what stands at the metrics
file is what stood there before, but for a directory made on the way to its parent if its path has double dots, unless
the temporary file has taken its place.  That happens to a temporary file with all of the document, up to the line that
ends it, which is then what the metrics file holds; and no other call is a success. -/
theorem writeAgainst_allOrNothing (f : MetricsFile) (c : Circumstances) (t : Tree) (ss : List Snapshot)
    {temporary : Path} (hname : f.temporary? = some temporary) :
    (f.replaced? c t temporary ss = none →
      (f.writeAgainst c t ss).tree.entryAt? (t.spelledOut f.path) = t.entryAt? (t.spelledOut f.path) ∨
      (Path.above ∈ f.path.components ∧ t.entryAt? (t.spelledOut f.path) = none ∧
        (f.writeAgainst c t ss).tree.entryAt? (t.spelledOut f.path) = some .directory)) ∧
    (∀ placed, f.replaced? c t temporary ss = some placed →
      ∃ full bytes mode mode', f.written? c t temporary ss = some full ∧
        Document.encode f.withCreated ss = .ok bytes ∧ Utf8.encode Document.endLine <:+ bytes ∧
        full.find temporary = .ok (t.spelledOut temporary, .file mode bytes) ∧
        full.moveFile temporary f.path = .ok placed ∧
        (f.writeAgainst c t ss).tree.find f.path = .ok (t.spelledOut f.path, .file mode' bytes)) ∧
    ((f.writeAgainst c t ss).outcome = .ok true → (f.replaced? c t temporary ss).isSome) := by
  refine ⟨fun hreplaced => ?_, fun placed hreplaced => ?_, fun htrue => ?_⟩
  · obtain ⟨hgrows, -⟩ := writeAgainst_of_not_replaced hname hreplaced
    rcases hgrows.entry _ (fun hm => spelledOut_temporary_ne hname t (List.mem_singleton.1 hm).symm) with
      hsame | ⟨hnone, hdirectory, hway⟩
    · exact .inl hsame
    · exact .inr ⟨above_mem_of_onTheWay hname hway, hnone, hdirectory⟩
  · obtain ⟨full, hwritten, -, hmove⟩ := replaced?_eq_some hreplaced
    obtain ⟨bytes, mode, hencode, hend, hfull, -⟩ := full_of_written hwritten
    obtain ⟨bytes', mode', hencode', hplaced⟩ := writeAgainst_of_replaced hname hreplaced
    obtain rfl : bytes' = bytes := Except.ok.inj (hencode'.symm.trans hencode)
    exact ⟨full, bytes', mode, mode', hwritten, hencode, hend, hfull, hmove, hplaced⟩
  · cases hreplaced : f.replaced? c t temporary ss with
    | some placed => rfl
    | none => exact absurd htrue (writeAgainst_of_not_replaced hname hreplaced).2

/-- A file that cannot be given its mode was replaced nevertheless. -/
theorem writeAgainst_allOrNothing_permission :
    let f : MetricsFile := ⟨.relative ["m.prom"], false⟩
    let t : Tree := ⟨Mapping.empty.put ["m.prom"] (.file 0o600 [1]), []⟩
    f.temporary? = some (.relative ["m.prom.tmp"]) ∧
      ∃ bytes mode, Document.encode false [] = .ok bytes ∧
        (f.writeAgainst (.obstructed .permission) t []).tree.find f.path = .ok (["m.prom"], .file mode bytes) := by
  intro f t
  have hname : f.temporary? = some (.relative ["m.prom.tmp"]) := by decide
  have hreplaced : (f.replaced? (.obstructed .permission) t (.relative ["m.prom.tmp"]) []).isSome := by decide +kernel
  obtain ⟨placed, hplaced⟩ := Option.isSome_iff_exists.1 hreplaced
  obtain ⟨-, bytes, -, mode, -, hencode, -, -, -, hfind⟩ :=
    (writeAgainst_allOrNothing f (.obstructed .permission) t [] hname).2.1 placed hplaced
  exact ⟨hname, bytes, mode, hencode, hfind⟩

/-- The directory that double dots go back from may be made where the metrics file should go. -/
theorem write_makesDirectory :
    let f : MetricsFile := ⟨.relative ["a", "..", "a"], false⟩
    let t : Tree := ⟨Mapping.empty, []⟩
    t.entryAt? (t.spelledOut f.path) = none ∧ (f.write t []).tree.entryAt? (t.spelledOut f.path) = some .directory ∧
    ¬ ((f.write t []).tree.entryAt? (t.spelledOut f.path) = t.entryAt? (t.spelledOut f.path) ∨
      ∃ mode bytes, Document.encode f.withCreated [] = .ok bytes ∧
        (f.write t []).tree.entryAt? (t.spelledOut f.path) = some (.file mode bytes)) := by
  intro f t
  have hbefore : t.entryAt? (t.spelledOut f.path) = none := by decide
  have hafter : (f.write t []).tree.entryAt? (t.spelledOut f.path) = some .directory := by decide +kernel
  refine ⟨hbefore, hafter, ?_⟩
  rw [hbefore, hafter]
  rintro (h | ⟨mode, bytes, -, h⟩) <;> cases h

end Steps
end MetricsFile
end Exposition
