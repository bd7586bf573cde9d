import Exposition.Proofs.MetricsFile.Replacing
/-!
# Clearing — what a call leaves beside the metrics file

A call reaches the temporary file only once the directory of the metrics file is there (`prepared`) and if the path of the
temporary file leads to a place for a file.  It still does at the end of the attempt (`attempt_reaches`), so the file can
be removed again, whatever failed in between; and an attempt that does not come so far has made directories on the way
and done nothing else.  So nothing is left at the temporary file, unless there is a directory in its place.
-/
namespace Exposition

/-- The path leads to this location, and no directory stands there. -/
structure Tree.TakesFile (t : Tree) (p : Path) (l : Location) : Prop where
  locate : t.locate p = .ok l
  free : t.entryAt? l ≠ some .directory

theorem Tree.takesFile_of_find {t : Tree} {p : Path} {l : Location} {mode : Nat} {b : Bytes}
    (h : t.find p = .ok (l, .file mode b)) : t.TakesFile p l :=
  ⟨(find_eq_ok.1 h).1, ne_directory_of_file (find_eq_ok.1 h).2⟩

namespace MetricsFile

open Exposition.Tree (Grows)

/-- The tree in which the temporary file is opened, if it comes to that: the directory of the metrics file is made, unless
the system fails at this, and then only some of those that lead to it may be. -/
def prepared (f : MetricsFile) (c : Circumstances) (t : Tree) : Tree :=
  (f.makeParent c t).1

section Steps

variable {f : MetricsFile} {c : Circumstances} {t t' full : Tree} {temporary : Path} {l : Location}
  {ss : List Snapshot}

theorem prepared_grows (f : MetricsFile) (c : Circumstances) (t : Tree) :
    Grows t (f.prepared c t) [] (t.OnTheWay f.path.parent) :=
  (f.makeParent_grows c t).1

/-- Whether the temporary file is moved away or not, there is a place for it. -/
theorem install_takesFile {mode : Nat} {bytes : Bytes} (hfind : full.find temporary = .ok (l, .file mode bytes))
    (hne : l ≠ full.spelledOut f.path) (c : Circumstances) :
    (f.install c full temporary).1.TakesFile temporary l := by
  by_cases hobstacle : c.obstacle = some .closing ∨ c.obstacle = some .replacing
  · rw [install, if_pos hobstacle]
    exact Tree.takesFile_of_find hfind
  · cases hmove : full.moveFile temporary f.path with
    | error e =>
      rw [install, if_neg hobstacle, hmove]
      exact Tree.takesFile_of_find hfind
    | ok placed =>
      obtain ⟨-, hgone, hgrows⟩ := install_of_moved hobstacle hfind hne hmove fun _ => True
      refine ⟨hgrows.locate (Tree.find_eq_ok.1 hfind).1, ?_⟩
      rw [hgone]
      exact fun h => by cases h

/-- The temporary file is not reached, or there is a place for it before and after. -/
theorem fill_reaches {made : Tree} (hne : made.spelledOut temporary ≠ made.spelledOut f.path)
    (c : Circumstances) (ss : List Snapshot) :
    ((f.fill c made temporary ss).1 = made ∧ (f.fill c made temporary ss).2.1 ≠ .done) ∨
      (made.TakesFile temporary (made.spelledOut temporary) ∧
        (f.fill c made temporary ss).1.TakesFile temporary (made.spelledOut temporary)) := by
  unfold fill
  split
  · exact .inl ⟨rfl, fun h => by cases h⟩
  cases htruncate : made.truncate temporary with
  | error e => exact .inl ⟨rfl, ending_ne_done c e⟩
  | ok o =>
    obtain ⟨opened, l⟩ := o
    obtain ⟨hlocate, hfree, -⟩ := Tree.truncate_eq_ok htruncate
    obtain ⟨rfl, ⟨mode, hfind⟩, hgrows⟩ := setBytes_of_truncate (.refl made [] fun _ => True) htruncate
      (Document.write f.withCreated c.elapsed c.sink ss).sink.bytes
    have hne' : made.spelledOut temporary ≠
        (opened.setBytes (made.spelledOut temporary)
          (Document.write f.withCreated c.elapsed c.sink ss).sink.bytes).spelledOut f.path := by
      rw [hgrows.spelledOut]
      exact hne
    refine .inr ⟨⟨hlocate, hfree⟩, ?_⟩
    simp only
    cases (Document.write f.withCreated c.elapsed c.sink ss).fault with
    | none => exact install_takesFile hfind hne' c
    | some fault => cases fault <;> exact Tree.takesFile_of_find hfind

/-- **An attempt does nothing but make directories, or there is a place for the temporary file** when it is opened and
when the attempt is over. -/
theorem attempt_reaches (hname : f.temporary? = some temporary) (c : Circumstances) (t : Tree)
    (ss : List Snapshot) :
    ((f.attempt c t temporary ss).1 = f.prepared c t ∧ (f.attempt c t temporary ss).2.1 ≠ .done) ∨
      ((f.prepared c t).TakesFile temporary (t.spelledOut temporary) ∧
        (f.attempt c t temporary ss).1.TakesFile temporary (t.spelledOut temporary)) := by
  obtain ⟨hgrows, hdone⟩ := f.makeParent_grows c t
  unfold attempt prepared
  rcases hdir : f.makeParent c t with ⟨made, _ | failure⟩
  · rw [hdir] at hgrows
    have hne : made.spelledOut temporary ≠ made.spelledOut f.path := by
      rw [hgrows.spelledOut, hgrows.spelledOut]
      exact spelledOut_temporary_ne hname t
    have hreach := fill_reaches hne c ss
    rw [hgrows.spelledOut] at hreach
    exact hreach
  · rw [hdir] at hdone
    exact .inl ⟨rfl, fun h => hdone (congrArg some h)⟩

/-! ## Removing the temporary file -/

/-- Where there is a place for a file, one that stands there can be removed. -/
theorem cleanUp_of_takesFile (h : t.TakesFile temporary l) :
    ∃ t', cleanUp t temporary = .ok t' ∧ t'.entryAt? l = none := by
  unfold cleanUp
  rw [Tree.contains_of_locate h.locate]
  cases he : t.entryAt? l with
  | none => exact ⟨t, rfl, he⟩
  | some e =>
    cases e with
    | directory => exact absurd he h.free
    | file mode b =>
      simp only [Option.isSome_some, Tree.removeFile, Tree.find_eq_ok.2 ⟨h.locate, he⟩]
      exact ⟨_, rfl, by rw [Tree.entryAt?_erase_file h.free, if_pos rfl]⟩

theorem cleanUp_eq_ok (h : cleanUp t temporary = .ok t') :
    (t' = t ∧ ∀ l e, t.find temporary ≠ .ok (l, e)) ∨ t'.entryAt? (t.spelledOut temporary) = none := by
  unfold cleanUp at h
  split at h
  · cases h
  · rename_i hcontains
    cases h
    refine .inl ⟨rfl, fun l e hfind => ?_⟩
    rw [Tree.contains, hfind] at hcontains
    cases hcontains
  · obtain ⟨l, mode, b, hfind, rfl⟩ := Tree.removeFile_eq_ok h
    have hfile := Tree.takesFile_of_find hfind
    rw [← Tree.locate_eq_ok hfile.locate, Tree.entryAt?_erase_file hfile.free, if_pos rfl]
    exact .inr rfl

/-- **A call leaves nothing at the location of the temporary file, or it does nothing but make directories** and then finds
nothing where the path of the temporary file leads, or a directory. -/
theorem writeAgainst_clears (hname : f.temporary? = some temporary) :
    (f.writeAgainst c t ss).tree.entryAt? (t.spelledOut temporary) = none ∨
      ((f.writeAgainst c t ss).tree = f.prepared c t ∧
        ∀ l e, (f.prepared c t).find temporary = .ok (l, e) → e = .directory) := by
  unfold writeAgainst
  rw [hname]
  simp only
  rcases attempt_reaches hname c t ss with ⟨htree, -⟩ | ⟨-, hplace⟩
  · rw [htree]
    cases hclean : cleanUp (f.prepared c t) temporary with
    | error e =>
      refine .inr ⟨rfl, fun l e' hfind => ?_⟩
      cases e' with
      | directory => rfl
      | file mode b =>
        obtain ⟨t', hok, -⟩ := cleanUp_of_takesFile (Tree.takesFile_of_find hfind)
        rw [hclean] at hok
        cases hok
    | ok t' =>
      rcases cleanUp_eq_ok hclean with ⟨rfl, hnone⟩ | hnone
      · exact .inr ⟨rfl, fun l e hfind => absurd hfind (hnone l e)⟩
      · rw [(prepared_grows f c t).spelledOut] at hnone
        exact .inl hnone
  · obtain ⟨t', hclean, hnone⟩ := cleanUp_of_takesFile hplace
    rw [hclean]
    exact .inl hnone

/-- A call changes no files but the temporary one and the metrics file. -/
theorem writeAgainst_keeps (hname : f.temporary? = some temporary) :
    Grows t (f.writeAgainst c t ss).tree [t.spelledOut temporary, t.spelledOut f.path]
      (t.OnTheWay f.path.parent) := by
  cases hreplaced : f.replaced? c t temporary ss with
  | none =>
    exact (writeAgainst_of_not_replaced hname hreplaced).1.widen (List.cons_subset_cons _ (List.nil_subset _))
  | some placed =>
    obtain ⟨-, -, -, -, -, hgrows⟩ := attempt_of_replaced hname hreplaced
    have hclean := hgrows.spelledOut temporary ▸ (writeAgainst_grows hname).1
    exact hgrows.trans (hclean.widen (List.cons_subset_cons _ (List.nil_subset _)))

/-- What a call finds new is a directory on the way to the metrics file, or the metrics file. -/
theorem writeAgainst_makes (hname : f.temporary? = some temporary) {e : Entry} (hpath : l ≠ t.spelledOut f.path)
    (hnone : t.entryAt? l = none) (he : (f.writeAgainst c t ss).tree.entryAt? l = some e) :
    e = .directory ∧ t.OnTheWay f.path.parent l := by
  have hnew : ∀ {t' : Tree} {files : List Location}, Grows t t' files (t.OnTheWay f.path.parent) → l ∉ files →
      t'.entryAt? l = some e → e = .directory ∧ t.OnTheWay f.path.parent l := by
    intro t' files hgrows hl he
    rcases hgrows.entry l hl with hsame | ⟨-, hdirectory, hway⟩
    · rw [hsame, hnone] at he
      cases he
    · exact ⟨Option.some.inj (he.symm.trans hdirectory), hway⟩
  by_cases htemporary : l = t.spelledOut temporary
  · rcases writeAgainst_clears hname with hgone | ⟨htree, -⟩
    · rw [htemporary, hgone] at he
      cases he
    · rw [htree] at he
      exact hnew (prepared_grows f c t) List.not_mem_nil he
  · exact hnew (writeAgainst_keeps hname) (by simp [htemporary, hpath]) he

/-- What is found at the temporary file after a call is a directory; it stood there before, or double dots lead to it. -/
theorem writeAgainst_find (hname : f.temporary? = some temporary) {e : Entry}
    (hfind : (f.writeAgainst c t ss).tree.find temporary = .ok (l, e)) :
    l = t.spelledOut temporary ∧ e = .directory ∧ (t.entryAt? l = some .directory ∨
      (t.entryAt? l = none ∧ Path.above ∈ f.path.components)) := by
  obtain ⟨hlocate, hentry⟩ := Tree.find_eq_ok.1 hfind
  obtain rfl : l = t.spelledOut temporary :=
    (Tree.locate_eq_ok hlocate).trans ((writeAgainst_keeps hname).spelledOut temporary)
  rcases writeAgainst_clears hname with hgone | ⟨htree, hdirectory⟩
  · rw [hgone] at hentry
    cases hentry
  · rw [htree] at hfind hentry
    obtain rfl := hdirectory _ _ hfind
    refine ⟨rfl, rfl, ?_⟩
    -- what was made when the directory of the metrics file was made is on the way to it
    rcases (prepared_grows f c t).entry _ List.not_mem_nil with hsame | ⟨hnone, -, hway⟩
    · exact .inl (hsame.symm.trans hentry)
    · exact .inr ⟨hnone, above_mem_of_onTheWay_temporary hname hway⟩

end Steps

/-- **A call clears up after itself and touches nothing else**, whatever fails before that.  If no directory stands at the
location of the temporary file, nothing is found there afterwards; but double dots may lead to a directory just there that
is made on the way to the metrics file.  What stands anywhere else stays as it is, except at the metrics file, and all that
is new anywhere but at the metrics file are directories on the way to it.  Without a name for the temporary file nothing is
done. -/
theorem writeAgainst_clearsUp (f : MetricsFile) (c : Circumstances) (t : Tree) (ss : List Snapshot) :
    let after := (f.writeAgainst c t ss).tree
    (f.temporary? = none → after = t) ∧
    ∀ temporary, f.temporary? = some temporary →
      (t.entryAt? (t.spelledOut temporary) ≠ some .directory →
        (∀ l e, after.find temporary ≠ .ok (l, e)) ∨
        (Path.above ∈ f.path.components ∧ t.entryAt? (t.spelledOut temporary) = none ∧
          after.find temporary = .ok (t.spelledOut temporary, .directory))) ∧
      (∀ l e, l ≠ t.spelledOut f.path → l ≠ t.spelledOut temporary → t.entryAt? l = some e →
        after.entryAt? l = some e) ∧
      ∀ l e, l ≠ t.spelledOut f.path → t.entryAt? l = none → after.entryAt? l = some e →
        e = .directory ∧ t.OnTheWay f.path.parent l := by
  intro after
  refine ⟨fun hname => by simp only [after, writeAgainst, hname], fun temporary hname => ⟨fun hfree => ?_,
    fun l e hpath htemporary he => ?_, fun l e hpath hnone he => writeAgainst_makes hname hpath hnone he⟩⟩
  · by_cases hfound : ∃ l e, after.find temporary = .ok (l, e)
    · obtain ⟨l, e, hfind⟩ := hfound
      obtain ⟨rfl, rfl, hstood | ⟨hnone, habove⟩⟩ := writeAgainst_find hname hfind
      · exact absurd hstood hfree
      · exact .inr ⟨habove, hnone, hfind⟩
    · exact .inl fun l e hfind => hfound ⟨l, e, hfind⟩
  · exact (writeAgainst_keeps hname).entry_of_some (by simp [htemporary, hpath]) he

/-- A temporary file of an earlier run is removed even if the new one cannot be put in place. -/
theorem writeAgainst_clearsUp_replacing :
    let f : MetricsFile := ⟨.relative ["run", "m.prom"], false⟩
    let t : Tree := (Tree.put ⟨Mapping.empty, []⟩ ["run"] .directory).put ["run", "m.prom.tmp"] (.file 0o600 [1])
    f.temporary? = some (.relative ["run", "m.prom.tmp"]) ∧
      (∀ l e, (f.writeAgainst (.obstructed .replacing) t []).tree.find (.relative ["run", "m.prom.tmp"]) ≠ .ok (l, e)) ∧
      (f.writeAgainst (.obstructed .replacing) t []).tree.entryAt? ["run"] = some .directory := by
  intro f t
  have hname : f.temporary? = some (.relative ["run", "m.prom.tmp"]) := by decide
  obtain ⟨hclears, hkeeps, -⟩ := (writeAgainst_clearsUp f (.obstructed .replacing) t []).2 _ hname
  refine ⟨hname, ?_, hkeeps ["run"] .directory (by decide) (by decide) (by decide)⟩
  rcases hclears (by decide) with hnothing | ⟨habove, -⟩
  · exact hnothing
  · exact absurd habove (by decide)

/-- The directory that double dots go back from may be made where the temporary file should go, and it stays. -/
theorem write_leavesDirectory :
    let f : MetricsFile := ⟨.relative ["x.tmp", "..", "x"], false⟩
    let t : Tree := ⟨Mapping.empty, []⟩
    f.temporary? = some (.relative ["x.tmp", "..", "x.tmp"]) ∧ t.entryAt? (t.spelledOut (.relative ["x.tmp", "..", "x.tmp"])) = none ∧
      ¬ ∀ l e, (f.write t []).tree.find (.relative ["x.tmp", "..", "x.tmp"]) ≠ .ok (l, e) := by
  intro f t
  have hdirectory : (f.write t []).tree.isDirectory (.relative ["x.tmp", "..", "x.tmp"]) = true := by decide +kernel
  obtain ⟨l, hfind⟩ := Tree.isDirectory_iff.1 hdirectory
  exact ⟨by decide, by decide, fun hnothing => hnothing l .directory (Tree.find_eq_ok.2 hfind)⟩

end MetricsFile
end Exposition
