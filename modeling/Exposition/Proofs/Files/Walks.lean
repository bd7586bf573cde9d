import Exposition.Files.Tree
/-!
# Walks — where a path leads

There are no links, so a path that leads anywhere leads to the location that its components spell out (`locate_eq_ok`).
Whether it does depends on the directories on the way alone: a tree that has these directories too has the path lead to
the same location (`Grows.locate`).  Each operation on files changes what stands at the ends of its paths and nothing
else; a tree that comes from another one by such steps has *grown* from it (`Grows`).
-/
namespace Exposition
namespace Tree

/-- One component further: a name leads down, and double dots lead up. -/
def turn (l : Location) (c : Text) : Location := if c = Path.above then l.dropLast else l ++ [c]

theorem spelledOut_eq (t : Tree) (p : Path) : t.spelledOut p = p.components.foldl turn (t.startOf p.anchor) := rfl

theorem startOf_congr {t t' : Tree} (h : t'.here = t.here) : t'.startOf = t.startOf := by
  funext a
  cases a with
  | here => exact h
  | root => rfl
  | twoSlashes => rfl

theorem spelledOut_congr {t t' : Tree} (h : t'.here = t.here) (p : Path) : t'.spelledOut p = t.spelledOut p := by
  rw [spelledOut_eq, spelledOut_eq, startOf_congr h]

theorem absolute_congr {t t' : Tree} (h : t'.here = t.here) (p : Path) : t'.absolute p = t.absolute p := by
  rw [absolute, absolute, spelledOut_congr h]

theorem foldl_turn_of_notMem : ∀ {cs : List Text} (l : Location), Path.above ∉ cs → cs.foldl turn l = l ++ cs
  | [], l, _ => (List.append_nil l).symm
  | c :: cs, l, h => by
    rw [List.mem_cons, not_or] at h
    rw [List.foldl_cons, foldl_turn_of_notMem _ h.2, turn, if_neg (Ne.symm h.1), List.append_assoc, List.singleton_append]

theorem step_eq_ok {t : Tree} {l l' : Location} {c : Text} (h : t.step l c = .ok l') :
    t.entryAt? l = some .directory ∧ l' = turn l c := by
  unfold step at h
  split at h
  · cases h
  · cases h
  · rename_i hd
    unfold turn
    split at h
    · rename_i hc
      cases h
      exact ⟨hd, (if_pos hc).symm⟩
    · rename_i hc
      split at h
      · cases h
      · cases h
        exact ⟨hd, (if_neg hc).symm⟩

theorem walk_eq_ok {t : Tree} : ∀ {cs : List Text} {l l' : Location}, t.walk l cs = .ok l' → l' = cs.foldl turn l
  | [], l, l', h => by
    cases h
    rfl
  | c :: cs, l, l', h => by
    unfold walk at h
    cases hs : t.step l c with
    | error e => rw [hs] at h; cases h
    | ok l₁ =>
      rw [hs] at h
      rw [List.foldl_cons, ← (step_eq_ok hs).2]
      exact walk_eq_ok h

theorem walk_append (t : Tree) : ∀ (cs ds : List Text) (l : Location),
    t.walk l (cs ++ ds) = (t.walk l cs).bind fun l' => t.walk l' ds
  | [], _, _ => rfl
  | c :: cs, ds, l => by
    rw [List.cons_append, walk, walk]
    cases t.step l c with
    | error e => rfl
    | ok l' => exact walk_append t cs ds l'

theorem walk_of_locate {t : Tree} {p : Path} {l : Location} (h : t.locate p = .ok l) :
    t.walk (t.startOf p.anchor) p.components = .ok l := by
  unfold locate at h
  split at h
  · cases h
  · split at h
    · cases h
    · exact h

/-- **A path leads to the location that it spells out**, if it leads anywhere. -/
theorem locate_eq_ok {t : Tree} {p : Path} {l : Location} (h : t.locate p = .ok l) : l = t.spelledOut p :=
  walk_eq_ok (walk_of_locate h)

theorem find_eq_ok {t : Tree} {p : Path} {l : Location} {e : Entry} :
    t.find p = .ok (l, e) ↔ t.locate p = .ok l ∧ t.entryAt? l = some e := by
  unfold find
  cases t.locate p with
  | error f => simp
  | ok l' =>
    simp only [Except.ok.injEq]
    cases he : t.entryAt? l' with
    | none =>
      constructor
      · intro h
        cases h
      · rintro ⟨rfl, h⟩
        rw [he] at h
        cases h
    | some e' =>
      constructor
      · intro h
        cases h
        exact ⟨rfl, he⟩
      · rintro ⟨rfl, h⟩
        rw [he] at h
        cases h
        rfl

theorem ne_nil_of_entryAt? {t : Tree} {l : Location} (h : t.entryAt? l ≠ some .directory) : l ≠ [] := by
  rintro rfl
  exact h (if_pos rfl)

theorem ne_directory_of_file {t : Tree} {l : Location} {mode : Nat} {b : Bytes}
    (h : t.entryAt? l = some (.file mode b)) : t.entryAt? l ≠ some .directory := by
  rw [h]
  exact fun hd => by cases hd

theorem entryAt?_put_file {t : Tree} {l : Location} (hl : t.entryAt? l ≠ some .directory) (e : Entry) (l' : Location) :
    (t.put l e).entryAt? l' = if l' = l then some e else t.entryAt? l' :=
  entryAt?_put t (ne_nil_of_entryAt? hl) e l'

theorem entryAt?_erase_file {t : Tree} {l : Location} (hl : t.entryAt? l ≠ some .directory) (l' : Location) :
    (t.erase l).entryAt? l' = if l' = l then none else t.entryAt? l' :=
  entryAt?_erase t (ne_nil_of_entryAt? hl) l'

/-- A walk needs no more than the directories that it passes. -/
theorem walk_of_directories {t t' : Tree}
    (hd : ∀ l, t.entryAt? l = some .directory → t'.entryAt? l = some .directory) :
    ∀ {cs : List Text} {l l' : Location}, t.walk l cs = .ok l' → t'.walk l cs = .ok l'
  | [], _, _, hw => hw
  | c :: cs, l, l', hw => by
    unfold walk at hw ⊢
    cases hs : t.step l c with
    | error e => rw [hs] at hw; cases hw
    | ok l₁ =>
      have hs' : t'.step l c = .ok l₁ := by
        have hl := (step_eq_ok hs).1
        rw [← hs, step, step, hl, hd l hl]
      rw [hs] at hw
      rw [hs']
      exact walk_of_directories hd hw

/-! ## Growth -/

/-- `t'` comes from `t` by changes at the locations of `files`, where no directory stood, and by new directories, which
stand at locations `made`. -/
structure Grows (t t' : Tree) (files : List Location) (made : Location → Prop) : Prop where
  here : t'.here = t.here
  directory : ∀ l, t.entryAt? l = some .directory → t'.entryAt? l = some .directory
  entry : ∀ l, l ∉ files →
    t'.entryAt? l = t.entryAt? l ∨ (t.entryAt? l = none ∧ t'.entryAt? l = some .directory ∧ made l)

namespace Grows

variable {t t' t'' : Tree} {files files' : List Location} {made made' : Location → Prop}

theorem refl (t : Tree) (files : List Location) (made : Location → Prop) : Grows t t files made :=
  ⟨rfl, fun _ h => h, fun _ _ => .inl rfl⟩

theorem mono (h : Grows t t' files made) (hf : files ⊆ files') (hm : ∀ l, made l → made' l) :
    Grows t t' files' made' where
  here := h.here
  directory := h.directory
  entry := fun l hl => (h.entry l (fun hmem => hl (hf hmem))).imp_right fun ⟨hnone, hdir, hmade⟩ =>
    ⟨hnone, hdir, hm l hmade⟩

theorem widen (h : Grows t t' files made) (hf : files ⊆ files') : Grows t t' files' made := h.mono hf fun _ hm => hm

theorem trans (h : Grows t t' files made) (h' : Grows t' t'' files made) : Grows t t'' files made where
  here := h'.here.trans h.here
  directory := fun l hl => h'.directory l (h.directory l hl)
  entry := by
    intro l hl
    rcases h.entry l hl with he | ⟨hnone, hdir, hmade⟩
    · rcases h'.entry l hl with he' | ⟨hnone', hdir', hmade'⟩
      · exact .inl (he'.trans he)
      · exact .inr ⟨he ▸ hnone', hdir', hmade'⟩
    · exact .inr ⟨hnone, h'.directory l hdir, hmade⟩

theorem put_file {l : Location} (hl : t.entryAt? l ≠ some .directory) (mode : Nat) (b : Bytes)
    (made : Location → Prop) : Grows t (t.put l (.file mode b)) [l] made where
  here := rfl
  directory := by
    intro l' hd
    have hne : l' ≠ l := by
      rintro rfl
      exact hl hd
    rw [entryAt?_put_file hl, if_neg hne]
    exact hd
  entry := by
    intro l' hl'
    rw [entryAt?_put_file hl, if_neg (fun h => hl' (List.mem_singleton.2 h))]
    exact .inl rfl

theorem erase_file {l : Location} (hl : t.entryAt? l ≠ some .directory) (made : Location → Prop) :
    Grows t (t.erase l) [l] made where
  here := rfl
  directory := by
    intro l' hd
    have hne : l' ≠ l := by
      rintro rfl
      exact hl hd
    rw [entryAt?_erase_file hl, if_neg hne]
    exact hd
  entry := by
    intro l' hl'
    rw [entryAt?_erase_file hl, if_neg (fun h => hl' (List.mem_singleton.2 h))]
    exact .inl rfl

theorem put_directory {l : Location} (hl : t.entryAt? l = none) (hmade : made l) :
    Grows t (t.put l .directory) [] made := by
  have hne : l ≠ [] := ne_nil_of_entryAt? (by rw [hl]; exact fun h => by cases h)
  refine ⟨rfl, fun l' hd => ?_, fun l' _ => ?_⟩
  · rw [entryAt?_put t hne]
    split
    · rfl
    · exact hd
  · rw [entryAt?_put t hne]
    split
    · rename_i h
      exact .inr ⟨h ▸ hl, rfl, h ▸ hmade⟩
    · exact .inl rfl

/-- What stands at a location that was not changed and not free before stands there still. -/
theorem entry_of_some (h : Grows t t' files made) {l : Location} (hl : l ∉ files) {e : Entry}
    (he : t.entryAt? l = some e) : t'.entryAt? l = some e := by
  rcases h.entry l hl with h' | ⟨hnone, -, -⟩
  · rw [h', he]
  · rw [hnone] at he
    cases he

theorem spelledOut (h : Grows t t' files made) (p : Path) : t'.spelledOut p = t.spelledOut p :=
  spelledOut_congr h.here p

/-- **Paths lead to the same locations in a tree that has grown.** -/
theorem locate (h : Grows t t' files made) {p : Path} {l : Location} (hl : t.locate p = .ok l) :
    t'.locate p = .ok l := by
  unfold Tree.locate at hl ⊢
  split at hl
  · cases hl
  · split at hl
    · cases hl
    · rename_i hshort
      rw [if_neg hshort, startOf_congr h.here]
      exact walk_of_directories h.directory hl

end Grows

/-- A path that leads to where a file is put finds the file. -/
theorem find_put_file {t : Tree} {p : Path} {l : Location} (hlocate : t.locate p = .ok l)
    (hl : t.entryAt? l ≠ some .directory) (mode : Nat) (b : Bytes) :
    (t.put l (.file mode b)).find p = .ok (l, .file mode b) := by
  have hput := Grows.put_file hl mode b fun _ => True
  refine find_eq_ok.2 ⟨hput.locate hlocate, ?_⟩
  rw [entryAt?_put_file hl, if_pos rfl]

/-! ## Operations on files -/

theorem truncate_eq_ok {t t' : Tree} {p : Path} {l : Location} (h : t.truncate p = .ok (t', l)) :
    t.locate p = .ok l ∧ t.entryAt? l ≠ some .directory ∧ ∃ mode, t' = t.put l (.file mode []) := by
  unfold truncate at h
  split at h
  · cases h
  rename_i hl
  split at h
  · cases h
  · rename_i mode b he
    cases h
    exact ⟨hl, (fun hd => by rw [he] at hd; cases hd), mode, rfl⟩
  · rename_i he
    cases h
    exact ⟨hl, (fun hd => by rw [he] at hd; cases hd), newFileMode, rfl⟩

theorem setBytes_eq_put {t : Tree} {l : Location} {mode : Nat} {b : Bytes} (h : t.entryAt? l = some (.file mode b))
    (b' : Bytes) : t.setBytes l b' = t.put l (.file mode b') := by
  rw [setBytes, h]

theorem locateSpelledOut_of_directories {t t' : Tree} (hhere : t'.here = t.here)
    (hd : ∀ l, t.entryAt? l = some .directory → t'.entryAt? l = some .directory) {p : Path} {l : Location}
    (hl : t.locateSpelledOut p = .ok l) : t'.locateSpelledOut p = .ok l := by
  unfold locateSpelledOut at hl ⊢
  split at hl
  · cases hl
  · rw [absolute_congr hhere, spelledOut_congr hhere]
    split at hl
    · cases hl
    · rename_i hshort
      rw [if_neg hshort]
      exact walk_of_directories hd hl

/-- A file that is opened at its end was there, or is new and empty. -/
theorem openAtEnd_cases {t t' : Tree} {p : Path} {l : Location} (h : t.openAtEnd p = .ok (t', l)) :
    t' = t ∨ (t.entryAt? l = none ∧ t' = t.put l (.file newFileMode [])) := by
  unfold openAtEnd at h
  split at h
  · cases h
  split at h
  · cases h
  · cases h
    exact .inl rfl
  · cases h
    exact .inr ⟨‹_›, rfl⟩

/-- **Opening a file at its end leaves what stands anywhere as it is** and finds a file, a new one if there was none. -/
theorem openAtEnd_eq_ok {t t' : Tree} {p : Path} {l : Location} (h : t.openAtEnd p = .ok (t', l)) :
    t'.here = t.here ∧ (∀ l' e, t.entryAt? l' = some e → t'.entryAt? l' = some e) ∧
      t'.locateSpelledOut p = .ok l ∧ ∃ mode b, t'.entryAt? l = some (.file mode b) := by
  unfold openAtEnd at h
  split at h
  · cases h
  rename_i hl
  split at h
  · cases h
  · rename_i mode b he
    cases h
    exact ⟨rfl, fun _ _ h => h, hl, mode, b, he⟩
  · rename_i he
    cases h
    have hfree : t.entryAt? l ≠ some .directory := fun hd => by rw [he] at hd; cases hd
    have hkeep : ∀ l' e, t.entryAt? l' = some e → (t.put l (.file newFileMode [])).entryAt? l' = some e := by
      intro l' e hl'
      have hne : l' ≠ l := by
        rintro rfl
        rw [he] at hl'
        cases hl'
      rw [entryAt?_put_file hfree, if_neg hne, hl']
    have hhere : (t.put l (.file newFileMode [])).here = t.here := rfl
    have hlocate := locateSpelledOut_of_directories hhere (fun l' => hkeep l' .directory) hl
    refine ⟨hhere, hkeep, hlocate, newFileMode, [], ?_⟩
    rw [entryAt?_put_file hfree, if_pos rfl]

theorem moveFile_eq_ok {t t' : Tree} {p q : Path} (h : t.moveFile p q = .ok t') :
    ∃ l l' mode b, t.find p = .ok (l, .file mode b) ∧ t.locate q = .ok l' ∧ t.entryAt? l' ≠ some .directory ∧
      t' = (t.erase l).put l' (.file mode b) := by
  unfold moveFile at h
  split at h
  · cases h
  rename_i l e hfind
  split at h
  · cases h
  rename_i l' hl'
  cases e with
  | directory => cases h
  | file mode b =>
    cases he' : t.entryAt? l' with
    | none =>
      rw [he'] at h
      cases h
      exact ⟨l, l', mode, b, hfind, hl', (fun hd => by rw [he'] at hd; cases hd), rfl⟩
    | some e' =>
      rw [he'] at h
      cases e' with
      | directory => cases h
      | file mode' b' =>
        cases h
        exact ⟨l, l', mode, b, hfind, hl', ne_directory_of_file he', rfl⟩

theorem setMode_eq_ok {t t' : Tree} {p : Path} {mode : Nat} (h : t.setMode p mode = .ok t') :
    t' = t ∨ ∃ l mode' b, t.find p = .ok (l, .file mode' b) ∧ t' = t.put l (.file mode b) := by
  unfold setMode at h
  split at h
  · cases h
  · cases h
    exact .inl rfl
  · rename_i l mode' b hfind
    cases h
    exact .inr ⟨l, mode', b, hfind, rfl⟩

theorem removeFile_eq_ok {t t' : Tree} {p : Path} (h : t.removeFile p = .ok t') :
    ∃ l mode b, t.find p = .ok (l, .file mode b) ∧ t' = t.erase l := by
  unfold removeFile at h
  split at h
  · cases h
  · cases h
  · rename_i l mode b hfind
    cases h
    exact ⟨l, mode, b, hfind, rfl⟩

theorem makeDirectory_eq_ok {t t' : Tree} {p : Path} (h : t.makeDirectory p = .ok t') :
    ∃ l, t.locate p = .ok l ∧ t.entryAt? l = none ∧ t' = t.put l .directory := by
  unfold makeDirectory at h
  split at h
  · cases h
  rename_i l hl
  split at h
  · cases h
  · rename_i he
    cases h
    exact ⟨l, hl, he, rfl⟩

/-! ## Directories on the way -/

/-- A location on the way that a path spells out. -/
def OnTheWay (t : Tree) (p : Path) (l : Location) : Prop :=
  ∃ cs, cs <+: p.components ∧ l = t.spelledOut ⟨p.anchor, cs⟩

/-- Only with double dots a path leads to a location on the way to where its last component is taken. -/
theorem above_mem_of_onTheWay {t : Tree} {a : Anchor} {cs : List Text} {n : Text}
    (hl : t.OnTheWay ⟨a, cs⟩ (t.spelledOut ⟨a, cs ++ [n]⟩)) : Path.above ∈ cs ++ [n] := by
  obtain ⟨ds, hds, hl⟩ := hl
  apply Classical.byContradiction
  intro hn
  have hdsn : Path.above ∉ ds := fun hm => hn (List.mem_append_left _ (hds.subset hm))
  rw [spelledOut_eq, spelledOut_eq, foldl_turn_of_notMem _ hn, foldl_turn_of_notMem _ hdsn,
    List.append_cancel_left_eq] at hl
  have hlength := congrArg List.length hl
  have hle : ds.length ≤ cs.length := hds.length_le
  rw [List.length_append, List.length_singleton] at hlength
  omega

theorem makeDirectory_grows {t t' : Tree} {p : Path} (h : t.makeDirectory p = .ok t') :
    Grows t t' [] (t.OnTheWay p) := by
  obtain ⟨l, hl, he, rfl⟩ := makeDirectory_eq_ok h
  exact .put_directory he ⟨p.components, List.prefix_rfl, locate_eq_ok hl⟩

/-- **Making a directory with all that lead to it makes directories on the way and changes nothing else**, whether it
succeeds or not. -/
theorem ensureDirectoryAt_grows (a : Anchor) : ∀ (cs : List Text) (t : Tree),
    Grows t (t.ensureDirectoryAt a cs).1 [] (t.OnTheWay ⟨a, cs.reverse⟩)
  | [], t => .refl t [] _
  | c :: cs, t => by
    unfold ensureDirectoryAt
    simp only
    cases hm : t.makeDirectory ⟨a, (c :: cs).reverse⟩ with
    | ok t' => exact makeDirectory_grows hm
    | error e =>
      cases e with
      | notFound =>
        have ih := ensureDirectoryAt_grows a cs t
        cases hr : t.ensureDirectoryAt a cs with
        | mk t' o =>
          rw [hr] at ih
          have hup : Grows t t' [] (t.OnTheWay ⟨a, (c :: cs).reverse⟩) := ih.mono (List.Subset.refl _) fun l ⟨ds, hds, hl⟩ =>
            ⟨ds, hds.trans (by rw [List.reverse_cons]; exact List.prefix_append _ _), hl⟩
          cases o with
          | some e => exact hup
          | none =>
            simp only
            cases hm' : t'.makeDirectory ⟨a, (c :: cs).reverse⟩ with
            | ok t'' =>
              refine hup.trans ((makeDirectory_grows hm').mono (List.Subset.refl _) ?_)
              rintro l ⟨ds, hds, hl⟩
              exact ⟨ds, hds, by rw [hl, hup.spelledOut]⟩
            | error e' => cases e' <;> exact hup
      | _ => exact .refl t [] _

theorem ensureDirectory_grows (t : Tree) (p : Path) : Grows t (t.ensureDirectory p).1 [] (t.OnTheWay p) := by
  have h := ensureDirectoryAt_grows p.anchor p.components.reverse t
  rw [List.reverse_reverse] at h
  exact h

/-! ## A directory that is there already -/

theorem isDirectory_iff {t : Tree} {p : Path} :
    t.isDirectory p = true ↔ ∃ l, t.locate p = .ok l ∧ t.entryAt? l = some .directory := by
  constructor
  · intro h
    unfold isDirectory at h
    split at h
    · exact ⟨_, find_eq_ok.1 ‹_›⟩
    · cases h
  · rintro ⟨l, h⟩
    rw [isDirectory, find_eq_ok.2 h]

theorem Grows.isDirectory {t t' : Tree} {files : List Location} {made : Location → Prop} (h : Grows t t' files made)
    {p : Path} (hp : t.isDirectory p = true) : t'.isDirectory p = true := by
  obtain ⟨l, hlocate, hentry⟩ := isDirectory_iff.1 hp
  exact isDirectory_iff.2 ⟨l, h.locate hlocate, h.directory l hentry⟩

/-- All locations on the way to a directory are directories. -/
theorem directory_of_onTheWay {t : Tree} {p : Path} (hp : t.isDirectory p = true) {l : Location}
    (hl : t.OnTheWay p l) : t.entryAt? l = some .directory := by
  obtain ⟨end', hlocate, hentry⟩ := isDirectory_iff.1 hp
  obtain ⟨cs, ⟨ds, hds⟩, rfl⟩ := hl
  have hwalk := walk_of_locate hlocate
  rw [← hds, walk_append] at hwalk
  cases hcs : t.walk (t.startOf p.anchor) cs with
  | error e =>
    rw [hcs] at hwalk
    cases hwalk
  | ok l =>
    rw [hcs] at hwalk
    have hl : l = t.spelledOut ⟨p.anchor, cs⟩ := walk_eq_ok hcs
    rw [← hl]
    cases ds with
    | nil =>
      cases hwalk
      exact hentry
    | cons d ds =>
      simp only [Except.bind, walk] at hwalk
      cases hstep : t.step l d with
      | error e =>
        rw [hstep] at hwalk
        cases hwalk
      | ok l' => exact (step_eq_ok hstep).1

/-- From a directory a path leads one step further, unless it is faulty or too long. -/
theorem locate_of_parent {t : Tree} {p : Path} {n : Text} (hp : t.isDirectory p.parent = true) (hn : p.name? = some n) :
    (∃ f, p.fault? = some f) ∨ t.locate p = .error .nameTooLong ∨ ∃ l, t.locate p = .ok l := by
  obtain ⟨l, hlocate, hentry⟩ := isDirectory_iff.1 hp
  obtain ⟨cs, hcs⟩ := List.getLast?_eq_some_iff.1 hn
  have hparent : t.walk (t.startOf p.anchor) cs = .ok l := by
    have hwalk := walk_of_locate hlocate
    rw [Path.parent, hcs, List.dropLast_concat] at hwalk
    exact hwalk
  unfold locate
  split
  · exact .inl ⟨_, ‹_›⟩
  · split
    · exact .inr (.inl rfl)
    · rw [hcs, walk_append, hparent]
      simp only [Except.bind, walk, step, hentry]
      by_cases habove : n = Path.above
      · rw [if_pos habove]
        exact .inr (.inr ⟨_, rfl⟩)
      · rw [if_neg habove]
        by_cases hlong : nameLimit < (Utf8.encode n).length
        · rw [if_pos hlong]
          exact .inr (.inl rfl)
        · rw [if_neg hlong]
          exact .inr (.inr ⟨_, rfl⟩)

theorem contains_of_locate {t : Tree} {p : Path} {l : Location} (h : t.locate p = .ok l) :
    t.contains p = .ok (t.entryAt? l).isSome := by
  unfold contains find
  rw [h]
  simp only
  cases t.entryAt? l <;> rfl

/-- **Where nothing stands in a directory, nothing stands after changes elsewhere.** -/
theorem Grows.contains_eq_false {t t' : Tree} {files : List Location} {p : Path} {n : Text}
    (h : Grows t t' files (t.OnTheWay p.parent)) (hp : t.isDirectory p.parent = true) (hn : p.name? = some n)
    (hfiles : t.spelledOut p ∉ files) (hfree : t.contains p = .ok false) : t'.contains p = .ok false := by
  rcases locate_of_parent hp hn with ⟨f, hf⟩ | hlong | ⟨l, hlocate⟩
  · rw [contains, find, Tree.locate, hf]
  · rw [contains, find, hlong] at hfree
    cases hfree
  · rw [contains_of_locate hlocate] at hfree
    have hnone : t.entryAt? l = none := by simpa using hfree
    rw [contains_of_locate (h.locate hlocate)]
    rw [← locate_eq_ok hlocate] at hfiles
    rcases h.entry l hfiles with hsame | ⟨-, -, hway⟩
    · rw [hsame, hnone]
      rfl
    · rw [directory_of_onTheWay hp hway] at hnone
      cases hnone

end Tree
end Exposition
