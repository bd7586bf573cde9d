import Exposition.Log.Session
import Exposition.Proofs.Files.Walks
/-!
# Records — what a call writes down

The chain of a setup makes one record of a call if the logger is enabled for it, and none if not (`record?_processors`).
What a call writes is then read off the chain, the level and the handlers of the root logger alone (`lines`): each handler
whose level the call reaches puts the record where its target is, at the end of what is there (`log_wrote`).
-/
namespace Exposition
namespace Log

/-! ## Chains -/

namespace Processing

variable {δ : Type} {P : Processing δ} {c : Call δ}

/-- The record of a call for which the logger is enabled. -/
def record (P : Processing δ) (r : Rendering) (c : Call δ) : Text := (P.record? true c (processors r)).getD []

theorem reaches_of_run : ∀ {ps : List Processor} {enabled : Bool} {e e' : P.Entry}, P.Reaches c e →
    P.run enabled c ps e = some e' → P.Reaches c e'
  | [], _, _, _, h, hrun => Option.some.inj hrun ▸ h
  | p :: ps, enabled, e, e', h, hrun => by
    obtain ⟨e₁, hp, hps⟩ := Option.bind_eq_some_iff.1 hrun
    exact reaches_of_run (h.process hp) hps

namespace Documented

variable (h : P.Documented)

include h

/-- Processors that drop nothing make the same of an entry whether the logger is enabled or not, and the last one makes it
a text if it renders. -/
theorem run_render (r : Rendering) : ∀ (ps : List Processor) (e : P.Entry), (∀ p ∈ ps, p ≠ .filterByLevel) →
    ∃ t, ∀ enabled, (P.run enabled c (ps ++ [.render r]) e).bind P.text? = some t
  | [], e, _ => by
    obtain ⟨e', he'⟩ := h.keeps (p := .render r) (c := c) (e := e) (by simp)
    obtain ⟨t, ht⟩ := h.renders (he' true)
    refine ⟨t, fun enabled => ?_⟩
    rw [List.nil_append, run, he' enabled, Option.bind_some, run, Option.bind_some, ht]
  | p :: ps, e, hps => by
    obtain ⟨e', he'⟩ := h.keeps (c := c) (e := e) (hps p List.mem_cons_self)
    obtain ⟨t, ht⟩ := run_render r ps e' fun q hq => hps q (List.mem_cons_of_mem _ hq)
    refine ⟨t, fun enabled => ?_⟩
    rw [List.cons_append, run, he' enabled, Option.bind_some, ht]

/-- **The chain of a setup makes one record of a call, if the logger is enabled for it.** -/
theorem record?_processors (r : Rendering) (enabled : Bool) :
    P.record? enabled c (processors r) = if enabled then some (P.record r c) else none := by
  have hrest : ∀ p ∈ [Processor.addLoggerName, .addLogLevel, .addTime, .addStack, .formatException],
    p ≠ .filterByLevel := by decide
  obtain ⟨t, ht⟩ := h.run_render (c := c) r _ (P.entry c) hrest
  have htrue : P.record? true c (processors r) = some t := by
    rw [record?, processors, run, h.passes, Option.bind_some]
    exact ht true
  cases enabled with
  | true => rw [record, htrue, if_pos rfl, Option.getD_some]
  | false =>
    rw [record?, processors, run, h.drops]
    rfl

/-- Of texts that can be written down a record is made that can. -/
theorem encodable_record (hc : ∀ t ∈ P.texts c, encodable t = true) (r : Rendering) :
    encodable (P.record r c) = true := by
  have hrecord : (P.run true c (processors r) (P.entry c)).bind P.text? = some (P.record r c) :=
    h.record?_processors r true
  obtain ⟨e, hrun, htext⟩ := Option.bind_eq_some_iff.1 hrecord
  exact h.encodes hc (reaches_of_run .entry hrun) htext

end Documented
end Processing

/-! ## Files -/

def isFileAt (t : Tree) (l : Location) : Bool :=
  match t.entryAt? l with
  | some (.file _ _) => true
  | _ => false

/-- What a file holds; where none stands there is nothing. -/
def bytesAt (t : Tree) (l : Location) : Bytes :=
  match t.entryAt? l with
  | some (.file _ b) => b
  | _ => []

/-- Directories stay, and files stay and keep what they hold in front of what else they may come to hold. -/
structure Extends (t t' : Tree) : Prop where
  here : t'.here = t.here
  directory : ∀ l, t.entryAt? l = some .directory → t'.entryAt? l = some .directory
  file : ∀ l mode b, t.entryAt? l = some (.file mode b) → ∃ b', t'.entryAt? l = some (.file mode (b ++ b'))

namespace Extends

variable {t t' t'' : Tree}

theorem ofKeep (hhere : t'.here = t.here) (h : ∀ l e, t.entryAt? l = some e → t'.entryAt? l = some e) :
    Extends t t' :=
  ⟨hhere, fun l => h l _, fun l mode b hb => ⟨[], by rw [List.append_nil]; exact h l _ hb⟩⟩

theorem refl (t : Tree) : Extends t t := .ofKeep rfl fun _ _ h => h

theorem trans (h : Extends t t') (h' : Extends t' t'') : Extends t t'' where
  here := h'.here.trans h.here
  directory := fun l hl => h'.directory l (h.directory l hl)
  file := fun l mode b hb => by
    obtain ⟨b₁, hb₁⟩ := h.file l mode b hb
    obtain ⟨b₂, hb₂⟩ := h'.file l mode _ hb₁
    exact ⟨b₁ ++ b₂, by rw [hb₂, List.append_assoc]⟩

end Extends

section Append

variable (t : Tree) (l : Location) (b : Bytes)

theorem entryAt?_append (l' : Location) : (append t l b).entryAt? l' =
    match t.entryAt? l' with
    | some (.file mode old) => some (.file mode (if l' = l then old ++ b else old))
    | e => e := by
  unfold append
  cases he : t.entryAt? l with
  | none =>
    by_cases hl : l' = l
    · rw [hl, he]
    · cases t.entryAt? l' with
      | none => rfl
      | some e => cases e <;> simp [hl]
  | some e =>
    cases e with
    | directory =>
      by_cases hl : l' = l
      · rw [hl, he]
      · cases t.entryAt? l' with
        | none => rfl
        | some e => cases e <;> simp [hl]
    | file mode old =>
      have hfile := Tree.ne_directory_of_file he
      simp only [Tree.entryAt?_put_file hfile]
      by_cases hl : l' = l
      · simp [hl, he]
      · rw [if_neg hl]
        cases t.entryAt? l' with
        | none => rfl
        | some e => cases e <;> simp [hl]

theorem append_extends : Extends t (append t l b) where
  here := by
    unfold append
    split <;> rfl
  directory := fun l' hl' => by rw [entryAt?_append, hl']
  file := fun l' mode old hl' => by
    rw [entryAt?_append, hl']
    by_cases hl : l' = l
    · exact ⟨b, by simp [hl]⟩
    · exact ⟨[], by simp [hl]⟩

theorem isFileAt_append (l' : Location) : isFileAt (append t l b) l' = isFileAt t l' := by
  rw [isFileAt, isFileAt, entryAt?_append]
  cases t.entryAt? l' with
  | none => rfl
  | some e => cases e <;> rfl

theorem bytesAt_append (l' : Location) :
    bytesAt (append t l b) l' = bytesAt t l' ++ if isFileAt t l' ∧ l' = l then b else [] := by
  rw [bytesAt, bytesAt, isFileAt, entryAt?_append]
  cases t.entryAt? l' with
  | none => simp
  | some e =>
    cases e with
    | directory => simp
    | file mode old =>
      by_cases hl : l' = l
      · simp [hl]
      · simp [hl]

end Append

/-! ## Handlers -/

namespace Session

/-- What handlers with this target write of a record. -/
def written (v : Severity) (record : Text) (hs : List Handler) (target : Target) : List Text :=
  (hs.filter fun h => h.target = target ∧ h.level ≤ v.level ∧ encodable record = true).map fun _ => record ++ terminator

/-- The second session is the first one with lines added where they are due; nothing is added where there is no file. -/
structure Wrote (s s' : Session) (lines : Target → List Text) : Prop where
  chain : s'.chain = s.chain
  rootLevel : s'.rootLevel = s.rootLevel
  handlers : s'.handlers = s.handlers
  tree : Extends s.tree s'.tree
  isFile : ∀ l, isFileAt s'.tree l = isFileAt s.tree l
  console : s'.console = s.console ++ lines .console
  bytes : ∀ l, bytesAt s'.tree l =
    bytesAt s.tree l ++ if isFileAt s.tree l then (lines (.file l)).flatMap Utf8.encode else []

namespace Wrote

variable {s s' s'' : Session} {lines lines' : Target → List Text}

theorem refl (s : Session) : Wrote s s fun _ => [] where
  chain := rfl
  rootLevel := rfl
  handlers := rfl
  tree := .refl _
  isFile := fun _ => rfl
  console := (List.append_nil _).symm
  bytes := fun l => by simp

theorem trans (h : Wrote s s' lines) (h' : Wrote s' s'' lines') :
    Wrote s s'' fun target => lines target ++ lines' target where
  chain := h'.chain.trans h.chain
  rootLevel := h'.rootLevel.trans h.rootLevel
  handlers := h'.handlers.trans h.handlers
  tree := h.tree.trans h'.tree
  isFile := fun l => (h'.isFile l).trans (h.isFile l)
  console := by rw [h'.console, h.console, List.append_assoc]
  bytes := fun l => by
    rw [h'.bytes, h.bytes, h.isFile, List.append_assoc, List.flatMap_append]
    split <;> simp

end Wrote

theorem emit_wrote (v : Severity) (record : Text) (s : Session) (h : Handler) :
    Wrote s (emit v record s h) (written v record [h]) := by
  obtain ⟨target, level⟩ := h
  unfold emit
  by_cases hpasses : level ≤ v.level ∧ encodable record = true
  · have hwritten : written v record [⟨target, level⟩] =
        fun target' => if target = target' then [record ++ terminator] else [] := by
      funext target'
      by_cases htarget : target = target' <;> simp [written, htarget, hpasses]
    rw [if_pos hpasses, hwritten]
    cases target with
    | console => exact ⟨rfl, rfl, rfl, .refl _, fun _ => rfl, rfl, fun l => by simp⟩
    | file l =>
      refine ⟨rfl, rfl, rfl, append_extends .., isFileAt_append _ _ _, by simp, fun l' => ?_⟩
      rw [bytesAt_append]
      by_cases hl : l' = l
      · simp [hl]
      · simp [hl, Ne.symm hl]
  · have hwritten : written v record [⟨target, level⟩] = fun _ => [] := by
      funext target'
      simp only [written, List.map_eq_nil_iff, List.filter_eq_nil_iff, List.mem_singleton, decide_eq_true_eq]
      rintro h rfl ⟨-, hlevel⟩
      exact hpasses hlevel
    rw [if_neg hpasses, hwritten]
    exact .refl s

/-- Handlers write one after the other, and what one does is nothing to the others. -/
theorem emitAll_wrote (v : Severity) (record : Text) : ∀ (hs : List Handler) (s : Session),
    Wrote s (hs.foldl (emit v record) s) (written v record hs)
  | [], s => .refl s
  | h :: hs, s => by
    have hboth := (emit_wrote v record s h).trans (emitAll_wrote v record hs (emit v record s h))
    have hlines : written v record (h :: hs) = fun target => written v record [h] target ++ written v record hs target := by
      funext target
      rw [written, written, written, ← List.map_append, ← List.filter_append]
      rfl
    rw [hlines]
    exact hboth

/-! ## Calls -/

/-- The lines of a call by their target. -/
def lines {δ : Type} (P : Processing δ) (s : Session) (c : Call δ) : Target → List Text :=
  match s.chain with
  | none => fun target => if target = .console then [P.unprocessed c ++ terminator] else []
  | some ps =>
    match P.record? (s.isEnabledFor c.event.severity) c ps with
    | none => fun _ => []
    | some record =>
      if s.isEnabledFor c.event.severity then written c.event.severity record s.handlers else fun _ => []

/-- **A call writes its lines and changes nothing else.** -/
theorem log_wrote {δ : Type} (P : Processing δ) (s : Session) (c : Call δ) : Wrote s (s.log P c) (s.lines P c) := by
  cases hchain : s.chain with
  | none =>
    simp only [lines, log, hchain]
    exact ⟨hchain.symm, rfl, rfl, .refl _, fun _ => rfl, rfl, fun l => by simp⟩
  | some ps =>
    cases hrecord : P.record? (s.isEnabledFor c.event.severity) c ps with
    | none =>
      simp only [lines, log, hchain, hrecord]
      exact .refl s
    | some record =>
      simp only [lines, log, handle, hchain, hrecord]
      split
      · exact emitAll_wrote ..
      · exact .refl s

end Session
end Log
end Exposition
