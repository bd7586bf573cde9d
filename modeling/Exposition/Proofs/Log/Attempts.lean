import Exposition.Proofs.Log.Runs
import Exposition.Proofs.Log.Standard
/-!
# Attempts — what a setup that fails leaves behind

A setup that fails leaves the level and the handlers as they were, and it writes nothing.  If it fails for its settings, it
leaves the chain too; but if it fails at its log file, the chain has been configured before, and records are rendered for the
environment of the attempt from then on (`configure_switchesRendering`).  So a call is worth the lines that it would be
worth without the attempt in a session with that chain (`produced_after_failure`).
-/
namespace Exposition
namespace Log

variable {δ : Type}

namespace Session

variable {S : Settings.Package} {P : Processing δ}

/-- The chain that an attempt in this environment leaves behind which fails with this error, unless it leaves the one there
was. -/
def askedBy (env : Settings.Environment) : SetupError → Option (List Processor)
  | .settings _ => none
  | .noSuchLevel => some (processors (.ofEnvironment env))
  | .file _ => some (processors (.ofEnvironment env))

/-- The chain that the last of the failing setups of a run leaves behind, unless all leave the one there was. -/
def asked? (S : Settings.Package) (P : Processing δ) : Session → List (Action δ) → Option (List Processor)
  | _, [] => none
  | s, .setup env args :: as =>
    (asked? S P (s.configure S env args).1 as).or ((s.configure S env args).2.bind (askedBy env))
  | s, .call c :: as => asked? S P (s.log P c) as

/-- What a call is worth: the lines that it adds to the console, and what it adds behind what each file holds. -/
def produced (P : Processing δ) (s : Session) (c : Call δ) : List Text × (Location → Bytes) :=
  ((s.log P c).console.drop s.console.length, fun l => (bytesAt (s.log P c).tree l).drop (bytesAt s.tree l).length)

def withChain (s : Session) (chain : Option (List Processor)) : Session := { s with chain := chain }

/-! ## What a call is worth -/

/-- The chains, the root loggers and the files of two sessions are the same, whatever else they hold. -/
structure Alike (s s' : Session) : Prop where
  chain : s.chain = s'.chain
  rootLevel : s.rootLevel = s'.rootLevel
  handlers : s.handlers = s'.handlers
  isFile : ∀ l, isFileAt s.tree l = isFileAt s'.tree l

theorem produced_eq_lines (P : Processing δ) (s : Session) (c : Call δ) : s.produced P c =
    (s.lines P c .console, fun l => if isFileAt s.tree l then (s.lines P c (.file l)).flatMap Utf8.encode else []) := by
  have h := s.log_wrote P c
  unfold produced
  rw [h.console, List.drop_left]
  congr 1
  funext l
  rw [h.bytes, List.drop_left]

/-- **What a call is worth depends on the chain, the root logger and where there are files**, and not on what was written
before. -/
theorem Alike.produced {s s' : Session} (h : Alike s s') (P : Processing δ) (c : Call δ) :
    s.produced P c = s'.produced P c := by
  have hlines : s.lines P c = s'.lines P c := by
    obtain ⟨tree, console, chain, rootLevel, handlers⟩ := s
    obtain ⟨rfl, rfl, rfl, -⟩ := h
    rfl
  rw [produced_eq_lines, produced_eq_lines, hlines]
  simp only [h.isFile]

/-! ## Attempts -/

/-- The second session is what failing setups that leave this chain behind make of the first one, if any chain is left, and
what calls in between do. -/
structure Kept (s s' : Session) (asked : Option (List Processor)) : Prop where
  chain : s'.chain = asked.or s.chain
  rootLevel : s'.rootLevel = s.rootLevel
  handlers : s'.handlers = s.handlers
  isFile : ∀ l, isFileAt s'.tree l = isFileAt s.tree l

theorem Kept.trans {s s' s'' : Session} {asked asked' : Option (List Processor)} (h : Kept s s' asked)
    (h' : Kept s' s'' asked') : Kept s s'' (asked'.or asked) where
  chain := by rw [h'.chain, h.chain, Option.or_assoc]
  rootLevel := h'.rootLevel.trans h.rootLevel
  handlers := h'.handlers.trans h.handlers
  isFile := fun l => (h'.isFile l).trans (h.isFile l)

theorem Wrote.kept {s s' : Session} {lines : Target → List Text} (h : Wrote s s' lines) : Kept s s' none :=
  ⟨h.chain, h.rootLevel, h.handlers, h.isFile⟩

theorem configure_of_error (hS : S.Documented) {s : Session} {env : Settings.Environment} {args : Settings.Arguments}
    {e : SetupError} (h : (s.configure S env args).2 = some e) :
    Kept s (s.configure S env args).1 (askedBy env e) := by
  have hgrows := Settings.load_grows hS s.tree env args
  generalize hr : s.configure S env args = r at h ⊢
  cases hr ▸ s.configured S env args with
  | noSettings hload | noLevel hload hlevel | noFile hload hlevel hfile =>
    cases h
    rw [hload] at hgrows
    exact ⟨rfl, rfl, rfl, isFileAt_of_grows hgrows⟩
  | done hload hlevel hfile => cases h

/-- **A run in which no setup succeeds leaves the level and the handlers as they were**, and makes no file.  The chain is
left as it was, or as the last attempt configured it that failed at its log file. -/
theorem after_of_failures (hS : S.Documented) : ∀ {actions : List (Action δ)} {s : Session},
    none ∉ s.outcomes S P actions → Kept s (s.after S P actions) (s.asked? S P actions)
  | [], _, _ => ⟨rfl, rfl, rfl, fun _ => rfl⟩
  | .setup env args :: as, s, h => by
    rw [outcomes, List.mem_cons, not_or] at h
    obtain ⟨e, he⟩ := Option.ne_none_iff_exists'.1 (Ne.symm h.1)
    rw [asked?, he, Option.bind_some]
    exact (configure_of_error hS he).trans (after_of_failures hS h.2)
  | .call c :: as, s, h => by
    rw [outcomes] at h
    have hkept := (s.log_wrote P c).kept.trans (after_of_failures hS h)
    rw [Option.or_none] at hkept
    exact hkept

/-- **After a setup that fails, and until one succeeds, a call is worth what it would be worth without the attempt** if the
chain were the one that there is then.  That is the one there was if the attempt failed for its settings or asked for no other
chain; else, if the attempt failed at its log file, it is the chain for the environment of the attempt, until a later attempt
configures it again.  The level and the handlers are the same in any case. -/
theorem produced_after_failure (S : Settings.Package) (hS : S.Documented) (P : Processing δ) (s : Session)
    {env : Settings.Environment} {args : Settings.Arguments} {e : SetupError}
    (hfails : (s.configure S env args).2 = some e) (later : List (Action δ))
    (hlater : none ∉ (s.configure S env args).1.outcomes S P later) (hwithout : none ∉ s.outcomes S P later) :
    let s' := (s.configure S env args).1
    (s'.after S P later).rootLevel = (s.after S P later).rootLevel ∧
    (s'.after S P later).handlers = (s.after S P later).handlers ∧
    (s'.after S P later).chain = (s'.asked? S P later).or ((askedBy env e).or s.chain) ∧
    (∀ c, (s'.after S P later).produced P c =
      ((s.after S P later).withChain (s'.after S P later).chain).produced P c) ∧
    ((askedBy env e).or s.chain = s.chain → s'.asked? S P later = none → s.asked? S P later = none →
      ∀ c, (s'.after S P later).produced P c = (s.after S P later).produced P c) := by
  intro s'
  have hattempt := configure_of_error hS hfails
  have hwith := after_of_failures hS hlater
  have hapart := after_of_failures hS hwithout
  have hlevel : (s'.after S P later).rootLevel = (s.after S P later).rootLevel :=
    hwith.rootLevel.trans (hattempt.rootLevel.trans hapart.rootLevel.symm)
  have hhandlers : (s'.after S P later).handlers = (s.after S P later).handlers :=
    hwith.handlers.trans (hattempt.handlers.trans hapart.handlers.symm)
  have hfiles : ∀ l, isFileAt (s'.after S P later).tree l = isFileAt (s.after S P later).tree l := fun l =>
    (hwith.isFile l).trans ((hattempt.isFile l).trans (hapart.isFile l).symm)
  have hchain : (s'.after S P later).chain = (s'.asked? S P later).or ((askedBy env e).or s.chain) := by
    rw [hwith.chain, hattempt.chain]
  refine ⟨hlevel, hhandlers, hchain, fun c => ?_, fun hkept hnone hnone' c => ?_⟩
  · apply Alike.produced
    exact ⟨rfl, hlevel, hhandlers, hfiles⟩
  · have hsame : (s'.after S P later).chain = (s.after S P later).chain := by
      rw [hchain, hapart.chain, hnone, hnone', hkept]
    exact Alike.produced ⟨hsame, hlevel, hhandlers, hfiles⟩ P c

/-- A program in an empty directory that has set logging up from nothing. -/
def plainly : Session := ((start ⟨Mapping.empty, []⟩).configure .standard .empty .empty).1

def development : Settings.Environment := .ofList [("ENVIRONMENT", "development")]

def message : Call Nat := ⟨"test", .plain .info "m", "12:00"⟩

/-- An attempt that fails at its log file, which is a directory, and one after it that fails for its level. -/
theorem produced_after_failure_twice :
    let args : Settings.Arguments := .ofList [("log_file", .text ".")]
    let later : List (Action Nat) := [.call message, .setup .empty (.ofList [("log_level", .text "loud")])]
    let s' := (plainly.configure .standard development args).1
    Settings.Package.standard.Documented ∧
      (plainly.configure .standard development args).2 = some (.file .isADirectory) ∧
      none ∉ s'.outcomes .standard .standard later ∧ none ∉ plainly.outcomes .standard .standard later ∧
      (s'.after .standard .standard later).handlers = (plainly.after .standard .standard later).handlers ∧
      (s'.after .standard .standard later).chain = some (processors .development) ∧
      ∀ c : Call Nat, (s'.after .standard .standard later).produced .standard c =
        ((plainly.after .standard .standard later).withChain (s'.after .standard .standard later).chain).produced
          .standard c := by
  intro args later s'
  have hfails : (plainly.configure .standard development args).2 = some (.file .isADirectory) := by decide +kernel
  have hlater : none ∉ s'.outcomes .standard .standard later := by decide +kernel
  have hwithout : none ∉ plainly.outcomes .standard .standard later := by decide +kernel
  obtain ⟨-, hhandlers, hchain, hproduced, -⟩ := produced_after_failure .standard Settings.Package.standard_documented
    .standard plainly hfails later hlater hwithout
  have hasked : (s'.asked? .standard .standard later).or ((askedBy development (.file .isADirectory)).or plainly.chain) =
    some (processors .development) := by decide +kernel
  exact ⟨Settings.Package.standard_documented, hfails, hlater, hwithout, hhandlers, hchain.trans hasked, hproduced⟩

/-- An attempt that fails at its log file leaves the rendering of its own environment behind. -/
theorem configure_switchesRendering :
    let args : Settings.Arguments := .ofList [("log_file", .text ".")]
    let s' := (plainly.configure .standard development args).1
    (plainly.configure .standard development args).2 = some (.file .isADirectory) ∧
      (plainly.produced .standard message).1 =
        ["\x7b\"event\": \"m\", \"logger\": \"test\", \"level\": \"info\", \"timestamp\": \"12:00\"\x7d\n"] ∧
      (s'.produced .standard message).1 = ["12:00 [info     ] m                              [test]\n"] ∧
      s'.produced .standard message ≠ plainly.produced .standard message := by
  intro args s'
  have hdata : (plainly.produced .standard message).1 =
      ["\x7b\"event\": \"m\", \"logger\": \"test\", \"level\": \"info\", \"timestamp\": \"12:00\"\x7d\n"] := by
    decide +kernel
  have hdevelopment : (s'.produced .standard message).1 =
      ["12:00 [info     ] m                              [test]\n"] := by
    decide +kernel
  refine ⟨by decide +kernel, hdata, hdevelopment, fun h => ?_⟩
  rw [h, hdata] at hdevelopment
  exact absurd hdevelopment (by decide)

end Session
end Log
end Exposition
