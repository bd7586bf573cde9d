import Exposition.Proofs.Log.Levels
import Exposition.Proofs.Log.Records
import Exposition.Proofs.Log.Standard
import Exposition.Proofs.Settings.Loading
/-!
# Runs — what reaches the console and the log files

A program sets logging up as often as it likes and makes calls in between (`Action`).  A setup takes the place of the one
before it and writes nothing; a call adds its record to the console and to the log file of the latest setup, if the level
of that setup is reached (`Governed`).  Files are opened at their end, so what is in a log file stays there for the rest of
the run (`Extends`), whichever setups name the file again (`run_logs`).
-/
namespace Exposition
namespace Log

variable {δ : Type}

/-- What a program does with logging: it tries to set it up, or it makes a call. -/
inductive Action (δ : Type)
  | setup (env : Settings.Environment) (args : Settings.Arguments)
  | call (c : Call δ)

/-- Where the log file of the settings stands, if they name one. -/
def logFile? (t : Tree) (x : Settings) : Option Location := x.logFile.bind fun p => (t.locateSpelledOut p).toOption

/-! ## Trees -/

section Trees

variable {t t' : Tree}

theorem extends_of_grows {made : Location → Prop} (h : t.Grows t' [] made) : Extends t t' :=
  .ofKeep h.here fun _ _ => h.entry_of_some List.not_mem_nil

theorem bytesAt_of_grows {made : Location → Prop} (h : t.Grows t' [] made) (l : Location) :
    bytesAt t' l = bytesAt t l := by
  rcases h.entry l List.not_mem_nil with hsame | ⟨hnone, hdirectory, -⟩
  · rw [bytesAt, bytesAt, hsame]
  · rw [bytesAt, bytesAt, hnone, hdirectory]

theorem isFileAt_of_grows {made : Location → Prop} (h : t.Grows t' [] made) (l : Location) :
    isFileAt t' l = isFileAt t l := by
  rcases h.entry l List.not_mem_nil with hsame | ⟨hnone, hdirectory, -⟩
  · rw [isFileAt, isFileAt, hsame]
  · rw [isFileAt, isFileAt, hnone, hdirectory]

theorem isFileAt_of_extends (h : Extends t t') {l : Location} (hl : isFileAt t l = true) : isFileAt t' l = true := by
  unfold isFileAt at hl
  split at hl
  · rename_i mode b hb
    obtain ⟨b', hb'⟩ := h.file l mode b hb
    rw [isFileAt, hb']
  · cases hl

theorem logFile?_of_extends (h : Extends t t') {x : Settings} {l : Location} (hl : logFile? t x = some l) :
    logFile? t' x = some l := by
  obtain ⟨p, hp, hlocate⟩ := Option.bind_eq_some_iff.1 hl
  cases hlocated : t.locateSpelledOut p with
  | error e =>
    rw [hlocated] at hlocate
    cases hlocate
  | ok l' =>
    rw [hlocated] at hlocate
    cases hlocate
    rw [logFile?, hp, Option.bind_some, Tree.locateSpelledOut_of_directories h.here h.directory hlocated]
    rfl

theorem openLogFile_eq_ok {level : Nat} {x : Settings} {hs : List Handler}
    (h : Session.openLogFile t level x.logFile = .ok (t', hs)) :
    hs = ((logFile? t' x).map fun l => ⟨.file l, level⟩).toList ∧
      (x.logFile.isSome → ∃ l, logFile? t' x = some l ∧ isFileAt t' l = true) ∧ Extends t t' ∧
      ∀ l, bytesAt t' l = bytesAt t l := by
  cases hpath : x.logFile with
  | none =>
    rw [hpath] at h
    cases h
    exact ⟨by simp [logFile?, hpath], nofun, .refl t, fun _ => rfl⟩
  | some p =>
    rw [hpath, Session.openLogFile] at h
    split at h
    · cases h
    · rename_i t₁ l hopen
      cases h
      obtain ⟨hhere, hkeep, hlocate, mode, b, hentry⟩ := Tree.openAtEnd_eq_ok hopen
      have hlog : logFile? t' x = some l := by
        rw [logFile?, hpath, Option.bind_some, hlocate]
        rfl
      refine ⟨by simp [hlog], fun _ => ⟨l, hlog, by rw [isFileAt, hentry]⟩, .ofKeep hhere hkeep, fun l' => ?_⟩
      rcases Tree.openAtEnd_cases hopen with rfl | ⟨hnone, rfl⟩
      · rfl
      · rw [bytesAt, bytesAt, Tree.entryAt?_put_file (by simp [hnone])]
        by_cases hl : l' = l
        · simp [hl, hnone]
        · rw [if_neg hl]

end Trees

namespace Session

section Definitions

variable (S : Settings.Package) (P : Processing δ)

def act (s : Session) : Action δ → Session
  | .setup env args => (s.configure S env args).1
  | .call c => s.log P c

def after (s : Session) (actions : List (Action δ)) : Session := actions.foldl (act S P) s

/-- How the setups of a run end, in order: with an error or without. -/
def outcomes : Session → List (Action δ) → List (Option SetupError)
  | _, [] => []
  | s, .setup env args :: as => (s.configure S env args).2 :: outcomes (s.configure S env args).1 as
  | s, .call c :: as => outcomes (s.log P c) as

/-- The environment and the settings of a setup that succeeds. -/
def succeeded? (s : Session) : Action δ → Option (Settings.Environment × Settings)
  | .setup env args =>
    match (s.configure S env args).2, (Settings.load S s.tree env args).2 with
    | none, .ok x => some (env, x)
    | _, _ => none
  | .call _ => none

/-- The environment and the settings of the latest setup of a run. -/
def latest? : Session → List (Action δ) → Option (Settings.Environment × Settings)
  | _, [] => none
  | s, a :: as => (latest? (s.act S P a) as).or (s.succeeded? S a)

end Definitions

variable {S : Settings.Package} {P : Processing δ} {s : Session} {env : Settings.Environment}
  {args : Settings.Arguments}

/-! ## Setups -/

/-- How an attempt to set logging up ends: there are no settings, there is no level of the name that they give, their log
file cannot be opened, or the handlers and the level are replaced.  The chain is configured as soon as there are settings. -/
inductive Configured (S : Settings.Package) (s : Session) (env : Settings.Environment) (args : Settings.Arguments) :
    Session × Option SetupError → Prop
  | noSettings {t : Tree} {e : Settings.LoadError} (load : Settings.load S s.tree env args = (t, .error e)) :
    Configured S s env args ({ s with tree := t }, some (.settings e))
  | noLevel {t : Tree} {x : Settings} (load : Settings.load S s.tree env args = (t, .ok x))
      (level : Severity.ofName? x.logLevel.upper = none) :
    Configured S s env args
      ({ s with tree := t, chain := some (processors (.ofEnvironment env)) }, some .noSuchLevel)
  | noFile {t : Tree} {x : Settings} {v : Severity} {e : FileError}
      (load : Settings.load S s.tree env args = (t, .ok x)) (level : Severity.ofName? x.logLevel.upper = some v)
      (file : openLogFile t v.level x.logFile = .error e) :
    Configured S s env args
      ({ s with tree := t, chain := some (processors (.ofEnvironment env)) }, some (.file e))
  | done {t t' : Tree} {x : Settings} {v : Severity} {hs : List Handler}
      (load : Settings.load S s.tree env args = (t, .ok x)) (level : Severity.ofName? x.logLevel.upper = some v)
      (file : openLogFile t v.level x.logFile = .ok (t', hs)) :
    Configured S s env args
      (⟨t', s.console, some (processors (.ofEnvironment env)), v.level, hs ++ [⟨.console, v.level⟩]⟩, none)

theorem configured (S : Settings.Package) (s : Session) (env : Settings.Environment) (args : Settings.Arguments) :
    s.Configured S env args (s.configure S env args) := by
  unfold configure
  split
  · exact .noSettings ‹_›
  · rename_i t x hload
    unfold apply
    simp only
    split
    · exact .noLevel hload ‹_›
    · rename_i v hlevel
      split
      · exact .noFile hload hlevel ‹_›
      · exact .done hload hlevel ‹_›

/-- **A setup writes nothing**, whether it succeeds or not. -/
theorem configure_writesNothing (hS : S.Documented) (s : Session) (env : Settings.Environment)
    (args : Settings.Arguments) :
    (s.configure S env args).1.console = s.console ∧ Extends s.tree (s.configure S env args).1.tree ∧
      ∀ l, bytesAt (s.configure S env args).1.tree l = bytesAt s.tree l := by
  have hgrows := Settings.load_grows hS s.tree env args
  generalize hr : s.configure S env args = r
  cases hr ▸ s.configured S env args with
  | noSettings hload | noLevel hload hlevel | noFile hload hlevel hfile =>
    rw [hload] at hgrows
    exact ⟨rfl, extends_of_grows hgrows, bytesAt_of_grows hgrows⟩
  | done hload hlevel hfile =>
    rw [hload] at hgrows
    obtain ⟨-, -, hextends, hbytes⟩ := openLogFile_eq_ok hfile
    exact ⟨rfl, (extends_of_grows hgrows).trans hextends, fun l => (hbytes l).trans (bytesAt_of_grows hgrows l)⟩

/-! ## What stays -/

theorem act_extends (hS : S.Documented) (P : Processing δ) (s : Session) : ∀ (a : Action δ),
    Extends s.tree (s.act S P a).tree ∧ s.console <+: (s.act S P a).console
  | .setup env args => by
    obtain ⟨hconsole, htree, -⟩ := configure_writesNothing hS s env args
    exact ⟨htree, by simp [act, hconsole]⟩
  | .call c => ⟨(s.log_wrote P c).tree, by rw [act, (s.log_wrote P c).console]; exact List.prefix_append _ _⟩

/-- **What is in a log file stays there**, and so does what is on the console. -/
theorem after_extends (hS : S.Documented) (P : Processing δ) : ∀ (actions : List (Action δ)) (s : Session),
    Extends s.tree (s.after S P actions).tree ∧ s.console <+: (s.after S P actions).console
  | [], s => ⟨.refl _, List.prefix_rfl⟩
  | a :: as, s => by
    obtain ⟨htree, hconsole⟩ := act_extends hS P s a
    obtain ⟨htree', hconsole'⟩ := after_extends hS P as (s.act S P a)
    exact ⟨htree.trans htree', hconsole.trans hconsole'⟩

/-! ## The latest setup -/

/-- The session works as settings of this level and an environment ask for: calls go through the chain for that
environment, and what comes of them is handed to the log file of the settings, which is there, and to the console. -/
structure Governed (s : Session) (env : Settings.Environment) (x : Settings) (v : Severity) : Prop where
  level : Severity.ofName? x.logLevel.upper = some v
  chain : s.chain = some (processors (.ofEnvironment env))
  rootLevel : s.rootLevel = v.level
  handlers : s.handlers = ((logFile? s.tree x).map fun l => ⟨.file l, v.level⟩).toList ++ [⟨.console, v.level⟩]
  file : x.logFile.isSome → ∃ l, logFile? s.tree x = some l ∧ isFileAt s.tree l = true

theorem Governed.wrote {s s' : Session} {x : Settings} {v : Severity} {lines : Target → List Text}
    (h : s.Governed env x v) (hw : Wrote s s' lines) : s'.Governed env x v := by
  have hlog : logFile? s'.tree x = logFile? s.tree x := by
    cases hpath : x.logFile with
    | none => rw [logFile?, logFile?, hpath, Option.bind_none, Option.bind_none]
    | some p =>
      obtain ⟨l, hl, -⟩ := h.file (by rw [hpath]; rfl)
      rw [hl, logFile?_of_extends hw.tree hl]
  refine ⟨h.level, hw.chain.trans h.chain, hw.rootLevel.trans h.rootLevel, ?_, fun hsome => ?_⟩
  · rw [hw.handlers, h.handlers, hlog]
  · obtain ⟨l, hl, hfile⟩ := h.file hsome
    exact ⟨l, hlog.trans hl, isFileAt_of_extends hw.tree hfile⟩

theorem governed_of_configure {env' : Settings.Environment} {x : Settings}
    (h : s.succeeded? (δ := δ) S (.setup env args) = some (env', x)) :
    ∃ v, (s.configure S env args).1.Governed env' x v := by
  rw [succeeded?] at h
  generalize hr : s.configure S env args = r at h ⊢
  cases hr ▸ s.configured S env args with
  | noSettings | noLevel | noFile => cases h
  | @done t t' x' v hs hload hlevel hfile =>
    rw [hload] at h
    cases h
    obtain ⟨hhandlers, hthere, -, -⟩ := openLogFile_eq_ok hfile
    exact ⟨v, hlevel, rfl, rfl, by rw [hhandlers], hthere⟩

theorem succeeded?_of_configure (h : (s.configure S env args).2 = none) :
    ∃ x, s.succeeded? (δ := δ) S (.setup env args) = some (env, x) := by
  rw [succeeded?]
  generalize hr : s.configure S env args = r at h ⊢
  cases hr ▸ s.configured S env args with
  | noSettings | noLevel | noFile => cases h
  | done hload hlevel hfile => exact ⟨_, by rw [hload]⟩

/-- The session works as the latest setup asks for, if there was one. -/
def GovernedBy (s : Session) : Option (Settings.Environment × Settings) → Prop
  | none => True
  | some (env, x) => ∃ v, s.Governed env x v

theorem outcomes_cons (s : Session) (as : List (Action δ)) : ∀ (a : Action δ),
    s.outcomes S P (a :: as) = s.outcomes S P [a] ++ (s.act S P a).outcomes S P as
  | .setup _ _ => rfl
  | .call _ => rfl

/-- **What an action leaves is governed by it, if it is a setup, and else as before.** -/
theorem GovernedBy.act {o : Option (Settings.Environment × Settings)} (h : s.GovernedBy o) :
    ∀ (a : Action δ), (∀ r ∈ s.outcomes S P [a], r = none) → (s.act S P a).GovernedBy ((s.succeeded? S a).or o)
  | .setup env args, hok => by
    obtain ⟨x, hx⟩ := succeeded?_of_configure (δ := δ) (hok _ List.mem_cons_self)
    rw [hx]
    exact governed_of_configure hx
  | .call c, _ => by
    cases o with
    | none => trivial
    | some o =>
      obtain ⟨v, hv⟩ := h
      exact ⟨v, hv.wrote (s.log_wrote P c)⟩

/-- **After a run the session is governed by the latest setup.** -/
theorem GovernedBy.after : ∀ (actions : List (Action δ)) {s : Session} {o : Option (Settings.Environment × Settings)},
    s.GovernedBy o → (∀ r ∈ s.outcomes S P actions, r = none) →
      (s.after S P actions).GovernedBy ((s.latest? S P actions).or o)
  | [], _, _, h, _ => h
  | a :: as, s, o, h, hok => by
    rw [outcomes_cons] at hok
    have hact := h.act a fun r hr => hok r (List.mem_append_left _ hr)
    rw [latest?, Option.or_assoc]
    exact GovernedBy.after as hact fun r hr => hok r (List.mem_append_right _ hr)

theorem isSome_latest? {env : Settings.Environment} {args : Settings.Arguments} :
    ∀ {actions : List (Action δ)} {s : Session}, (∀ r ∈ s.outcomes S P actions, r = none) →
      .setup env args ∈ actions → (s.latest? S P actions).isSome
  | a :: as, s, hok, hmem => by
    rw [outcomes_cons] at hok
    rw [latest?, Option.isSome_or, Bool.or_eq_true]
    rcases List.mem_cons.1 hmem with rfl | hmem
    · obtain ⟨x, hx⟩ := succeeded?_of_configure (δ := δ) (hok _ (List.mem_append_left _ List.mem_cons_self))
      exact .inr (by rw [hx]; rfl)
    · exact .inl (isSome_latest? (fun r hr => hok r (List.mem_append_right _ hr)) hmem)

theorem after_append (s : Session) (as bs : List (Action δ)) :
    s.after S P (as ++ bs) = (s.after S P as).after S P bs :=
  List.foldl_append

/-- The lines that a call is worth to a session governed by settings of this level. -/
def linesUnder (P : Processing δ) (env : Settings.Environment) (v : Severity) (c : Call δ) : List Text :=
  if v.level ≤ c.event.severity.level then [P.record (.ofEnvironment env) c ++ terminator] else []

/-- **A governed session hands the record of a call to the console and to its log file, if the level is reached**, and to
no other file. -/
theorem Governed.lines {x : Settings} {v : Severity} (h : s.Governed env x v) (hP : P.Documented) {c : Call δ}
    (hc : ∀ t ∈ P.texts c, encodable t = true) :
    s.lines P c .console = linesUnder P env v c ∧
      ∀ l, s.lines P c (.file l) = if logFile? s.tree x = some l then linesUnder P env v c else [] := by
  have henabled : s.isEnabledFor c.event.severity = decide (v.level ≤ c.event.severity.level) := by
    rw [isEnabledFor, h.rootLevel]
  by_cases hlevel : v.level ≤ c.event.severity.level
  · have hencodable := hP.encodable_record hc (.ofEnvironment env)
    have hlines : s.lines P c = written c.event.severity (P.record (.ofEnvironment env) c) s.handlers := by
      simp only [Session.lines, h.chain, hP.record?_processors, henabled, hlevel, decide_true, if_pos]
    rw [hlines, h.handlers, linesUnder, if_pos hlevel]
    cases hfile : logFile? s.tree x with
    | none => exact ⟨by simp [written, hlevel, hencodable], fun l => by simp [written]⟩
    | some l' =>
      refine ⟨by simp [written, hlevel, hencodable], fun l => ?_⟩
      by_cases hl : l' = l
      · simp [written, hlevel, hencodable, hl]
      · simp [written, hl]
  · have hlines : s.lines P c = fun _ => [] := by
      simp only [Session.lines, h.chain, hP.record?_processors, henabled, hlevel, decide_false, Bool.false_eq_true, if_false]
    rw [hlines, linesUnder, if_neg hlevel]
    exact ⟨rfl, fun l => (ite_self []).symm⟩

/-- **In a run of setups that succeed and of calls a call is one record, or none, by the level of the latest setup.**  The
record reaches the console and the log file of that setup, which is there, and no other file.  A setup writes nothing
anywhere, and what is in a file at some time is there in front of whatever the file holds later. -/
theorem run_logs (S : Settings.Package) (hS : S.Documented) (P : Processing δ) (hP : P.Documented) (s : Session)
    (actions : List (Action δ)) (hok : ∀ r ∈ s.outcomes S P actions, r = none) :
    let s' := s.after S P actions
    (∀ env args, .setup env args ∈ actions → (s.latest? S P actions).isSome) ∧
    (∀ env x, s.latest? S P actions = some (env, x) → ∃ v, s'.Governed env x v ∧
      ∀ c : Call δ, (∀ t ∈ P.texts c, encodable t = true) →
        (s'.log P c).console = s'.console ++ linesUnder P env v c ∧
        ∀ l, bytesAt (s'.log P c).tree l = bytesAt s'.tree l ++
          if logFile? s'.tree x = some l then (linesUnder P env v c).flatMap Utf8.encode else []) ∧
    (∀ env args, (s'.configure S env args).1.console = s'.console ∧
      ∀ l, bytesAt (s'.configure S env args).1.tree l = bytesAt s'.tree l) ∧
    ∀ before, before <+: actions →
      Extends (s.after S P before).tree s'.tree ∧ (s.after S P before).console <+: s'.console := by
  intro s'
  refine ⟨fun env args hmem => isSome_latest? hok hmem, fun env x hlatest => ?_, fun env args => ?_, ?_⟩
  · have hstart : s.GovernedBy none := trivial
    obtain ⟨v, hgoverned⟩ : ∃ v, s'.Governed env x v := by
      have h := hstart.after actions hok
      rw [hlatest] at h
      exact h
    refine ⟨v, hgoverned, fun c hc => ?_⟩
    obtain ⟨hconsole, hfile⟩ := hgoverned.lines hP hc
    have hwrote := s'.log_wrote P c
    refine ⟨by rw [hwrote.console, hconsole], fun l => ?_⟩
    rw [hwrote.bytes, hfile]
    by_cases hl : logFile? s'.tree x = some l
    · have hthere : isFileAt s'.tree l = true := by
        have hsome : x.logFile.isSome := by
          obtain ⟨p, hp, -⟩ := Option.bind_eq_some_iff.1 hl
          rw [hp]
          rfl
        obtain ⟨l', hl', hfile'⟩ := hgoverned.file hsome
        cases hl.symm.trans hl'
        exact hfile'
      rw [if_pos hl, if_pos hl, if_pos hthere]
    · rw [if_neg hl, if_neg hl, List.flatMap_nil, ite_self]
  · obtain ⟨hconsole, -, hbytes⟩ := configure_writesNothing hS s' env args
    exact ⟨hconsole, hbytes⟩
  · rintro before ⟨later, rfl⟩
    have hextends := after_extends hS P later (s.after S P before)
    rw [← after_append] at hextends
    exact hextends

/-- Two setups that name the same file, at different levels, and calls that reach the levels or not. -/
theorem run_logs_sameFile :
    let s : Session := start ⟨⟨[(["w"], .directory)], by decide⟩, ["w"]⟩
    let file : Location := ["w", "a.log"]
    let call := fun v => (⟨"test", .plain v "m", "12:00"⟩ : Call Nat)
    let level : Settings.Environment := .ofList [("LOG_LEVEL", "error")]
    let actions : List (Action Nat) :=
      [.setup .empty (.ofList [("log_file", .text "a.log")]), .call (call .info),
        .setup level (.ofList [("log_file", .text ".//a.log")]), .call (call .info)]
    let s' := s.after .standard .standard actions
    let line : Text := "\x7b\"event\": \"m\", \"logger\": \"test\", \"level\": \"critical\", \"timestamp\": \"12:00\"\x7d\n"
    Settings.Package.standard.Documented ∧ (Processing.standard (δ := Nat)).Documented ∧
      (∀ r ∈ s.outcomes .standard .standard actions, r = none) ∧
      (s'.log .standard (call .critical)).console = s'.console ++ [line] ∧
      bytesAt (s'.log .standard (call .critical)).tree file = bytesAt s'.tree file ++ Utf8.encode line := by
  intro s file call level actions s' line
  have hok : ∀ r ∈ s.outcomes .standard .standard actions, r = none := by decide +kernel
  obtain ⟨-, hlogs, -⟩ := run_logs .standard Settings.Package.standard_documented .standard
    Processing.standard_documented s actions hok
  obtain ⟨env, x, hlatest, henv, hlevel, hfile⟩ : ∃ env x, s.latest? .standard .standard actions = some (env, x) ∧
      env = level ∧ Severity.ofName? x.logLevel.upper = some .error ∧ logFile? s'.tree x = some file := by
    have hall : (s.latest? .standard .standard actions).any (fun o => o.1 = level ∧
      Severity.ofName? o.2.logLevel.upper = some .error ∧ logFile? s'.tree o.2 = some file) := by decide +kernel
    obtain ⟨⟨env, x⟩, hlatest, hx⟩ := (Option.any_eq_true _ _).1 hall
    exact ⟨env, x, hlatest, of_decide_eq_true hx⟩
  obtain ⟨v, hgoverned, hcall⟩ := hlogs env x hlatest
  obtain rfl := Option.some.inj (hgoverned.level.symm.trans hlevel)
  have hlines : linesUnder .standard env .error (call .critical) = [line] := by
    rw [henv]
    decide +kernel
  obtain ⟨hconsole, hbytes⟩ := hcall (call .critical) (by decide +kernel)
  rw [hlines] at hconsole
  have hthere := hbytes file
  rw [if_pos hfile, hlines, List.flatMap_singleton] at hthere
  exact ⟨Settings.Package.standard_documented, Processing.standard_documented, hok, hconsole, hthere⟩

end Session
end Log
end Exposition
