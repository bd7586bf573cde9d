import Exposition.Log.Session
/-!
# Levels — by name

The names of levels are in upper case, so putting one in upper case changes nothing, and each is the name of one level
(`Severity.ofName?_eq_some_iff`).  A setup at a level that is found can fail at its log file only, and leaves the root logger
and all handlers at this level if it does not (`Session.level_of_apply`).
-/
namespace Exposition
namespace Log
namespace Severity

theorem exists_name_of_mem {n : Text} (h : n ∈ levelNames) : ∃ l : Severity, l.name = n := by
  have hnames : levelNames = all.map name := by decide
  rw [hnames, List.mem_map] at h
  obtain ⟨l, -, hl⟩ := h
  exact ⟨l, hl⟩

theorem upper_name (l : Severity) : l.name.upper = l.name := by
  cases l <;> decide

theorem ofName?_eq_some_iff {n : Text} {l : Severity} : ofName? n = some l ↔ n = l.name := by
  constructor
  · intro h
    rw [ofName?] at h
    have hname := List.find?_some h
    exact (of_decide_eq_true hname).symm
  · rintro rfl
    cases l <;> decide

/-- The level of a name is found in whatever case the name is looked up. -/
theorem exists_ofName?_of_mem {n : Text} (h : n ∈ levelNames) :
    ∃ l, ofName? n = some l ∧ ofName? n.upper = some l := by
  obtain ⟨l, rfl⟩ := exists_name_of_mem h
  exact ⟨l, ofName?_eq_some_iff.2 rfl, ofName?_eq_some_iff.2 l.upper_name⟩

end Severity

namespace Session

theorem level_of_openLogFile {t t' : Tree} {level : Nat} {p? : Option Path} {hs : List Handler}
    (h : openLogFile t level p? = .ok (t', hs)) : ∀ handler ∈ hs, handler.level = level := by
  cases p? with
  | none =>
    cases h
    exact nofun
  | some p =>
    rw [openLogFile] at h
    split at h
    · cases h
    · cases h
      simp

theorem level_of_apply (s : Session) (env : Settings.Environment) {x : Settings} {v : Severity}
    (hv : Severity.ofName? x.logLevel.upper = some v) :
    (∃ e, x.logFile ≠ none ∧ (s.apply env x).2 = some (.file e)) ∨
    ((s.apply env x).2 = none ∧ (s.apply env x).1.rootLevel = v.level ∧
      ∀ handler ∈ (s.apply env x).1.handlers, handler.level = v.level) := by
  unfold apply
  simp only [hv]
  cases hopen : openLogFile s.tree v.level x.logFile with
  | error e =>
    refine .inl ⟨e, fun hnone => ?_, rfl⟩
    rw [hnone] at hopen
    cases hopen
  | ok result =>
    obtain ⟨t', hs⟩ := result
    refine .inr ⟨rfl, rfl, fun handler hmem => ?_⟩
    rcases List.mem_append.1 hmem with hmem | hmem
    · exact level_of_openLogFile hopen handler hmem
    · rw [List.mem_singleton.1 hmem]

end Session
end Log
end Exposition
