import Mathlib.Data.List.Basic
import Exposition.Log.Standard
/-!
# The standard package — what it renders can be written down

A text can be written down if each of its characters can (`encodable_iff`), so what is put together of such
texts can.  The fields of an entry are texts of the call and a few words, and the standard package does what is
relied on (`standard_documented`).
-/
namespace Exposition
namespace Log

theorem encodable_iff {t : Text} : encodable t = true ↔ ∀ c ∈ t, c.isSurrogate = false := by
  rw [encodable, Bool.not_eq_true', List.any_eq_false]
  exact forall₂_congr fun c _ => by rw [Bool.not_eq_true]

theorem encodable_append {t t' : Text} (h : encodable t = true) (h' : encodable t' = true) :
    encodable (t ++ t') = true := by
  rw [encodable_iff] at h h' ⊢
  intro c hc
  exact (List.mem_append.1 hc).elim (h c) (h' c)

theorem encodable_flatten {ts : List Text} (h : ∀ t ∈ ts, encodable t = true) : encodable ts.flatten = true := by
  rw [encodable_iff]
  intro c hc
  obtain ⟨t, ht, hc⟩ := List.mem_flatten.1 hc
  exact encodable_iff.1 (h t ht) c hc

theorem encodable_intercalate {sep : Text} (hsep : encodable sep = true) {ts : List Text}
    (h : ∀ t ∈ ts, encodable t = true) : encodable (sep.intercalate ts) = true := by
  induction ts with
  | nil => rfl
  | cons t ts ih =>
    have htail := ih fun t ht => h t (List.mem_cons_of_mem _ ht)
    have hhead := h t List.mem_cons_self
    cases ts with
    | nil => exact List.intercalate_singleton.symm ▸ hhead
    | cons t' ts =>
      rw [List.intercalate_cons_cons]
      exact encodable_append (encodable_append hhead hsep) htail

namespace Processing

variable {δ : Type}

namespace Fields

/-- All that an entry holds can be written down. -/
structure Encodable (e : Fields) : Prop where
  field : ∀ f ∈ e.fields, encodable f.1 = true ∧ encodable f.2 = true
  rendered : ∀ t, e.rendered = some t → encodable t = true

variable {e : Fields}

theorem Encodable.add (h : e.Encodable) {name value : Text} (hname : encodable name = true)
    (hvalue : encodable value = true) : (e.add name value).Encodable := by
  refine ⟨fun f hf => ?_, h.rendered⟩
  rcases List.mem_append.1 hf with hf | hf
  · exact h.field f hf
  · obtain rfl := List.mem_singleton.1 hf
    exact ⟨hname, hvalue⟩

theorem encodable_quoted {t : Text} (h : encodable t = true) : encodable (quoted t) = true := by
  have hinner : encodable (t.flatMap fun c =>
      if [c] = ("\"" : Text) ∨ [c] = ("\\" : Text) then ("\\" : Text) ++ [c] else [c]) = true := by
    rw [encodable_iff] at h ⊢
    intro c hc
    obtain ⟨c', hc', hc⟩ := List.mem_flatMap.1 hc
    split at hc
    · rcases List.mem_append.1 hc with hc | hc
      · exact encodable_iff.1 (by decide : encodable "\\" = true) c hc
      · exact List.mem_singleton.1 hc ▸ h c' hc'
    · exact List.mem_singleton.1 hc ▸ h c' hc'
  exact encodable_append (encodable_append (by decide) hinner) (by decide)

theorem Encodable.asData (h : e.Encodable) : encodable e.asData = true := by
  have hfields : ∀ t ∈ e.fields.map fun f => quoted f.1 ++ (": " : Text) ++ quoted f.2, encodable t = true := by
    intro t ht
    obtain ⟨f, hf, rfl⟩ := List.mem_map.1 ht
    obtain ⟨hname, hvalue⟩ := h.field f hf
    exact encodable_append (encodable_append (encodable_quoted hname) (by decide)) (encodable_quoted hvalue)
  exact encodable_append (encodable_append (by decide) (encodable_intercalate (by decide) hfields)) (by decide)

theorem Encodable.value (h : e.Encodable) (name : Text) : encodable (e.value name) = true := by
  rw [Fields.value]
  cases hlookup : e.fields.lookup name with
  | none => decide
  | some v =>
    obtain ⟨before, after, hfields, -⟩ := List.lookup_eq_some_iff.1 hlookup
    exact (h.field (name, v) (hfields ▸ List.mem_append_right _ List.mem_cons_self)).2

theorem encodable_padded {t : Text} (h : encodable t = true) (n : Nat) : encodable (padded n t) = true := by
  refine encodable_append h (encodable_flatten fun s hs => ?_)
  rw [List.eq_of_mem_replicate hs]
  decide

theorem Encodable.render (h : e.Encodable) (r : Rendering) : encodable (e.render r) = true := by
  cases r with
  | data => exact h.asData
  | development =>
    have hpadded := fun n name => encodable_padded (h.value name) n
    exact encodable_append (encodable_append (encodable_append (encodable_append (encodable_append (encodable_append
      (encodable_append (h.value _) (by decide)) (hpadded 9 _)) (by decide)) (hpadded 30 _)) (by decide))
      (h.value _)) (by decide)

end Fields

/-- What the standard package comes to from a call of texts that can be written down can be. -/
theorem encodable_of_reaches {c : Call δ} (hc : ∀ t ∈ (standard (δ := δ)).texts c, encodable t = true)
    {e : (standard (δ := δ)).Entry} (h : Reaches standard c e) : Fields.Encodable e := by
  have hlogger : encodable c.logger = true := hc _ List.mem_cons_self
  have htime : encodable c.time = true := hc _ (List.mem_cons_of_mem _ List.mem_cons_self)
  have htitle : encodable c.event.title = true := by
    cases hevent : c.event with
    | plain v m => exact hc m (by simp [texts, hevent])
    | documentWritten | errorMet | metricsFileWritten | metricsFileFailed => rfl
  have hword : encodable c.event.severity.word = true := by cases c.event.severity <;> decide
  induction h with
  | entry =>
    refine ⟨fun f hf => ?_, nofun⟩
    obtain rfl := List.mem_singleton.1 hf
    exact ⟨rfl, htitle⟩
  | @process p enabled e e' _ hp he =>
    cases p with
    | filterByLevel =>
      cases enabled with
      | true => exact Option.some.inj hp ▸ he
      | false => cases hp
    | addLoggerName =>
      obtain rfl := Option.some.inj hp
      refine he.add (by decide) ?_
      split
      · decide
      · exact hlogger
    | addLogLevel => exact Option.some.inj hp ▸ he.add (by decide) hword
    | addTime => exact Option.some.inj hp ▸ he.add (by decide) htime
    | addStack => exact Option.some.inj hp ▸ he
    | formatException => exact Option.some.inj hp ▸ he
    | render r =>
      obtain rfl := Option.some.inj hp
      exact ⟨he.field, fun t ht => Option.some.inj ht ▸ he.render r⟩

/-- **The standard package does what is relied on.** -/
theorem standard_documented : (standard (δ := δ)).Documented where
  passes := rfl
  drops := rfl
  keeps {p c e} hp := by
    cases p with
    | filterByLevel => exact absurd rfl hp
    | _ => exact ⟨_, fun _ => rfl⟩
  renders {r enabled c e e'} h := by
    obtain rfl := Option.some.inj h
    exact ⟨_, rfl⟩
  encodes hc h ht := (encodable_of_reaches hc h).rendered _ ht

end Processing
end Log
end Exposition
