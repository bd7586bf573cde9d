import Exposition.Emission
import Mathlib.Data.List.Forall2
/-!
# Faults — steps that may fail, one after the other

A list of steps succeeds if each of them does (`mapM_eq_ok_iff`), and otherwise it fails as the first one that fails
(`faultOf_mapM`).
-/
namespace Exposition

variable {ε α β : Type}

def faultOf : Except ε α → Option ε
  | .ok _ => none
  | .error e => some e

theorem faultOf_eq_some_iff {x : Except ε α} {e : ε} : faultOf x = some e ↔ x = .error e := by
  cases x with
  | ok a => simp [faultOf]
  | error e' => simp [faultOf]

theorem faultOf_eq_none_iff {x : Except ε α} : faultOf x = none ↔ ∃ a, x = .ok a := by
  cases x with
  | ok a => simp [faultOf]
  | error e => simp [faultOf]

theorem orFault_eq_ok_iff {f : Fault} {x : Option α} {a : α} : orFault f x = .ok a ↔ x = some a := by
  cases x with
  | none => simp [orFault]
  | some b => simp [orFault]

theorem orFault_eq_error_iff {f g : Fault} {x : Option α} : orFault f x = .error g ↔ x = none ∧ g = f := by
  cases x with
  | none => simp [orFault, eq_comm]
  | some b => simp [orFault]

theorem map_eq_ok_iff {f : α → β} {x : Except ε α} {b : β} : x.map f = .ok b ↔ ∃ a, x = .ok a ∧ f a = b := by
  cases x with
  | ok a => simp [Except.map]
  | error e => simp [Except.map]

theorem map_eq_error_iff {f : α → β} {x : Except ε α} {e : ε} : x.map f = .error e ↔ x = .error e := by
  cases x with
  | ok a => simp [Except.map]
  | error e => simp [Except.map]

theorem faultOf_map (f : α → β) (x : Except ε α) : faultOf (x.map f) = faultOf x := by
  cases x with
  | ok a => rfl
  | error e => rfl

theorem faultOf_bind (x : Except ε α) (f : α → Except ε β) :
    faultOf (x >>= f) = match x with
      | .ok a => faultOf (f a)
      | .error e => some e := by
  cases x with
  | ok a => rfl
  | error e => rfl

/-- If the second step always fails alike, both fail as the first one or else as that one. -/
theorem faultOf_bind_of_forall {x : Except ε α} {f : α → Except ε β} {o : Option ε} (h : ∀ a, faultOf (f a) = o) :
    faultOf (x >>= f) = (faultOf x).or o := by
  rw [faultOf_bind]
  cases x with
  | ok a => exact h a
  | error e => rfl

theorem bind_eq_error_iff {x : Except ε α} {f : α → Except ε β} {e : ε} :
    x >>= f = .error e ↔ x = .error e ∨ ∃ a, x = .ok a ∧ f a = .error e := by
  cases x with
  | ok a =>
    constructor
    · intro h
      exact .inr ⟨a, rfl, h⟩
    · rintro (h | ⟨a', ha, h⟩)
      · cases h
      · cases ha
        exact h
  | error e' =>
    constructor
    · intro h
      cases h
      exact .inl rfl
    · rintro (h | ⟨a, ha, -⟩)
      · cases h
        rfl
      · cases ha

theorem bind_eq_ok_iff {x : Except ε α} {f : α → Except ε β} {b : β} :
    x >>= f = .ok b ↔ ∃ a, x = .ok a ∧ f a = .ok b := by
  cases x with
  | ok a =>
    constructor
    · intro h
      exact ⟨a, rfl, h⟩
    · rintro ⟨a', ha, h⟩
      cases ha
      exact h
  | error e =>
    constructor
    · intro h
      cases h
    · rintro ⟨a, ha, -⟩
      cases ha

theorem mapM_cons_eq_bind (f : α → Except ε β) (a : α) (l : List α) :
    (a :: l).mapM f = f a >>= fun b => l.mapM f >>= fun bs => .ok (b :: bs) := List.mapM_cons

/-- **Steps succeed together if each of them does.** -/
theorem mapM_eq_ok_iff {f : α → Except ε β} : ∀ {l : List α} {bs : List β},
    l.mapM f = .ok bs ↔ List.Forall₂ (fun a b => f a = .ok b) l bs
  | [], bs => by
    rw [List.forall₂_nil_left_iff]
    constructor
    · intro h
      cases h
      rfl
    · rintro rfl
      rfl
  | a :: l, bs => by
    rw [mapM_cons_eq_bind, bind_eq_ok_iff, List.forall₂_cons_left_iff]
    constructor
    · rintro ⟨b, hb, h⟩
      obtain ⟨bs', hbs, h'⟩ := bind_eq_ok_iff.1 h
      cases h'
      exact ⟨b, bs', hb, mapM_eq_ok_iff.1 hbs, rfl⟩
    · rintro ⟨b, bs', hb, hbs, rfl⟩
      exact ⟨b, hb, bind_eq_ok_iff.2 ⟨bs', mapM_eq_ok_iff.2 hbs, rfl⟩⟩

/-- **Steps fail as the first one that fails.** -/
theorem faultOf_mapM (f : α → Except ε β) : ∀ (l : List α), faultOf (l.mapM f) = l.findSome? (fun a => faultOf (f a))
  | [] => rfl
  | a :: l => by
    rw [mapM_cons_eq_bind, faultOf_bind, List.findSome?_cons, ← faultOf_mapM f l]
    cases f a with
    | error e => rfl
    | ok b =>
      cases l.mapM f with
      | error e => rfl
      | ok bs => rfl

theorem exists_mapM_eq_ok_iff {f : α → Except ε β} {l : List α} :
    (∃ bs, l.mapM f = .ok bs) ↔ ∀ a ∈ l, ∃ b, f a = .ok b := by
  rw [← faultOf_eq_none_iff, faultOf_mapM, List.findSome?_eq_none_iff]
  exact forall₂_congr fun a _ => faultOf_eq_none_iff

theorem mapM_append_eq_ok_iff {f : α → Except ε β} {l l' : List α} {cs : List β} :
    (l ++ l').mapM f = .ok cs ↔ ∃ bs bs', l.mapM f = .ok bs ∧ l'.mapM f = .ok bs' ∧ bs ++ bs' = cs := by
  rw [List.mapM_append, bind_eq_ok_iff]
  constructor
  · rintro ⟨bs, hbs, h⟩
    obtain ⟨bs', hbs', h⟩ := bind_eq_ok_iff.1 h
    cases h
    exact ⟨bs, bs', hbs, hbs', rfl⟩
  · rintro ⟨bs, bs', hbs, hbs', rfl⟩
    exact ⟨bs, hbs, bind_eq_ok_iff.2 ⟨bs', hbs', rfl⟩⟩

/-- What steps keep of each thing they keep of all. -/
theorem map_eq_map_of_mapM {γ : Type} {f : α → Except ε β} {g : α → γ} {h : β → γ}
    (hgh : ∀ a b, f a = .ok b → h b = g a) : ∀ {l : List α} {bs : List β}, l.mapM f = .ok bs → bs.map h = l.map g
  | [], bs, hl => by
    cases hl
    rfl
  | a :: l, bs, hl => by
    obtain ⟨b, bs', hb, hbs, rfl⟩ := List.forall₂_cons_left_iff.1 (mapM_eq_ok_iff.1 hl)
    rw [List.map_cons, List.map_cons, hgh a b hb, map_eq_map_of_mapM hgh (mapM_eq_ok_iff.2 hbs)]

theorem exists_of_mem_of_mapM {f : α → Except ε β} : ∀ {l : List α} {bs : List β}, l.mapM f = .ok bs →
    ∀ b ∈ bs, ∃ a ∈ l, f a = .ok b
  | [], bs, h, b, hb => by
    cases h
    cases hb
  | a :: l, bs, h, b, hb => by
    obtain ⟨b', bs', hb', hbs, rfl⟩ := List.forall₂_cons_left_iff.1 (mapM_eq_ok_iff.1 h)
    rcases List.mem_cons.1 hb with rfl | hb
    · exact ⟨a, List.mem_cons_self, hb'⟩
    · obtain ⟨a', ha', h'⟩ := exists_of_mem_of_mapM (mapM_eq_ok_iff.2 hbs) b hb
      exact ⟨a', List.mem_cons_of_mem a ha', h'⟩

theorem exists_of_mapM_of_mem {f : α → Except ε β} : ∀ {l : List α} {bs : List β}, l.mapM f = .ok bs →
    ∀ a ∈ l, ∃ b ∈ bs, f a = .ok b
  | [], _, _, _, ha => by cases ha
  | a :: l, bs, h, a', ha' => by
    obtain ⟨b, bs', hb, hbs, rfl⟩ := List.forall₂_cons_left_iff.1 (mapM_eq_ok_iff.1 h)
    rcases List.mem_cons.1 ha' with rfl | ha'
    · exact ⟨b, List.mem_cons_self, hb⟩
    · obtain ⟨b', hb', h'⟩ := exists_of_mapM_of_mem (mapM_eq_ok_iff.2 hbs) a' ha'
      exact ⟨b', List.mem_cons_of_mem b hb', h'⟩

theorem pairwise_of_mapM {f : α → Except ε β} {R : α → α → Prop} {S : β → β → Prop}
    (hRS : ∀ a a' b b', R a a' → f a = .ok b → f a' = .ok b' → S b b') :
    ∀ {l : List α} {bs : List β}, l.mapM f = .ok bs → l.Pairwise R → bs.Pairwise S
  | [], bs, h, _ => by
    cases h
    exact List.Pairwise.nil
  | a :: l, bs, h, hl => by
    obtain ⟨b, bs', hb, hbs, rfl⟩ := List.forall₂_cons_left_iff.1 (mapM_eq_ok_iff.1 h)
    have hrest := mapM_eq_ok_iff.2 hbs
    obtain ⟨ha, hl'⟩ := List.pairwise_cons.1 hl
    refine List.pairwise_cons.2 ⟨fun b' hb' => ?_, pairwise_of_mapM hRS hrest hl'⟩
    obtain ⟨a', ha', hfa'⟩ := exists_of_mem_of_mapM hrest b' hb'
    exact hRS a a' b b' (ha a' ha') hb hfa'

/-- If all that fails fails alike, so does the first. -/
theorem findSome?_eq_some_of_forall {f : α → Option β} {l : List α} {b : β} (hex : ∃ a ∈ l, f a = some b)
    (h : ∀ a ∈ l, f a = none ∨ f a = some b) : l.findSome? f = some b := by
  obtain ⟨a, ha, hb⟩ := hex
  have hsome : (l.findSome? f).isSome = true := List.findSome?_isSome_iff.2 ⟨a, ha, by rw [hb]; rfl⟩
  obtain ⟨b', hb'⟩ := Option.isSome_iff_exists.1 hsome
  obtain ⟨a', ha', hfirst⟩ := List.exists_of_findSome?_eq_some hb'
  rcases h a' ha' with hnone | halike
  · rw [hnone] at hfirst
    cases hfirst
  · rw [hb', ← hfirst, halike]

end Exposition
