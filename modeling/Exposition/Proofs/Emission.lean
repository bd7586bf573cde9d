import Exposition.Emission
/-!
# Emissions — what is written and what breaks off

An emission behind one that ends in a fault is lost; behind any other it adds its text and its fault.
-/
namespace Exposition
namespace Emission

@[simp] theorem fault_ofPieces (ps : List Text) : (ofPieces ps).fault = none := rfl

@[simp] theorem text_ofPieces (ps : List Text) : (ofPieces ps).text = ps.flatten := rfl

theorem append_of_fault {a : Emission} {f : Fault} (h : a.fault = some f) (b : Emission) : a ++ b = a := by
  rw [append_def, append, h]

theorem fault_append (a b : Emission) : (a ++ b).fault = a.fault.or b.fault := by
  obtain ⟨ps, f⟩ := a
  cases f with
  | none => rfl
  | some f => rfl

theorem fault_append_of_none {a : Emission} (h : a.fault = none) (b : Emission) : (a ++ b).fault = b.fault := by
  rw [fault_append, h, Option.none_or]

theorem fault_append_eq_none_iff {a b : Emission} : (a ++ b).fault = none ↔ a.fault = none ∧ b.fault = none := by
  rw [fault_append, Option.or_eq_none_iff]

theorem pieces_append_of_none {a : Emission} (h : a.fault = none) (b : Emission) :
    (a ++ b).pieces = a.pieces ++ b.pieces := by
  rw [append_def, append, h]

theorem text_append_of_none {a : Emission} (h : a.fault = none) (b : Emission) :
    (a ++ b).text = a.text ++ b.text := by
  rw [text, pieces_append_of_none h]
  exact List.flatten_append

theorem concat_cons (e : Emission) (es : List Emission) : concat (e :: es) = e ++ concat es := rfl

theorem concat_append : ∀ (es es' : List Emission), concat (es ++ es') = concat es ++ concat es'
  | [], es' => (empty_append (concat es')).symm
  | e :: es, es' => by
    rw [List.cons_append, concat_cons, concat_cons, concat_append es es', append_assoc]

/-- Emissions one after the other end in the first fault among them. -/
theorem fault_concat : ∀ (es : List Emission), (concat es).fault = es.findSome? Emission.fault
  | [] => rfl
  | e :: es => by
    rw [concat_cons, fault_append, fault_concat es, List.findSome?_cons]
    cases e.fault with
    | none => rfl
    | some f => rfl

end Emission
end Exposition
