/-!
Lists that are put together from the parts of a container, when one part of the container is
replaced. What the new part contributes takes the place of what the old one did, so that counting
needs no other part.
-/

open scoped List

namespace BufferObjects

variable {α β : Type}

/-- Replacing one element exchanges its contribution. -/
theorem flatMap_set_perm (g : α → List β) (y : α) {xs : List α} {i : Nat} (h : i < xs.length) :
    g y ++ xs.flatMap g ~ g xs[i] ++ (xs.set i y).flatMap g := by
  induction xs generalizing i with
  | nil => simp at h
  | cons x xs ih =>
    cases i with
    | zero =>
      simp only [List.flatMap_cons, List.set_cons_zero, List.getElem_cons_zero]
      exact List.perm_append_comm_assoc ..
    | succ i =>
      simp only [List.flatMap_cons, List.set_cons_succ, List.getElem_cons_succ]
      have hi : i < xs.length := by simpa using h
      calc
        g y ++ (g x ++ xs.flatMap g) ~ g x ++ (g y ++ xs.flatMap g) :=
          List.perm_append_comm_assoc ..
        _ ~ g x ++ (g xs[i] ++ (xs.set i y).flatMap g) := (ih hi).append_left _
        _ ~ g xs[i] ++ (g x ++ (xs.set i y).flatMap g) := List.perm_append_comm_assoc ..

end BufferObjects
