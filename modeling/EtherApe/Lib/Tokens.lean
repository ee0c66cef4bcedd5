import Mathlib.Data.List.Basic

/-!
# Tokens

A string that is split at separators, with the empty pieces left out. When the string goes on, its tokens
stay what they are; only the last one may grow.
-/

/-- The longest runs without a separator. -/
def splitTokens {α : Type*} (p : α → Bool) (l : List α) : List (List α) :=
  (l.splitOnP p).filter fun piece => !piece.isEmpty

section Tokens

variable {α : Type*} {p : α → Bool} {xs ys : List α}

theorem splitOnP_append_of_forall (h : ∀ x ∈ xs, p x = false) (ys : List α) :
    (xs ++ ys).splitOnP p = (ys.splitOnP p).modifyHead (xs ++ ·) := by
  induction xs with
  | nil =>
      show ys.splitOnP p = (ys.splitOnP p).modifyHead id
      rw [List.modifyHead_id]
      rfl
  | cons x xs ih =>
      rw [List.forall_mem_cons] at h
      rw [List.cons_append, List.splitOnP_cons_eq_if_modifyHead, h.1, if_neg Bool.false_ne_true,
        ih h.2, List.modifyHead_modifyHead]
      rfl

theorem splitOnP_append (p : α → Bool) (xs ys : List α) :
    ∃ init last, xs.splitOnP p = init ++ [last] ∧ (∀ x ∈ last, p x = false) ∧
      (xs ++ ys).splitOnP p = init ++ (last ++ ys).splitOnP p := by
  induction xs with
  | nil => exact ⟨[], [], List.splitOnP_nil, by simp, rfl⟩
  | cons x xs ih =>
      obtain ⟨init, last, hxs, hlast, happend⟩ := ih
      rw [List.cons_append, List.splitOnP_cons_eq_if_modifyHead,
        List.splitOnP_cons_eq_if_modifyHead, happend, hxs]
      by_cases hx : p x
      · rw [if_pos hx, if_pos hx]
        exact ⟨[] :: init, last, rfl, hlast, rfl⟩
      · have hx' : p x = false := Bool.not_eq_true _ ▸ hx
        rw [if_neg hx, if_neg hx]
        cases init with
        | nil =>
            refine ⟨[], x :: last, rfl, List.forall_mem_cons.mpr ⟨hx', hlast⟩, ?_⟩
            rw [List.nil_append, List.nil_append, List.cons_append,
              List.splitOnP_cons_eq_if_modifyHead, if_neg hx]
        | cons piece init => exact ⟨(x :: piece) :: init, last, rfl, hlast, rfl⟩

/-- A token in front of the first separator. -/
theorem splitTokens_append_cons (h : ∀ x ∈ xs, p x = false) (hne : xs ≠ []) {sep : α} (hsep : p sep)
    (ys : List α) : splitTokens p (xs ++ sep :: ys) = xs :: splitTokens p ys := by
  unfold splitTokens
  rw [List.splitOnP_append_cons_of_forall_mem h sep hsep, List.filter_cons_of_pos]
  simpa using hne

theorem splitTokens_of_forall (h : ∀ x ∈ xs, p x = false) : (splitTokens p xs).length ≤ 1 := by
  unfold splitTokens
  rw [List.splitOnP_eq_singleton h]
  exact List.length_filter_le _ _

/-- A token stays when the string goes on, or it is the last one and grows. -/
theorem splitTokens_append {y : α} (hy : p y = false) {i : Nat} {token : List α}
    (h : (splitTokens p xs)[i]? = some token) :
    ∃ token', (splitTokens p (xs ++ y :: ys))[i]? = some token' ∧
      (token' = token ∨ ∃ more, token' = token ++ y :: more) := by
  obtain ⟨init, last, hxs, hlast, happend⟩ := splitOnP_append p xs (y :: ys)
  obtain ⟨piece, rest, hys⟩ := List.exists_cons_of_ne_nil (List.splitOnP_ne_nil p ys)
  have hgrown : (last ++ y :: ys).splitOnP p = (last ++ y :: piece) :: rest := by
    rw [splitOnP_append_of_forall hlast, List.splitOnP_cons_eq_if_modifyHead, hy,
      if_neg Bool.false_ne_true, hys]
    rfl
  unfold splitTokens at h ⊢
  rw [hxs, List.filter_append] at h
  rw [happend, hgrown, List.filter_append, List.filter_cons_of_pos (by simp)]
  by_cases hi : i < (init.filter fun piece => !piece.isEmpty).length
  · rw [List.getElem?_append_left hi] at h ⊢
    exact ⟨token, h, Or.inl rfl⟩
  · rw [List.getElem?_append_right (Nat.le_of_not_lt hi)] at h ⊢
    have hlen := List.length_filter_le (fun piece : List α => !piece.isEmpty) [last]
    obtain ⟨hindex, htoken⟩ := List.getElem?_eq_some_iff.mp h
    have hzero : i - (init.filter fun piece => !piece.isEmpty).length = 0 := by
      rw [List.length_singleton] at hlen
      omega
    have hmem : token ∈ [last] := by
      rw [← htoken]
      exact List.mem_of_mem_filter (List.getElem_mem hindex)
    rw [hzero, List.mem_singleton.mp hmem]
    exact ⟨_, rfl, Or.inr ⟨piece, rfl⟩⟩

end Tokens
