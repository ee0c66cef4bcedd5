import Mathlib.Data.Set.Finite.Basic
import Mathlib.Data.Fintype.Pigeonhole

/-!
# Loops that go from place to place

A loop that takes one step after another until a step says that it is over. Among finitely many places
it ends just when it never comes back to a place where it has been.
-/

namespace Iteration

variable {α : Type*} (step : α → Option α)

/-- The place after `n` steps, if the loop is not over before. -/
def after : Nat → α → Option α
  | 0, x => some x
  | n + 1, x => (step x).bind (after n)

def Ends (x : α) : Prop := ∃ n, after step n x = none

/-- The loop comes to `y`. -/
def Visits (x y : α) : Prop := ∃ n, after step n x = some y

/-- The loop comes to a place to which it comes back. -/
def Circles (x : α) : Prop := ∃ y, Visits step x y ∧ ∃ n, after step (n + 1) y = some y

variable {step} {x y : α} {m n : Nat}

theorem visits_refl (x : α) : Visits step x x := ⟨0, rfl⟩

theorem after_add (m n : Nat) (x : α) :
    after step (m + n) x = (after step m x).bind (after step n) := by
  induction m generalizing x with
  | zero => rw [Nat.zero_add, after, Option.bind_some]
  | succ m ih =>
      rw [Nat.succ_add, after, after, Option.bind_assoc]
      exact congrArg _ (funext ih)

theorem after_none_mono (hle : m ≤ n) (h : after step m x = none) : after step n x = none := by
  obtain ⟨k, rfl⟩ := Nat.exists_eq_add_of_le hle
  rw [after_add, h, Option.bind_none]

theorem Ends.of_visits (h : Ends step x) (hxy : Visits step x y) : Ends step y := by
  obtain ⟨n, hn⟩ := h
  obtain ⟨m, hm⟩ := hxy
  have hlater := after_none_mono (Nat.le_add_left n m) hn
  rw [after_add, hm, Option.bind_some] at hlater
  exact ⟨n, hlater⟩

theorem after_circle (h : after step (n + 1) y = some y) (k : Nat) :
    after step (k * (n + 1)) y = some y := by
  induction k with
  | zero => rw [Nat.zero_mul, after]
  | succ k ih => rw [Nat.succ_mul, after_add, ih, Option.bind_some, h]

/-- **Ends of loops.** -/
theorem ends_iff_not_circles (hfinite : {y | Visits step x y}.Finite) :
    Ends step x ↔ ¬Circles step x := by
  constructor
  · rintro hends ⟨y, hy, n, hcircle⟩
    obtain ⟨m, hm⟩ := hends.of_visits hy
    have hround := after_circle hcircle m
    rw [after_none_mono (Nat.le_mul_of_pos_right m (Nat.succ_pos n)) hm] at hround
    cases hround
  · intro hcircles
    by_contra hends
    have hsome : ∀ n, ∃ y, after step n x = some y := fun n =>
      Option.ne_none_iff_exists'.mp fun hnone => hends ⟨n, hnone⟩
    choose place hplace using hsome
    have hmaps : Set.MapsTo place Set.univ {y | Visits step x y} := fun n _ => ⟨n, hplace n⟩
    obtain ⟨i, _, j, _, hne, heq⟩ :=
      Set.infinite_univ.exists_ne_map_eq_of_mapsTo hmaps hfinite
    have hback : ∀ {i j : Nat}, i < j → place i = place j → Circles step x := by
      intro i j hlt heq
      obtain ⟨d, rfl⟩ := Nat.exists_eq_add_of_lt hlt
      have hj := hplace (i + d + 1)
      rw [Nat.add_assoc, after_add, hplace i, Option.bind_some, ← Nat.add_assoc, ← heq] at hj
      exact ⟨place i, ⟨i, hplace i⟩, d, hj⟩
    rcases Nat.lt_or_gt_of_ne hne with hlt | hgt
    · exact hcircles (hback hlt heq)
    · exact hcircles (hback hgt heq.symm)

end Iteration
