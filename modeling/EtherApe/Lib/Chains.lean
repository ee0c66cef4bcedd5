import Mathlib.Data.List.Basic
import Mathlib.Logic.Function.Basic

/-!
# Hash tables with chains

A table of buckets, each a chain that grows at its end and is searched from its start. Whatever the hash
function, the first record that was added for a key is the one that is found. A table whose records all
hold the value of a function of their keys is a cache of that function.
-/

namespace Chains

variable {ε κ β : Type*} [DecidableEq κ] (key : ε → κ) (hash : κ → β)

def empty : β → List ε := fun _ => []

/-- The first record of its chain that has the key. -/
def lookup (table : β → List ε) (k : κ) : Option ε := (table (hash k)).find? fun e => key e = k

theorem lookup_empty (k : κ) : lookup key hash (empty : β → List ε) k = none := rfl

def add [DecidableEq β] (table : β → List ε) (e : ε) : β → List ε :=
  Function.update table (hash (key e)) (table (hash (key e)) ++ [e])

theorem lookup_add [DecidableEq β] (table : β → List ε) (e : ε) (k : κ) :
    lookup key hash (add key hash table e) k =
      (lookup key hash table k).or (if key e = k then some e else none) := by
  rw [lookup, add, lookup]
  by_cases hbucket : hash k = hash (key e)
  · rw [hbucket, Function.update_self, List.find?_append, List.find?_singleton]
    by_cases hkey : key e = k <;> simp [hkey]
  · have hkey : key e ≠ k := fun h => hbucket (congrArg hash h.symm)
    rw [Function.update_of_ne hbucket, if_neg hkey, Option.or_none]

theorem lookup_foldl_add [DecidableEq β] (table : β → List ε) (es : List ε) (k : κ) :
    lookup key hash (es.foldl (add key hash) table) k =
      (lookup key hash table k).or (es.find? fun e => key e = k) := by
  induction es generalizing table with
  | nil => exact Option.or_none.symm
  | cons e es ih =>
      rw [List.foldl_cons, ih, lookup_add, Option.or_assoc, List.find?_cons]
      by_cases hkey : key e = k
      · simp [hkey]
      · simp [hkey]

section Cache

variable {ν : Type*} (value : ε → ν) (f : κ → ν)

/-- Every record that is found holds the value of its key. -/
def Caches (table : β → List ε) : Prop :=
  ∀ k e, lookup key hash table k = some e → value e = f k

theorem Caches.empty : Caches key hash value f (Chains.empty : β → List ε) := by
  intro k e h
  exact absurd h (Option.some_ne_none e).symm

theorem Caches.add [DecidableEq β] {table : β → List ε} (h : Caches key hash value f table) {e : ε}
    (he : value e = f (key e)) : Caches key hash value f (add key hash table e) := by
  intro k found hfound
  rw [lookup_add, Option.or_eq_some_iff] at hfound
  rcases hfound with hold | ⟨_, hnew⟩
  · exact h k found hold
  · by_cases hkey : key e = k
    · rw [if_pos hkey] at hnew
      rw [← Option.some.inj hnew, ← hkey]
      exact he
    · rw [if_neg hkey] at hnew
      exact absurd hnew (Option.some_ne_none found).symm

end Cache

end Chains
