import Mathlib.Data.List.Nodup

/-!
# Timeouts of a main loop

The timeouts that wait in a main loop, each under an id that no other has had. Only what becomes of
the ids is kept; when a timeout fires is up to the loop.
-/

/-- A timeout with the milliseconds it was set to. -/
structure Timeout where
  id : Nat
  interval : Nat
deriving DecidableEq, Repr

/-- The timeouts that are pending, the last one first. -/
structure Timeouts where
  pending : List Timeout
  nextId : Nat
  nodup : (pending.map Timeout.id).Nodup
  lt_nextId : ∀ t ∈ pending, t.id < nextId

namespace Timeouts

def empty : Timeouts := ⟨[], 1, List.nodup_nil, by simp⟩

/-- Whether a timeout is pending under an id. -/
def Pending (ts : Timeouts) (id : Nat) : Prop := ∃ t ∈ ts.pending, t.id = id

instance (ts : Timeouts) (id : Nat) : Decidable (ts.Pending id) :=
  inferInstanceAs (Decidable (∃ t ∈ ts.pending, t.id = id))

def add (ts : Timeouts) (interval : Nat) : Nat × Timeouts :=
  (ts.nextId,
    { pending := ⟨ts.nextId, interval⟩ :: ts.pending
      nextId := ts.nextId + 1
      nodup := by
        rw [List.map_cons, List.nodup_cons]
        refine ⟨fun hmem => ?_, ts.nodup⟩
        obtain ⟨t, ht, hid⟩ := List.mem_map.mp hmem
        exact Nat.ne_of_lt (ts.lt_nextId t ht) hid
      lt_nextId := by
        intro t ht
        rcases List.mem_cons.mp ht with rfl | ht
        · exact Nat.lt_succ_self _
        · exact Nat.lt_succ_of_lt (ts.lt_nextId t ht) })

def remove (ts : Timeouts) (id : Nat) : Timeouts where
  pending := ts.pending.filter (·.id ≠ id)
  nextId := ts.nextId
  nodup := ts.nodup.sublist (List.filter_sublist.map _)
  lt_nextId t ht := ts.lt_nextId t (List.mem_of_mem_filter ht)

/-- At most one timeout is pending, and it is the one with the given id. -/
def Only (ts : Timeouts) (id : Nat) : Prop := ts.pending.length ≤ 1 ∧ ∀ t ∈ ts.pending, t.id = id

variable {ts : Timeouts} {id id' interval : Nat}

@[simp] theorem add_fst : (ts.add interval).1 = ts.nextId := rfl

@[simp] theorem add_pending :
    (ts.add interval).2.pending = ⟨ts.nextId, interval⟩ :: ts.pending := rfl

theorem only_of_idle (h : ts.pending = []) : ts.Only id := by
  simp [Only, h]

theorem only_add (h : ts.pending = []) : (ts.add interval).2.Only (ts.add interval).1 := by
  simp [Only, h]

theorem Only.idle_of_add (h : (ts.add interval).2.Only id) : ts.pending = [] := by
  have hlen := h.1
  rw [add_pending, List.length_cons] at hlen
  exact List.eq_nil_of_length_eq_zero (by omega)

theorem Only.remove_pending (h : ts.Only id) (hid : ts.Pending id') :
    (ts.remove id').pending = [] := by
  obtain ⟨t, ht, rfl⟩ := hid
  rw [remove, List.filter_eq_nil_iff]
  intro t' ht'
  have hsame : t'.id = t.id := (h.2 t' ht').trans (h.2 t ht).symm
  simp [hsame]

end Timeouts
