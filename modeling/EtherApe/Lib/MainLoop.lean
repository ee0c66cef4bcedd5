import Mathlib.Data.List.Basic

/-!
# Sources of a main loop

The sources that a main loop calls. One that is running is not called again before it returns, and one that
is removed while it is running goes when it returns; its destroy notify is called when it goes. What the
sources call is up to their kinds.
-/

/-- A source, whether it is running, and whether it has been removed meanwhile. -/
structure Source (κ : Type*) where
  id : Nat
  kind : κ
  running : Bool
  removed : Bool

structure MainLoop (κ : Type*) where
  sources : List (Source κ)
  nextId : Nat

namespace MainLoop

variable {κ : Type*}

def empty : MainLoop κ := ⟨[], 1⟩

def find (loop : MainLoop κ) (id : Nat) : Option (Source κ) := loop.sources.find? fun source => source.id = id

def update (loop : MainLoop κ) (id : Nat) (f : Source κ → Source κ) : MainLoop κ :=
  { loop with sources := loop.sources.map fun source => if source.id = id then f source else source }

def drop (loop : MainLoop κ) (id : Nat) : MainLoop κ :=
  { loop with sources := loop.sources.filter fun source => source.id ≠ id }

def add (loop : MainLoop κ) (kind : κ) : Nat × MainLoop κ :=
  (loop.nextId,
    { sources := ⟨loop.nextId, kind, false, false⟩ :: loop.sources
      nextId := loop.nextId + 1 })

/-- Calls a source, which has to be there and not to be running. -/
def call (loop : MainLoop κ) (id : Nat) : Option (MainLoop κ) :=
  match loop.find id with
  | none => none
  | some source =>
      if source.running ∨ source.removed then none
      else some (loop.update id fun source => { source with running := true })

/-- Removes a source, with the kind of the destroy notify that is called now. -/
def remove (loop : MainLoop κ) (id : Nat) : Option κ × MainLoop κ :=
  match loop.find id with
  | none => (none, loop)
  | some source =>
      if source.removed then (none, loop)
      else if source.running then (none, loop.update id fun source => { source with removed := true })
      else (some source.kind, loop.drop id)

/-- A source returns, and goes if it has been removed or does not want to be called again. -/
def finish (loop : MainLoop κ) (id : Nat) (again : Bool) : Option κ × MainLoop κ :=
  match loop.find id with
  | none => (none, loop)
  | some source =>
      if source.removed ∨ again = false then (some source.kind, loop.drop id)
      else (none, loop.update id fun source => { source with running := false })

/-! ### A single source -/

variable {loop : MainLoop κ} {source : Source κ}

theorem find_single (h : loop.sources = [source]) (id : Nat) :
    loop.find id = if source.id = id then some source else none := by
  rw [find, h, List.find?_singleton]
  simp only [decide_eq_true_eq]

theorem update_single (h : loop.sources = [source]) {id : Nat} (hid : source.id = id)
    (f : Source κ → Source κ) : (loop.update id f).sources = [f source] := by
  rw [update, h, List.map_singleton, if_pos hid]

theorem drop_single (h : loop.sources = [source]) {id : Nat} (hid : source.id = id) :
    (loop.drop id).sources = [] := by
  rw [drop, h, List.filter_singleton, decide_eq_false (not_not_intro hid)]
  rfl

theorem add_empty (h : loop.sources = []) (kind : κ) :
    (loop.add kind).2.sources = [⟨(loop.add kind).1, kind, false, false⟩] := by
  rw [add, h]

theorem call_single (h : loop.sources = [source]) {id : Nat} {loop' : MainLoop κ}
    (hcall : loop.call id = some loop') : id = source.id ∧ source.running = false ∧ source.removed = false ∧
      loop'.sources = [{ source with running := true }] := by
  rw [call, find_single h] at hcall
  by_cases hid : source.id = id
  · rw [if_pos hid] at hcall
    dsimp only at hcall
    split at hcall
    · cases hcall
    next hrests =>
      obtain ⟨hrunning, hremoved⟩ := not_or.mp hrests
      refine ⟨hid.symm, eq_false_of_ne_true hrunning, eq_false_of_ne_true hremoved, ?_⟩
      rw [← Option.some.inj hcall]
      exact update_single h hid _
  · rw [if_neg hid] at hcall
    cases hcall

end MainLoop
