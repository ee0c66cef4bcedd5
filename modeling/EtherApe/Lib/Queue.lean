import EtherApe.Lib.Linked

/-!
# Queues with a head and a tail

Records that each point to the next one: they are appended behind the tail and taken at the head.
-/

section

variable {ρ α : Type} {next : α → Option ρ} {h h' : Heap ρ α} {p : Option ρ}
  {rs : List ρ} {r t : ρ} {a : α}

/-- The records `rs` follow each other from `p`, and the last points nowhere. -/
def Linked (next : α → Option ρ) (h : Heap ρ α) : Option ρ → List ρ → Prop
  | p, [] => p = none
  | p, r :: rs => p = some r ∧ ∃ a, h r = some a ∧ Linked next h (next a) rs

namespace Linked

theorem head_eq (hrs : Linked next h p rs) : p = rs.head? := by
  cases rs with
  | nil => exact hrs
  | cons r rs => exact hrs.1

theorem follow_eq {n : Nat} (hrs : Linked next h p rs) (hn : rs.length ≤ n) :
    h.follow next n p = rs := by
  induction rs generalizing p n with
  | nil =>
      obtain rfl : p = none := hrs
      cases n <;> rfl
  | cons r rs ih =>
      obtain ⟨rfl, a, ha, hrest⟩ := hrs
      obtain ⟨n, rfl⟩ : ∃ m, n = m + 1 := ⟨n - 1, by simp only [List.length_cons] at hn; omega⟩
      rw [Heap.follow, ha, Option.bind_some, ih hrest (by simpa using hn)]

theorem last_next (hrs : Linked next h p rs) (hlast : rs.getLast? = some t) :
    ∃ a, h t = some a ∧ next a = none := by
  induction rs generalizing p with
  | nil => cases hlast
  | cons u us ih =>
      obtain ⟨_, a, ha, hrest⟩ := hrs
      cases us with
      | nil =>
          obtain rfl : u = t := Option.some.inj hlast
          exact ⟨a, ha, hrest⟩
      | cons v vs =>
          rw [List.getLast?_cons_cons] at hlast
          exact ih hrest hlast

theorem congr (hrs : Linked next h p rs) (hheap : ∀ r ∈ rs, h' r = h r) : Linked next h' p rs := by
  induction rs generalizing p with
  | nil => exact hrs
  | cons t ts ih =>
      obtain ⟨hp, a, ha, hrest⟩ := hrs
      refine ⟨hp, a, ?_, ih hrest fun r hr => hheap r (List.mem_cons_of_mem t hr)⟩
      rw [hheap t (List.mem_cons_self ..), ha]

theorem singleton (ha : h r = some a) (hnext : next a = none) : Linked next h (some r) [r] :=
  ⟨rfl, a, ha, hnext⟩

variable [DecidableEq ρ]

theorem tail_free (hrs : Linked next h p (r :: rs)) (hnodup : (r :: rs).Nodup) (ha : h r = some a) :
    Linked next (h.free r) (next a) rs := by
  obtain ⟨_, b, hb, hrest⟩ := hrs
  obtain rfl : a = b := Option.some.inj (ha.symm.trans hb)
  refine hrest.congr fun t ht => Function.update_of_ne ?_ _ _
  rintro rfl
  exact (List.nodup_cons.mp hnodup).1 ht

theorem append {f : α → α} (hrs : Linked next h p rs) (hnodup : rs.Nodup) (hnew : r ∉ rs)
    (ha : h r = some a) (hnext : next a = none) (htail : rs.getLast? = some t)
    (hf : ∀ b, next (f b) = some r) (hwrite : h.write t f = some h') :
    Linked next h' p (rs ++ [r]) := by
  induction rs generalizing p with
  | nil => cases htail
  | cons u us ih =>
      obtain ⟨hp, b, hb, hrest⟩ := hrs
      obtain ⟨hu, hus⟩ := List.nodup_cons.mp hnodup
      have hmem := List.mem_of_getLast? htail
      cases us with
      | nil =>
          obtain rfl : u = t := Option.some.inj htail
          rw [Heap.write_of_eq hb] at hwrite
          obtain rfl := Option.some.inj hwrite
          refine ⟨hp, f b, Function.update_self _ _ _, ?_⟩
          rw [hf b]
          refine singleton (a := a) ?_ hnext
          rw [Function.update_of_ne (List.ne_of_not_mem_cons hnew), ha]
      | cons v vs =>
          rw [List.getLast?_cons_cons] at htail
          have hne : u ≠ t := by
            rintro rfl
            exact hu (List.mem_of_getLast? htail)
          refine ⟨hp, b, ?_, ih hrest hus (fun hr => hnew (List.mem_cons_of_mem u hr)) htail⟩
          rw [Heap.write_of_ne hwrite hne, hb]

end Linked

end
