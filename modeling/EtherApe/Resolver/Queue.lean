import EtherApe.Lib.Queue
import EtherApe.Resolver

/-!
# The queue of requests

Requests are appended at the tail and taken from the head, so the queue is a list of items.
-/

namespace EtherApe

namespace Resolver

variable {s s' : Resolver} {past : List (Resolver × ResolverEvent)} {q : List LinkRef}

def itemAt (links : Heap LinkRef IpresolveLink) (l : LinkRef) : Option ItemRef :=
  (links l).map IpresolveLink.itemToResolve

/-- The items that are waiting, from the head of the queue. -/
def queue (s : Resolver) : List ItemRef :=
  (s.links.follow IpresolveLink.next s.allocated s.resolveListHead).filterMap (itemAt s.links)

/-- The elements `q` are the queue. -/
structure Queued (s : Resolver) (q : List LinkRef) : Prop where
  linked : Linked IpresolveLink.next s.links s.resolveListHead q
  nodup : q.Nodup
  bound : ∀ l ∈ q, l < s.allocated
  tail : q ≠ [] → s.resolveListTail = q.getLast?

theorem Queued.queue_eq (h : s.Queued q) : s.queue = q.filterMap (itemAt s.links) := by
  have hsub : q ⊆ List.range s.allocated := fun l hl => List.mem_range.mpr (h.bound l hl)
  have hlength : q.length ≤ s.allocated := by
    simpa using (List.subperm_of_subset h.nodup hsub).length_le
  rw [queue, h.linked.follow_eq hlength]

theorem queued_threadOpen (time time' : UInt64) (pid : UInt16) :
    (threadOpen time time' pid).Queued [] where
  linked := rfl
  nodup := List.nodup_nil
  bound := by simp
  tail h := absurd rfl h

theorem Queued.congr (h : s.Queued q) (cache : Ipcache) (curitem : Nat → Option ItemRef) :
    ({ s with cache := cache, curitem := curitem } : Resolver).Queued q :=
  ⟨h.linked, h.nodup, h.bound, h.tail⟩

theorem Queued.sendrequestInverse (h : s.Queued q) {ip : Address} {times : List UInt64} {rand : Nat}
    (hsend : s.sendrequestInverse ip times rand = some s') :
    ∃ rp, s.cache.prepareRequest ip times rand = some (rp, s'.cache) ∧
      s'.queue = s.queue ++ [rp] ∧ s'.curitem = s.curitem ∧ s'.Queued (q ++ [s.allocated]) := by
  simp only [Resolver.sendrequestInverse, Option.bind_eq_bind, Option.bind_eq_some_iff] at hsend
  obtain ⟨⟨rp, cache⟩, hprepare, hsend⟩ := hsend
  have hnew : s.allocated ∉ q := fun hmem => lt_irrefl _ (h.bound _ hmem)
  have hnodup : (q ++ [s.allocated]).Nodup :=
    List.nodup_append.mpr ⟨h.nodup, List.nodup_singleton _, fun l hl l' hl' heq =>
      hnew (List.mem_singleton.mp hl' ▸ heq ▸ hl)⟩
  have hbound : ∀ l ∈ q ++ [s.allocated], l < s.allocated + 1 := by
    intro l hl
    rcases List.mem_append.mp hl with hl | hl
    · exact Nat.lt_succ_of_lt (h.bound l hl)
    · rw [List.mem_singleton.mp hl]
      exact Nat.lt_succ_self _
  have hlast : (q ++ [s.allocated]).getLast? = some s.allocated := List.getLast?_concat
  cases hhead : s.resolveListHead with
  | none =>
      rw [hhead] at hsend
      obtain rfl := Option.some.inj hsend
      obtain rfl : q = [] := List.head?_eq_none_iff.mp (h.linked.head_eq.symm.trans hhead)
      have hqueued : Queued
          { s with
            cache := cache
            links := Function.update s.links s.allocated (some ⟨rp, none⟩)
            allocated := s.allocated + 1
            resolveListHead := some s.allocated
            resolveListTail := some s.allocated } ([] ++ [s.allocated]) :=
        ⟨Linked.singleton (Function.update_self _ _ _) rfl, hnodup, hbound, fun _ => hlast.symm⟩
      refine ⟨rp, hprepare, ?_, rfl, hqueued⟩
      rw [hqueued.queue_eq, h.queue_eq]
      simp [itemAt]
  | some head =>
      rw [hhead] at hsend
      simp only [Option.bind_eq_some_iff] at hsend
      obtain ⟨tail, htail, links, hwrite, hresult⟩ := hsend
      obtain rfl := Option.some.inj hresult
      have hne : q ≠ [] := by
        rintro rfl
        exact absurd (h.linked.head_eq.symm.trans hhead) (by simp)
      have hkept : ∀ l ∈ q, Function.update s.links s.allocated (some ⟨rp, none⟩) l = s.links l :=
        fun l hl => Function.update_of_ne (ne_of_mem_of_not_mem hl hnew) _ _
      have hlinked' := (h.linked.congr hkept).append h.nodup hnew (Function.update_self _ _ _) rfl
        ((h.tail hne).symm.trans htail) (fun _ => rfl) hwrite
      have hqueued : Queued
          { s with
            cache := cache
            links := links
            allocated := s.allocated + 1
            resolveListHead := some head
            resolveListTail := some s.allocated } (q ++ [s.allocated]) :=
        ⟨hhead ▸ hlinked', hnodup, hbound, fun _ => hlast.symm⟩
      refine ⟨rp, hprepare, ?_, rfl, hqueued⟩
      have hitem : ∀ l, itemAt links l = itemAt (Function.update s.links s.allocated _) l :=
        Heap.map_write (f := fun link => { link with next := some s.allocated }) (fun _ => rfl)
          hwrite
      rw [hqueued.queue_eq, h.queue_eq, List.filterMap_append]
      congr 1
      · refine List.filterMap_congr fun l hl => (hitem l).trans ?_
        rw [itemAt, Function.update_of_ne (ne_of_mem_of_not_mem hl hnew), itemAt]
      · simp only [List.filterMap_cons, List.filterMap_nil, hitem]
        simp [itemAt]

/-- Taking the head never fails: a thread gets the item that waited longest, if any does. -/
theorem Queued.takeHead (h : s.Queued q) (thread : Nat) :
    ∃ s', s.dequeue thread = some s' ∧ s'.cache = s.cache ∧ (∃ q', s'.Queued q') ∧
      (s.queue = [] ∧ s.resolveListHead = none ∧ s' = s ∨
        ∃ head el, s.resolveListHead = some head ∧ s.links head = some el ∧
          s.queue = el.itemToResolve :: s'.queue ∧
          s'.curitem = Function.update s.curitem thread (some el.itemToResolve)) := by
  cases q with
  | nil =>
      have hhead : s.resolveListHead = none := h.linked
      refine ⟨s, by rw [Resolver.dequeue, hhead], rfl, ⟨[], h⟩, Or.inl ⟨?_, hhead, rfl⟩⟩
      rw [h.queue_eq, List.filterMap_nil]
  | cons head rest =>
      obtain ⟨hhead, el, hel, hrest⟩ := id h.linked
      obtain ⟨hnot, hnodup⟩ := List.nodup_cons.mp h.nodup
      have hqueued : Queued
          { s with
            links := s.links.free head
            resolveListHead := el.next
            curitem := Function.update s.curitem thread (some el.itemToResolve) } rest := by
        refine ⟨h.linked.tail_free h.nodup hel, hnodup,
          fun l hl => h.bound l (List.mem_cons_of_mem head hl), fun hne => ?_⟩
        refine (h.tail (List.cons_ne_nil _ _)).trans ?_
        cases rest with
        | nil => exact absurd rfl hne
        | cons l ls => rw [List.getLast?_cons_cons]
      refine ⟨{ s with
        links := s.links.free head
        resolveListHead := el.next
        curitem := Function.update s.curitem thread (some el.itemToResolve) }, ?_, rfl,
        ⟨rest, hqueued⟩, Or.inr ⟨head, el, hhead, hel, ?_, rfl⟩⟩
      · simp only [Resolver.dequeue, hhead, hel, Option.bind_eq_bind, Option.bind_some]
      · rw [hqueued.queue_eq, h.queue_eq, List.filterMap_cons_some (b := el.itemToResolve)]
        · congr 1
          refine List.filterMap_congr fun l hl => congrArg (Option.map _) ?_
          exact (Function.update_of_ne (ne_of_mem_of_not_mem hl hnot) _ _).symm
        · rw [itemAt, hel, Option.map_some]

theorem Queued.dequeue (h : s.Queued q) {thread : Nat}
    (hstep : s.step (.dequeue thread) = some s') :
    s'.cache = s.cache ∧ (∃ q', s'.Queued q') ∧
      (s.queue = [] ∧ s' = s ∨ ∃ r, s.queue = r :: s'.queue ∧ s.curitem thread = none ∧
        s'.curitem = Function.update s.curitem thread (some r)) := by
  simp only [step] at hstep
  split at hstep
  next hidle =>
    obtain ⟨s₁, hs₁, hcache, hqueued, htaken⟩ := h.takeHead thread
    obtain rfl := Option.some.inj (hs₁.symm.trans hstep)
    refine ⟨hcache, hqueued, ?_⟩
    cases htaken with
    | inl hempty => exact Or.inl ⟨hempty.1, hempty.2.2⟩
    | inr hhead =>
        obtain ⟨_, el, _, _, hqueue, hcuritem⟩ := hhead
        exact Or.inr ⟨el.itemToResolve, hqueue, hidle, hcuritem⟩
  · cases hstep

end Resolver

end EtherApe
