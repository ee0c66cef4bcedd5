import EtherApe.Lib.Runs
import EtherApe.Resolver.Lifetimes

/-!
# First in, first out

Requests come out of the queue in the order in which they went in, each to one thread. The pointer to
the tail is left over when the queue runs empty, but a request only follows it when there is a head.
-/

namespace EtherApe

/-- What happens to the queue. All else may change in whatever way between two such steps. -/
inductive QueueEvent
  | send (ip : Address) (times : List UInt64) (rand : Nat)
  | take (thread : Nat)
  | other (cache : Ipcache) (curitem : Nat → Option ItemRef)

namespace Resolver

def queueStep (s : Resolver) : QueueEvent → Option Resolver
  | .send ip times rand => s.sendrequestInverse ip times rand
  | .take thread => s.dequeue thread
  | .other cache curitem => some { s with cache := cache, curitem := curitem }

def queueMachine (time time' : UInt64) (pid : UInt16) : Machine Resolver QueueEvent where
  start := threadOpen time time' pid
  step := queueStep

/-- The item of the request that a step sends. -/
def sent (s : Resolver) : QueueEvent → Option ItemRef
  | .send ip times rand => (s.cache.prepareRequest ip times rand).map Prod.fst
  | _ => none

/-- The thread that takes a request in a step, and its item. -/
def taken (s : Resolver) : QueueEvent → Option (Nat × ItemRef)
  | .take thread => do
      let head ← s.resolveListHead
      let el ← s.links head
      some (thread, el.itemToResolve)
  | _ => none

variable {s s' : Resolver} {q : List LinkRef} {past : List (Resolver × QueueEvent)}

theorem taken_of_head {head : LinkRef} {el : IpresolveLink} (hhead : s.resolveListHead = some head)
    (hel : s.links head = some el) (thread : Nat) :
    s.taken (.take thread) = some (thread, el.itemToResolve) := by
  simp [taken, hhead, hel]

/-- What a request needs of the list is there: it fails only if the cache has no item for it. -/
theorem Queued.sendrequestInverse_isSome (h : s.Queued q) (ip : Address) (times : List UInt64)
    (rand : Nat) :
    (s.sendrequestInverse ip times rand).isSome ↔ (s.cache.prepareRequest ip times rand).isSome := by
  unfold Resolver.sendrequestInverse
  cases hprepare : s.cache.prepareRequest ip times rand with
  | none => simp
  | some r =>
      cases hhead : s.resolveListHead with
      | none => simp
      | some head =>
          have hne : q ≠ [] := by
            intro hnil
            have hnone := h.linked
            rw [hnil] at hnone
            exact absurd (hhead.symm.trans hnone) (by simp)
          obtain ⟨t, hlast⟩ := Option.ne_none_iff_exists'.mp (mt List.getLast?_eq_none_iff.mp hne)
          obtain ⟨el, hel, _⟩ := h.linked.last_next hlast
          have hnew : t ≠ s.allocated := (h.bound t (List.mem_of_getLast? hlast)).ne
          simp [h.tail hne, hlast, Heap.write, Function.update_of_ne hnew, hel]

/-- The pointer to the tail is only followed when there is a head, and then it is the last element. -/
theorem Queued.tail_live (h : s.Queued q) (hhead : s.resolveListHead ≠ none) :
    ∃ tail el, s.resolveListTail = some tail ∧ s.links tail = some el ∧ el.next = none := by
  have hne : q ≠ [] := by
    intro hnil
    have hnone := h.linked
    rw [hnil] at hnone
    exact hhead hnone
  obtain ⟨t, hlast⟩ := Option.ne_none_iff_exists'.mp (mt List.getLast?_eq_none_iff.mp hne)
  obtain ⟨el, hel, hnext⟩ := h.linked.last_next hlast
  exact ⟨t, el, (h.tail hne).trans hlast, hel, hnext⟩

/-- One step: the queue stays a list, and what goes in and out of it is accounted for. -/
theorem Queued.queueStep (h : s.Queued q) {e : QueueEvent} (hstep : s.queueStep e = some s') :
    (∃ q', s'.Queued q') ∧
      s.queue ++ (s.sent e).toList = ((s.taken e).map Prod.snd).toList ++ s'.queue := by
  cases e with
  | send ip times rand =>
      obtain ⟨rp, hprepare, hqueue, _, hq'⟩ := h.sendrequestInverse hstep
      refine ⟨⟨_, hq'⟩, ?_⟩
      rw [hqueue, sent, hprepare]
      rfl
  | take thread =>
      obtain ⟨s₁, hs₁, _, hq', htaken⟩ := h.takeHead thread
      obtain rfl := Option.some.inj (hs₁.symm.trans hstep)
      refine ⟨hq', ?_⟩
      cases htaken with
      | inl hempty =>
          obtain ⟨hnil, hhead, rfl⟩ := hempty
          simp [sent, taken, hhead, hnil]
      | inr hhead =>
          obtain ⟨head, el, hhead, hel, hqueue, _⟩ := hhead
          rw [taken_of_head hhead hel, hqueue]
          simp [sent]
  | other cache curitem =>
      obtain rfl := Option.some.inj hstep
      refine ⟨⟨q, h.congr cache curitem⟩, ?_⟩
      rw [(h.congr cache curitem).queue_eq, h.queue_eq]
      simp [sent, taken]

section Runs

variable {time time' : UInt64} {pid : UInt16}

/-- Each run of the resolver does to the queue what a run of the queue alone does. -/
theorem Run.queueRun {resolverPast : List (Resolver × ResolverEvent)} (h : Run resolverPast s) :
    ∃ time time' pid past, (queueMachine time time' pid).Run past s := by
  induction h with
  | opened time time' pid => exact ⟨time, time', pid, [], Machine.Run.start⟩
  | @step _ s s' _ e hstep ih =>
      obtain ⟨time, time', pid, past, hrun⟩ := ih
      refine ⟨time, time', pid, ?_⟩
      have hother : ∀ cache curitem, (queueMachine time time' pid).Run
          (past ++ [(s, .other cache curitem)]) { s with cache := cache, curitem := curitem } :=
        fun cache curitem => hrun.step (.other cache curitem) rfl
      cases e with
      | tick =>
          obtain rfl := Option.some.inj hstep
          exact ⟨_, hother s.cache.tick s.curitem⟩
      | lookup nameRes ip times rand =>
          obtain ⟨⟨ipname, s₁⟩, hlookup, hs₁⟩ := Option.map_eq_some_iff.mp hstep
          obtain rfl : s₁ = s' := hs₁
          cases threadLookup_cases hlookup with
          | inl hsame => exact ⟨past, hsame ▸ hrun⟩
          | inr hasked =>
              obtain ⟨ip, _, _, cache, _, hs'⟩ := hasked
              cases hs' with
              | inl hcache => exact ⟨_, hcache ▸ hother cache s.curitem⟩
              | inr hsend => exact ⟨_, (hother cache s.curitem).step (.send ip times rand) hsend⟩
      | dequeue thread =>
          simp only [Resolver.step] at hstep
          split at hstep
          · exact ⟨_, hrun.step (.take thread) hstep⟩
          · cases hstep
      | answer thread hName rand =>
          obtain ⟨_, _, cache, _, _, _, rfl⟩ := answer_cases hstep
          exact ⟨_, hother cache _⟩

theorem queueRun_queued (h : (queueMachine time time' pid).Run past s) : ∃ q, s.Queued q := by
  induction h with
  | start => exact ⟨[], queued_threadOpen time time' pid⟩
  | step h e hstep ih =>
      obtain ⟨q, hq⟩ := ih
      exact (hq.queueStep hstep).1

theorem queueRun_queue (h : (queueMachine time time' pid).Run past s) :
    past.filterMap (fun x => x.1.sent x.2) =
      (past.filterMap fun x => x.1.taken x.2).map Prod.snd ++ s.queue := by
  induction h with
  | start => exact (queued_threadOpen time time' pid).queue_eq.symm
  | @step past s s' h e hstep ih =>
      obtain ⟨q, hq⟩ := queueRun_queued h
      have hqueue := (hq.queueStep hstep).2
      have hone : ∀ {β : Type} (f : Resolver × QueueEvent → Option β),
          [(s, e)].filterMap f = (f (s, e)).toList := by
        intro β f
        cases hf : f (s, e) with
        | none => simp [hf]
        | some b => simp [hf]
      have hmap : (s.taken e).toList.map Prod.snd = ((s.taken e).map Prod.snd).toList := by
        cases s.taken e with
        | none => rfl
        | some b => rfl
      rw [List.filterMap_append, List.filterMap_append, List.map_append, hone, hone, ih,
        List.append_assoc, hqueue, List.append_assoc, hmap]

/-- **The queue is first in, first out.** In every run each request that was sent was taken by one
thread, in the order of sending, or is still waiting; a thread that asks gets the one that waited
longest; and the list itself fails neither a request nor a thread, since the tail pointer is followed
only while it points to the last element. -/
theorem queueRun_fifo (h : (queueMachine time time' pid).Run past s) :
    past.filterMap (fun x => x.1.sent x.2) =
        (past.filterMap fun x => x.1.taken x.2).map Prod.snd ++ s.queue ∧
      (∀ thread, ∃ s', s.dequeue thread = some s' ∧
        (s.queue = [] ∧ s.taken (.take thread) = none ∧ s' = s ∨
          ∃ r, s.queue = r :: s'.queue ∧ s.taken (.take thread) = some (thread, r) ∧
            s'.curitem = Function.update s.curitem thread (some r))) ∧
      (∀ ip times rand, (s.sendrequestInverse ip times rand).isSome ↔
        (s.cache.prepareRequest ip times rand).isSome) ∧
      (s.resolveListHead ≠ none → ∃ tail el, s.resolveListTail = some tail ∧
        s.links tail = some el ∧ el.next = none) := by
  obtain ⟨q, hq⟩ := queueRun_queued h
  refine ⟨queueRun_queue h, ?_, hq.sendrequestInverse_isSome, hq.tail_live⟩
  intro thread
  obtain ⟨s', hs', _, _, htaken⟩ := hq.takeHead thread
  refine ⟨s', hs', ?_⟩
  cases htaken with
  | inl hempty =>
      refine Or.inl ⟨hempty.1, ?_, hempty.2.2⟩
      rw [taken, hempty.2.1]
      rfl
  | inr hhead =>
      obtain ⟨head, el, hhead, hel, hqueue, hcuritem⟩ := hhead
      exact Or.inr ⟨el.itemToResolve, hqueue, taken_of_head hhead hel thread, hcuritem⟩

end Runs

/-- The queue drains and is filled again: the second request waits, and thread 4 would get it. -/
theorem queueRun_fifo_refill :
    ∃ past s, (queueMachine 1 1 7).Run past s ∧
      (past.filterMap fun x => x.1.taken x.2) = [(3, 0)] ∧ s.queue = [0] ∧
      s.taken (.take 4) = some (4, 0) := by
  let send := QueueEvent.send Address.clear [5] 3
  let again := QueueEvent.send Address.clear [6] 3
  have hruns : (((threadOpen 1 1 7).queueStep send).bind fun s₁ =>
      (s₁.queueStep (.take 3)).bind fun s₂ => (s₂.queueStep again).map fun s₃ =>
        ((s₁.taken (.take 3), s₃.queue), s₃.taken (.take 4))) =
      some ((some (3, 0), [0]), some (4, 0)) := by decide +kernel
  obtain ⟨s₁, hs₁, hruns⟩ := Option.bind_eq_some_iff.mp hruns
  obtain ⟨s₂, hs₂, hruns⟩ := Option.bind_eq_some_iff.mp hruns
  obtain ⟨s₃, hs₃, hruns⟩ := Option.map_eq_some_iff.mp hruns
  obtain ⟨htaken, hnext⟩ := Prod.mk.inj hruns
  obtain ⟨hfirst, hqueue⟩ := Prod.mk.inj htaken
  have hrun : (queueMachine 1 1 7).Run [(threadOpen 1 1 7, send), (s₁, .take 3), (s₂, again)] s₃ :=
    ((Machine.Run.start.step send hs₁).step (.take 3) hs₂).step again hs₃
  have hfifo := (queueRun_fifo hrun).2.1 4
  refine ⟨_, s₃, hrun, ?_, hqueue, ?_⟩
  · simp only [List.filterMap_cons, List.filterMap_nil, hfirst]
    rfl
  · obtain ⟨s₄, _, hempty | ⟨r, hwaiting, htakes, _⟩⟩ := hfifo
    · exact absurd (hempty.1.symm.trans hqueue) (by simp)
    · rw [hqueue] at hwaiting
      rw [htakes, (List.cons.inj hwaiting).1]

end Resolver

end EtherApe
