import EtherApe.Lib.Runs
import EtherApe.Resolver.Lifetimes

/-!
# A slow name server

A run in which one thread still resolves an item while answers for 1025 other addresses arrive. The
item was asked for twice, so another thread has answered for it and it is in the active list; the last
of the answers purges it.
-/

namespace EtherApe

namespace Resolver

def round (time : UInt64) (k : Nat) : List ResolverEvent :=
  [.lookup true (some (hostAddress k)) [time] 0, .dequeue 0, .answer 0 (some (some "host")) 0]

/-- Thread 1 resolves the first of `n + 1` items, and nothing waits. -/
structure Waiting (s : Resolver) (ring : List ItemRef) (n used : Nat) : Prop where
  cache : s.cache.Filled ring (n + 1) used
  queued : s.Queued []
  idle : s.curitem 0 = none
  slow : s.curitem 1 = some 0

/-- The run is the past of the state, and its calls are `events`. -/
def Does (events : List ResolverEvent) (s : Resolver) : Prop :=
  ∃ past, Run past s ∧ past.map Prod.snd = events

variable {s s' : Resolver} {ring : List ItemRef} {n used : Nat} {time : UInt64}
  {events : List ResolverEvent}

theorem Does.step (h : Does events s) {e : ResolverEvent} (hstep : s.step e = some s') :
    Does (events ++ [e]) s' := by
  obtain ⟨past, hrun, rfl⟩ := h
  exact ⟨_, hrun.step e hstep, by rw [List.map_append]; rfl⟩

theorem lookup_unknown {ip : Address} {cache cache' : Ipcache} {rp : ItemRef} {rand : Nat}
    {name : Ipcache.NameIp} (hq : s.Queued [])
    (hname : s.cache.getnameip true (some ip) = some (name, some true, cache))
    (hprepare : cache.prepareRequest ip [time] rand = some (rp, cache')) :
    ∃ s' q, s.step (.lookup true (some ip) [time] rand) = some s' ∧ s'.cache = cache' ∧
      s'.queue = [rp] ∧ s'.curitem = s.curitem ∧ s'.Queued q := by
  have hhead : s.resolveListHead = none := hq.linked
  obtain ⟨s', hsend⟩ : ∃ s', ({ s with cache := cache } : Resolver).sendrequestInverse ip [time] rand =
      some s' := by
    simp [Resolver.sendrequestInverse, hprepare, hhead]
  have hqueue : s.queue = [] := by rw [hq.queue_eq, List.filterMap_nil]
  obtain ⟨rp', hprepare', hqueue', hcuritem, hq'⟩ := (hq.congr cache s.curitem).sendrequestInverse hsend
  obtain ⟨rfl, rfl⟩ := Prod.mk.inj (Option.some.inj (hprepare.symm.trans hprepare'))
  refine ⟨s', _, ?_, rfl, hqueue'.trans ?_, hcuritem, hq'⟩
  · simp [Resolver.step, threadLookup, hname, hsend]
  · exact congrArg (· ++ [rp]) hqueue

theorem Queued.exists_dequeue {q : List LinkRef} (hq : s.Queued q) {thread : Nat}
    (hidle : s.curitem thread = none) : ∃ s', s.step (.dequeue thread) = some s' := by
  obtain ⟨s', hs', _⟩ := hq.takeHead thread
  exact ⟨s', by rw [Resolver.step, hidle]; exact hs'⟩

theorem Queued.eq_nil {q : List LinkRef} (hq : s.Queued q) (hqueue : s.queue = []) : q = [] := by
  cases q with
  | nil => rfl
  | cons head rest =>
      obtain ⟨_, el, hel, _⟩ := hq.linked
      rw [hq.queue_eq, List.filterMap_cons_some (b := el.itemToResolve)
        (by rw [itemAt, hel, Option.map_some])] at hqueue
      cases hqueue

/-- One round: the item of a new address is answered while thread 1 still waits. -/
theorem Waiting.round (h : s.Waiting ring n used) (hdoes : Does events s) (hn : n + 1 < 65536)
    (hfresh : used.testBit (s.cache.drawn time).toUInt16.toNat = false) :
    ∃ s', Does (events ++ round time (n + 1)) s' ∧
      s'.Waiting (Ipcache.touch ring (n + 1)) (n + 1)
        (used ||| 2 ^ (s.cache.drawn time).toUInt16.toNat) ∧
      s'.cache.idseed = s.cache.drawn time ∧
      s'.cache.aseed = s.cache.aseed ^^^ s.cache.drawn time ∧
      ∀ t ∈ ring, t ∉ Ipcache.touch ring (n + 1) → ¬s'.cache.Live t := by
  obtain ⟨cache₁, hname, hfilled₁, hidseed₁, haseed₁, _⟩ := h.cache.getnameip hn
  have hdrawn : cache₁.drawn time = s.cache.drawn time := by
    rw [Ipcache.drawn, hidseed₁, haseed₁, Ipcache.drawn]
  rw [← hdrawn] at hfresh ⊢
  obtain ⟨cache₂, hprepare, hfilled₂, hlive₂, hidseed₂, haseed₂⟩ :=
    hfilled₁.prepareRequest hn hfresh 0
  obtain ⟨s₁, q₁, hlookup, rfl, hqueue₁, hcuritem₁, hq₁⟩ := lookup_unknown h.queued hname hprepare
  have hidle₁ : s₁.curitem 0 = none := by rw [hcuritem₁, h.idle]
  obtain ⟨s₂, hdequeue⟩ := hq₁.exists_dequeue hidle₁
  obtain ⟨hcache₂, ⟨q₂, hq₂⟩, hcases⟩ := hq₁.dequeue hdequeue
  obtain ⟨hqueue₂, hcuritem₂⟩ : s₂.queue = [] ∧
      s₂.curitem = Function.update s₁.curitem 0 (some (n + 1)) := by
    rcases hcases with ⟨hempty, _⟩ | ⟨r, hr, _, hcuritem⟩
    · rw [hqueue₁] at hempty
      cases hempty
    · rw [hqueue₁] at hr
      obtain ⟨rfl, hrest⟩ := List.cons.inj hr
      exact ⟨hrest.symm, hcuritem⟩
  have hbusy : s₂.curitem 0 = some (n + 1) := by rw [hcuritem₂, Function.update_self]
  rw [← hcache₂] at hfilled₂ hlive₂ hidseed₂ haseed₂
  obtain ⟨cache₃, hanswer, hfilled₃, hidseed₃, haseed₃, hlive₃⟩ :=
    hfilled₂.requestSucceeded hlive₂ (3600 * 24) (some "host") 0
  have hstep₃ : s₂.step (.answer 0 (some (some "host")) 0) = some
      { s₂ with cache := cache₃, curitem := Function.update s₂.curitem 0 none } := by
    simp only [Resolver.step, hbusy, Resolver.answer, Option.bind_eq_bind, hanswer, Option.bind_some]
  refine ⟨{ s₂ with cache := cache₃, curitem := Function.update s₂.curitem 0 none }, ?_,
    ⟨hfilled₃, hq₂.eq_nil hqueue₂ ▸ hq₂.congr _ _, rfl, ?_⟩, hidseed₃.trans hidseed₂,
    haseed₃.trans (haseed₂.trans (congrArg (· ^^^ cache₁.drawn time) haseed₁)), fun t ht hgone hlive => ?_⟩
  · have hdone := ((hdoes.step hlookup).step hdequeue).step hstep₃
    simpa [Resolver.round] using hdone
  · change Function.update s₂.curitem 0 none 1 = some 0
    rw [Function.update_of_ne (by decide), hcuritem₂, Function.update_of_ne (by decide), hcuritem₁,
      h.slow]
  · exact ((hlive₃ t).mp hlive).2 ⟨ht, hgone⟩

/-- As long as the active list has room, the first item stays at its end. -/
theorem Waiting.rounds (h : s.Waiting (List.range (n + 1)).reverse n used) (hdoes : Does events s)
    (m rest : Nat) (hm : n + m ≤ 1024)
    (hfresh : freshIds (List.replicate (m + rest) time) s.cache.idseed s.cache.aseed used) :
    ∃ s' used', Does (events ++ (List.range m).flatMap fun k => Resolver.round time (n + k + 1)) s' ∧
      s'.Waiting (List.range (n + m + 1)).reverse (n + m) used' ∧
      freshIds (List.replicate rest time) s'.cache.idseed s'.cache.aseed used' := by
  induction m generalizing rest with
  | zero => exact ⟨s, used, by simpa using hdoes, h, by simpa using hfresh⟩
  | succ m ih =>
      obtain ⟨s', used', hdoes', hwaiting, hfresh'⟩ := ih (rest + 1) (by omega)
        (by rwa [show m + (rest + 1) = m + 1 + rest by omega])
      rw [List.replicate_succ, freshIds, Bool.and_eq_true, Bool.not_eq_true'] at hfresh'
      obtain ⟨s'', hdoes'', hwaiting', hidseed, haseed, _⟩ :=
        hwaiting.round hdoes' (by omega) hfresh'.1
      rw [Ipcache.touch_range (by omega)] at hwaiting'
      refine ⟨s'', _, ?_, hwaiting', ?_⟩
      · rw [List.range_succ, List.flatMap_append, ← List.append_assoc]
        simpa using hdoes''
      · rw [hidseed, haseed]
        exact hfresh'.2

def machine (time time' : UInt64) (pid : UInt16) : Machine Resolver ResolverEvent where
  start := threadOpen time time' pid
  step := step

theorem Run.of_machine {time time' : UInt64} {pid : UInt16} {past : List (Resolver × ResolverEvent)}
    (h : (machine time time' pid).Run past s) : Run past s := by
  induction h with
  | start => exact Run.opened time time' pid
  | step _ e hstep ih => exact ih.step e hstep

theorem does_of_stepAll {time time' : UInt64} {pid : UInt16}
    (hsteps : (machine time time' pid).stepAll (threadOpen time time' pid) events = some s) :
    Does events s := by
  obtain ⟨past, hrun, hevents⟩ := Machine.Run.start.stepAll hsteps
  exact ⟨past, Run.of_machine hrun, hevents⟩

/-- 10.0.0.0 is looked up, and again after a tick: both requests are for the same item. Two threads
take them, and one answers. -/
def twoRequests : List ResolverEvent :=
  [.lookup true (some (hostAddress 0)) [1300040598] 0, .tick,
    .lookup true (some (hostAddress 0)) [] 0, .dequeue 0, .dequeue 1,
    .answer 0 (some (some "host")) 0]

/-- The other thread waits while 1025 more addresses are looked up and answered. -/
def slowLookup : List ResolverEvent :=
  twoRequests ++ (List.range 1025).flatMap fun k => round 1300040608 (k + 1)

theorem twoRequests_waiting : ∃ s used, Does twoRequests s ∧ s.Waiting [0] 0 used ∧
    freshIds (List.replicate 1025 1300040608) s.cache.idseed s.cache.aseed used := by
  have hfacts : ((machine 1300040598 1300040598 13026).stepAll
      (threadOpen 1300040598 1300040598 13026) twoRequests).map (fun s =>
      ((s.queue, s.curitem 0, s.curitem 1), (s.cache.activeItems, s.cache.allocated),
        (s.cache.heap 0).map fun item => (decide (item.ip.isAddrEq (hostAddress 0)),
          freshIds (List.replicate 1025 1300040608) s.cache.idseed s.cache.aseed
            (2 ^ item.id.toNat)))) =
      some (([], none, some 0), ([0], 1), some (true, true)) := by decide +kernel
  obtain ⟨s, hsteps, hfacts⟩ := Option.map_eq_some_iff.mp hfacts
  simp only [Prod.mk.injEq] at hfacts
  obtain ⟨⟨hqueue, hidle, hslow⟩, ⟨hactive, hallocated⟩, hitem⟩ := hfacts
  obtain ⟨item, hitem, hkeys⟩ := Option.map_eq_some_iff.mp hitem
  obtain ⟨hip, hfresh⟩ := Prod.mk.inj hkeys
  have hdoes : Does twoRequests s := does_of_stepAll hsteps
  obtain ⟨past, hrun, _⟩ := id hdoes
  obtain ⟨⟨cachePast, hcache⟩, q, hq⟩ := hrun.cache_queued
  obtain ⟨ring, hsound⟩ := hcache.sound
  rw [hsound.activeItems_eq] at hactive
  subst hactive
  have honly : ∀ t other, s.cache.heap t = some other → t = 0 ∧ other = item := by
    intro t other hother
    have hlt : t < 1 := hallocated ▸ hsound.allocated t (Ipcache.live_of_eq hother)
    obtain rfl : t = 0 := Nat.lt_one_iff.mp hlt
    exact ⟨rfl, Option.some.inj (hother.symm.trans hitem)⟩
  refine ⟨s, 2 ^ item.id.toNat, hdoes, ⟨⟨hsound, hallocated, fun t other hother => ?_,
    fun t other hother => ?_⟩, hq.eq_nil hqueue ▸ hq, hidle, hslow⟩, hfresh⟩
  · obtain ⟨rfl, rfl⟩ := honly t other hother
    exact Address.isAddrEq_iff.mp (of_decide_eq_true hip)
  · obtain ⟨rfl, rfl⟩ := honly t other hother
    exact Nat.testBit_two_pow_self

/-- The last of the answers frees the item that the slow thread still resolves. -/
theorem slowLookup_frees_item :
    ∃ past s, Run past s ∧ past.map Prod.snd = slowLookup ∧ ¬s.ItemsLive := by
  obtain ⟨s₀, used₀, hdoes₀, hwaiting₀, hfresh₀⟩ := twoRequests_waiting
  obtain ⟨s₁, used₁, hdoes₁, hwaiting₁, hfresh₁⟩ :=
    Waiting.rounds (n := 0) hwaiting₀ hdoes₀ 1024 1 (by decide) hfresh₀
  rw [List.replicate_one, freshIds, Bool.and_eq_true, Bool.not_eq_true'] at hfresh₁
  obtain ⟨s₂, hdoes₂, hwaiting₂, _, _, hpurged⟩ := hwaiting₁.round hdoes₁ (by decide) hfresh₁.1
  obtain ⟨past, hrun, hevents⟩ := hdoes₂
  refine ⟨past, s₂, hrun, hevents.trans ?_, fun hlive => ?_⟩
  · have hrange : List.range 1025 = List.range 1024 ++ [1024] := List.range_succ
    rw [slowLookup, hrange, List.flatMap_append, ← List.append_assoc]
    simp only [Nat.zero_add, List.flatMap_singleton]
  · refine hpurged 0 (by simp) ?_ (hlive 0 (Or.inr ⟨1, hwaiting₂.slow⟩))
    decide +kernel

end Resolver

end EtherApe
