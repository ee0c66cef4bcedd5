import EtherApe.IpCache.Runs
import EtherApe.Resolver.Queue

/-!
# Items that requests refer to

A request in the queue, and a thread that resolves one, refer to an item of the cache by pointer, and
nothing keeps the cache from purging that item. An answered item may be asked for again once it has
expired, and while that request waits, answers for other addresses may push the item off the end of
the active list.
-/

namespace EtherApe

namespace Ipcache

variable {s s' : Ipcache} {ring : List ItemRef} {r t : ItemRef}
  {past : List (Ipcache × IpcacheEvent)}

theorem Run.getnameip_live (h : Run past s) {nameRes : Bool} {ip : Option Address} {name : NameIp}
    {isExpired : Option Bool} (hname : s.getnameip nameRes ip = some (name, isExpired, s'))
    (ht : s.Live t) : s'.Live t := by
  obtain ⟨ring, hsound, hfits⟩ := h.fits
  have hstep : s.step (.getnameip nameRes ip) = some s' := by simp [Ipcache.step, hname]
  obtain ⟨ring', _, hlru⟩ := hsound.step hstep
  by_cases huses : ∃ r, (IpcacheEvent.getnameip nameRes ip).Uses s.heap r
  · obtain ⟨r, hr⟩ := huses
    obtain ⟨item, hitem, hstate⟩ := exists_of_uses_getnameip ((uses_iff ring _).mp hr)
    have hmem : r ∈ ring := hfits.settled r item hitem hstate
    have hgone := (hsound.uses_step hr hlru).2 t ht
    by_contra hdead
    obtain ⟨htring, hnot⟩ := hgone.mp hdead
    rw [touch, if_pos hmem, (List.perm_cons_erase hmem).symm.mem_iff] at hnot
    exact hnot htring
  · rw [live_iff_items ring] at ht
    rw [live_iff_items ring']
    generalize s'.abstract ring' = a' at hlru
    cases hlru with
    | unused hnone => exact ht
    | used r hr => exact absurd ⟨r, (uses_iff ring _).mpr hr⟩ huses

theorem Run.prepareRequest_live (h : Run past s) {ip : Address} {times : List UInt64} {rand : Nat}
    {rp : ItemRef} (hprepare : s.prepareRequest ip times rand = some (rp, s')) :
    s'.Live rp ∧ ∀ t, s.Live t → s'.Live t := by
  obtain ⟨ring, hsound⟩ := h.sound
  obtain ⟨_, hlive, hlru⟩ := hsound.step_prepareRequest hprepare
  refine ⟨hlive, fun t ht => ?_⟩
  rw [live_iff_items ring] at ht ⊢
  generalize s'.abstract ring = a' at hlru
  cases hlru with
  | refresh r item hitem hip => exact (set_isSome_iff _ _ _ _).mpr (Or.inr ht)
  | alloc id hip => exact (set_isSome_iff _ _ _ _).mpr (Or.inr ht)

/-- What an answer frees: nothing, or what the active list has no more room for. -/
theorem Run.answer_live (h : Run past s) {e : IpcacheEvent} {rp : ItemRef}
    (he : e.answers = some rp) (hstep : s.step e = some s') (ht : s.Live t) :
    ¬s'.Live t ↔ rp ∉ s.activeItems ∧ s.numActive > maxActive ∧ t ∈ s.activeItems.drop 1013 := by
  obtain ⟨ring, hsound, hfits⟩ := h.fits
  rw [hsound.activeItems_eq]
  obtain ⟨ring', _, hlru⟩ := hsound.step hstep
  have hcount := hsound.active.count
  by_cases hr : e.Uses s.heap rp
  · rw [(hsound.uses_step hr hlru).2 t ht]
    by_cases hmem : rp ∈ ring
    · rw [touch, if_pos hmem, (List.perm_cons_erase hmem).symm.mem_iff]
      simp [hmem]
    · rw [touch, if_neg hmem, purged]
      by_cases hfull : ring.length > 1024
      · rw [if_pos hfull, ← mem_drop_iff hsound.active.nodup, List.mem_cons, not_or]
        have hfull' : s.numActive > maxActive := by
          rw [hcount, maxActive]
          omega
        constructor
        · rintro ⟨htmem, _, hnot⟩
          exact ⟨hmem, hfull', htmem, hnot⟩
        · rintro ⟨_, _, htmem, hnot⟩
          exact ⟨htmem, fun heq => hmem (heq ▸ htmem), hnot⟩
      · have hfull' : ¬s.numActive > maxActive := by
          rw [hcount, maxActive]
          omega
        simp [hfull, hfull', hmem]
        tauto
  · -- A negative answer for an item that has a name already changes nothing.
    rw [live_iff_items ring] at ht
    rw [live_iff_items ring']
    generalize s'.abstract ring' = a' at hlru
    cases hlru with
    | tick | refresh r item hitem hip | alloc id hip | unused hnone | used r huses | findid | clear =>
        cases he
    | ignored item hitem hstate =>
        obtain rfl := Option.some.inj he
        have hmem := hfits.settled _ item hitem (by simp [hstate])
        exact iff_of_false (fun hdead => hdead ht) fun hpurge => hpurge.1 hmem
    | @failed r rand item hitem hstate =>
        obtain rfl := Option.some.inj he
        have huses : (IpcacheEvent.requestFailed r rand).Uses (s.abstract ring).items r :=
          ⟨rfl, item, hitem, hstate⟩
        exact absurd ((uses_iff ring _).mpr huses) hr
    | succeeded item hitem =>
        obtain rfl := Option.some.inj he
        exact absurd rfl hr

end Ipcache

namespace Resolver

variable {s s' : Resolver} {past : List (Resolver × ResolverEvent)} {e : ResolverEvent}

/-- The item is referred to by an element of the queue or by a thread. -/
def Refers (s : Resolver) (r : ItemRef) : Prop :=
  r ∈ s.queue ∨ ∃ thread, s.curitem thread = some r

/-- All items that are referred to are live. -/
def ItemsLive (s : Resolver) : Prop := ∀ r, s.Refers r → s.cache.Live r

/-- An answer for an item that is new to a full active list purges no item that is referred to. -/
def Spares (s : Resolver) : ResolverEvent → Prop
  | .answer thread _ _ => ∀ rp, s.curitem thread = some rp → rp ∉ s.cache.activeItems →
      s.cache.numActive > maxActive → ∀ r ∈ s.cache.activeItems.drop 1013, ¬s.Refers r
  | _ => True

theorem threadLookup_cases {nameRes : Bool} {ip : Option Address} {times : List UInt64} {rand : Nat}
    {ipname : Ipcache.NameIp} (h : s.threadLookup nameRes ip times rand = some (ipname, s')) :
    s' = s ∨ ∃ ip name isExpired cache,
      s.cache.getnameip nameRes (some ip) = some (name, isExpired, cache) ∧
      (s' = { s with cache := cache } ∨
        { s with cache := cache }.sendrequestInverse ip times rand = some s') := by
  cases ip with
  | none =>
      obtain ⟨_, rfl⟩ := Prod.mk.inj (Option.some.inj h)
      exact Or.inl rfl
  | some ip =>
      simp only [threadLookup, Option.bind_eq_bind] at h
      obtain ⟨⟨name, isExpired, cache⟩, hname, h⟩ := Option.bind_eq_some_iff.mp h
      refine Or.inr ⟨ip, name, isExpired, cache, hname, ?_⟩
      dsimp only at h
      split at h
      · obtain ⟨s₁, hsend, hresult⟩ := Option.bind_eq_some_iff.mp h
        obtain ⟨_, rfl⟩ := Prod.mk.inj (Option.some.inj hresult)
        exact Or.inr hsend
      · obtain ⟨_, rfl⟩ := Prod.mk.inj (Option.some.inj h)
        exact Or.inl rfl

/-- An answer is one call of the cache, and the thread has no item then. -/
theorem answer_cases {thread : Nat} {hName : Option (Option String)} {rand : Nat}
    (h : s.step (.answer thread hName rand) = some s') :
    ∃ rp e cache, s.curitem thread = some rp ∧ e.answers = some rp ∧ s.cache.step e = some cache ∧
      s' = { s with cache := cache, curitem := Function.update s.curitem thread none } := by
  simp only [step] at h
  split at h
  · cases h
  next rp hthread =>
  refine ⟨rp, ?_⟩
  cases hName with
  | none =>
      obtain ⟨cache, hcache, hresult⟩ := Option.bind_eq_some_iff.mp h
      obtain rfl := Option.some.inj hresult
      exact ⟨.requestFailed rp rand, cache, hthread, rfl, hcache, rfl⟩
  | some hName =>
      obtain ⟨cache, hcache, hresult⟩ := Option.bind_eq_some_iff.mp h
      obtain rfl := Option.some.inj hresult
      exact ⟨.requestSucceeded rp (3600 * 24) hName rand, cache, hthread, rfl, hcache, rfl⟩

/-- The calls that the resolver makes are a run of the cache, and the queue stays a list. -/
theorem Run.cache_queued (h : Run past s) :
    (∃ cachePast, Ipcache.Run cachePast s.cache) ∧ ∃ q, s.Queued q := by
  induction h with
  | opened time time' pid =>
      exact ⟨⟨[], Ipcache.Run.init time time' pid⟩, [], queued_threadOpen time time' pid⟩
  | @step past s s' _ e hstep ih =>
      obtain ⟨⟨cachePast, hcache⟩, q, hq⟩ := ih
      cases e with
      | tick =>
          obtain rfl := Option.some.inj hstep
          exact ⟨⟨_, hcache.step .tick rfl⟩, q, hq.congr _ _⟩
      | lookup nameRes ip times rand =>
          obtain ⟨⟨ipname, s₁⟩, hlookup, rfl⟩ := Option.map_eq_some_iff.mp hstep
          rcases threadLookup_cases hlookup with rfl | ⟨ip, name, isExpired, cache, hname, hsend⟩
          · exact ⟨⟨cachePast, hcache⟩, q, hq⟩
          · have hcache₁ := hcache.step (.getnameip nameRes (some ip))
              (show Ipcache.step _ _ = some cache by simp [Ipcache.step, hname])
            have hq₁ := hq.congr cache s.curitem
            rcases hsend with rfl | hsend
            · exact ⟨⟨_, hcache₁⟩, q, hq₁⟩
            · obtain ⟨rp, hprepare, _, _, hq₂⟩ := hq₁.sendrequestInverse hsend
              exact ⟨⟨_, hcache₁.step (.prepareRequest ip times rand)
                (show Ipcache.step _ _ = some s₁.cache by simp [Ipcache.step, hprepare])⟩, _, hq₂⟩
      | dequeue thread =>
          obtain ⟨heq, hq', _⟩ := hq.dequeue hstep
          exact ⟨⟨cachePast, heq ▸ hcache⟩, hq'⟩
      | answer thread hName rand =>
          obtain ⟨_, _, cache, _, _, hcache', rfl⟩ := answer_cases hstep
          exact ⟨⟨_, hcache.step _ hcache'⟩, q, hq.congr _ _⟩

theorem Run.lookup_itemsLive (h : Run past s) {nameRes : Bool} {ip : Option Address}
    {times : List UInt64} {rand : Nat} (hstep : s.step (.lookup nameRes ip times rand) = some s')
    (hlive : s.ItemsLive) : s'.ItemsLive := by
  obtain ⟨⟨cachePast, hcache⟩, q, hq⟩ := h.cache_queued
  obtain ⟨⟨ipname, s₁⟩, hlookup, rfl⟩ := Option.map_eq_some_iff.mp hstep
  rcases threadLookup_cases hlookup with rfl | ⟨ip, name, isExpired, cache, hname, hsend⟩
  · exact hlive
  · have hlive₁ : ({ s with cache := cache } : Resolver).ItemsLive := fun r hr =>
      hcache.getnameip_live hname (hlive r hr)
    rcases hsend with rfl | hsend
    · exact hlive₁
    · have hcache₁ := hcache.step (.getnameip nameRes (some ip))
        (show Ipcache.step _ _ = some cache by simp [Ipcache.step, hname])
      have hq₁ := hq.congr cache s.curitem
      obtain ⟨rp, hprepare, hqueue, hcuritem, _⟩ := hq₁.sendrequestInverse hsend
      obtain ⟨hrp, hkept⟩ := hcache₁.prepareRequest_live hprepare
      intro r hr
      rcases hr with hr | hr
      · rw [hqueue] at hr
        rcases List.mem_append.mp hr with hr | hr
        · exact hkept r (hlive₁ r (Or.inl hr))
        · rw [List.mem_singleton.mp hr]
          exact hrp
      · rw [hcuritem] at hr
        exact hkept r (hlive₁ r (Or.inr hr))

/-- A thread that takes a request takes its reference over. -/
theorem Run.dequeue_itemsLive (h : Run past s) {thread : Nat}
    (hstep : s.step (.dequeue thread) = some s') (hlive : s.ItemsLive) : s'.ItemsLive := by
  obtain ⟨_, q, hq⟩ := h.cache_queued
  obtain ⟨hcache, _, ⟨_, rfl⟩ | ⟨rp, hqueue, _, hcuritem⟩⟩ := hq.dequeue hstep
  · exact hlive
  · intro r hr
    rw [hcache]
    apply hlive
    rcases hr with hr | ⟨thread', hr⟩
    · rw [Refers, hqueue]
      exact Or.inl (List.mem_cons_of_mem rp hr)
    · rw [hcuritem] at hr
      by_cases heq : thread' = thread
      · subst heq
        rw [Function.update_self] at hr
        obtain rfl := Option.some.inj hr
        rw [Refers, hqueue]
        exact Or.inl (List.mem_cons_self ..)
      · rw [Function.update_of_ne heq] at hr
        exact Or.inr ⟨thread', hr⟩

/-- An answer keeps the items that are referred to live unless it purges one of them. -/
theorem Run.answer_itemsLive (h : Run past s) {thread : Nat} {hName : Option (Option String)}
    {rand : Nat} (hstep : s.step (.answer thread hName rand) = some s') (hlive : s.ItemsLive) :
    s'.ItemsLive ↔ s.Spares (.answer thread hName rand) := by
  obtain ⟨⟨cachePast, hcache⟩, _⟩ := h.cache_queued
  obtain ⟨rp, e, cache, hthread, he, hcache', rfl⟩ := answer_cases hstep
  constructor
  · intro hlive' rp' hthread' hnew hfull r hr hrefers
    obtain rfl := Option.some.inj (hthread.symm.trans hthread')
    have hdead := (hcache.answer_live he hcache' (hlive r hrefers)).mpr ⟨hnew, hfull, hr⟩
    apply hdead
    apply hlive'
    rcases hrefers with hqueue | ⟨thread', hcur⟩
    · exact Or.inl hqueue
    · refine Or.inr ⟨thread', ?_⟩
      -- The answering thread has another item: its own is not in the active list.
      have hne : thread' ≠ thread := by
        rintro rfl
        obtain rfl := Option.some.inj (hthread.symm.trans hcur)
        exact hnew (List.mem_of_mem_drop hr)
      exact (Function.update_of_ne hne _ _).trans hcur
  · intro hspares r hr
    have hrefers : s.Refers r := by
      rcases hr with hqueue | ⟨thread', hcur⟩
      · exact Or.inl hqueue
      · refine Or.inr ⟨thread', ?_⟩
        by_cases heq : thread' = thread
        · subst heq
          exact absurd ((Function.update_self _ _ _).symm.trans hcur) (by simp)
        · exact (Function.update_of_ne heq _ _).symm.trans hcur
    by_contra hdead
    obtain ⟨hnew, hfull, hmem⟩ := (hcache.answer_live he hcache' (hlive r hrefers)).mp hdead
    exact hspares rp hthread hnew hfull r hmem hrefers

/-- A step keeps the items that are referred to live just when it spares them. -/
theorem Run.step_itemsLive (h : Run past s) (hstep : s.step e = some s') (hlive : s.ItemsLive) :
    s'.ItemsLive ↔ s.Spares e := by
  cases e with
  | tick =>
      obtain rfl := Option.some.inj hstep
      exact iff_of_true hlive trivial
  | lookup nameRes ip times rand => exact iff_of_true (h.lookup_itemsLive hstep hlive) trivial
  | dequeue thread => exact iff_of_true (h.dequeue_itemsLive hstep hlive) trivial
  | answer thread hName rand => exact h.answer_itemsLive hstep hlive

theorem itemsLive_threadOpen (time time' : UInt64) (pid : UInt16) :
    (threadOpen time time' pid).ItemsLive := by
  rintro r (hr | ⟨thread, hr⟩)
  · rw [(queued_threadOpen time time' pid).queue_eq] at hr
    cases hr
  · cases hr

/-- In a run, requests refer to live items in every state just when no answer purges an item that is
referred to. -/
theorem run_items_live_iff (h : Run past s) :
    ((∀ p ∈ past, p.1.ItemsLive) ∧ s.ItemsLive) ↔ ∀ p ∈ past, p.1.Spares p.2 := by
  induction h with
  | opened time time' pid => simp [itemsLive_threadOpen time time' pid]
  | @step past s s' h e hstep ih =>
      simp only [List.forall_mem_append, List.forall_mem_singleton]
      constructor
      · rintro ⟨⟨hpast, hlive⟩, hlive'⟩
        exact ⟨ih.mp ⟨hpast, hlive⟩, (h.step_itemsLive hstep hlive).mp hlive'⟩
      · rintro ⟨hpast, hspares⟩
        have hlive := ih.mpr hpast
        exact ⟨hlive, (h.step_itemsLive hstep hlive.2).mpr hspares⟩

/-- Two addresses are looked up, a thread takes the first request and answers it: the item of the other
request, which still waits, is live. -/
theorem run_items_live_answered :
    ∃ past s, Run past s ∧ past.map Prod.snd = [.lookup true (some (hostAddress 0)) [5] 3,
        .lookup true (some (hostAddress 1)) [6] 3, .dequeue 0, .answer 0 (some (some "host")) 0] ∧
      s.queue = [1] ∧ s.cache.activeItems = [0] ∧ s.ItemsLive := by
  have hsteps : (((threadOpen 1 1 7).step (.lookup true (some (hostAddress 0)) [5] 3)).bind fun s₁ =>
      (s₁.step (.lookup true (some (hostAddress 1)) [6] 3)).bind fun s₂ =>
      (s₂.step (.dequeue 0)).bind fun s₃ =>
      (s₃.step (.answer 0 (some (some "host")) 0)).map fun s₄ =>
        (s₃.cache.numActive, s₄.queue, s₄.cache.activeItems)) = some (0, [1], [0]) := by
    decide +kernel
  obtain ⟨s₁, hs₁, hsteps⟩ := Option.bind_eq_some_iff.mp hsteps
  obtain ⟨s₂, hs₂, hsteps⟩ := Option.bind_eq_some_iff.mp hsteps
  obtain ⟨s₃, hs₃, hsteps⟩ := Option.bind_eq_some_iff.mp hsteps
  obtain ⟨s₄, hs₄, hfacts⟩ := Option.map_eq_some_iff.mp hsteps
  simp only [Prod.mk.injEq] at hfacts
  obtain ⟨hcount, hqueue, hactive⟩ := hfacts
  have hrun := (((Run.opened 1 1 7).step _ hs₁).step _ hs₂).step _ hs₃ |>.step _ hs₄
  refine ⟨_, s₄, hrun, rfl, hqueue, hactive, ((run_items_live_iff hrun).mpr ?_).2⟩
  have hspares : s₃.Spares (.answer 0 (some (some "host")) 0) := by
    intro rp _ _ hfull
    rw [hcount] at hfull
    exact absurd hfull (by decide)
  simp only [List.forall_mem_append, List.forall_mem_singleton]
  exact ⟨⟨⟨⟨by simp, trivial⟩, trivial⟩, trivial⟩, hspares⟩

end Resolver

end EtherApe
