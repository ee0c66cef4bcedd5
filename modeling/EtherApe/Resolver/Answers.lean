import EtherApe.Resolver.SlowLookup

/-!
# Names are what was answered

A thread holds a pointer to an item while it waits for the name server, and other threads answer, ask
again and purge meanwhile. The name that is found for an address later on is still the last one that
was answered for this address: an item keeps its address for as long as it lives, and no other item
takes its place.
-/

namespace EtherApe

/-- The host name that a call tells for an item. -/
def IpcacheEvent.tells (r : ItemRef) : IpcacheEvent → Option String
  | .requestSucceeded rp _ ipname _ => if rp = r then ipname else none
  | _ => none

theorem IpcacheItem.requested_told (currentTick : UInt64) (rand : Nat) (item : IpcacheItem) :
    (item.requested currentTick rand).ip = item.ip ∧
      (item.requested currentTick rand).fqHostname = item.fqHostname := by
  unfold IpcacheItem.requested
  split <;> exact ⟨rfl, rfl⟩

namespace LruCache

variable {a a' : LruCache} {e : IpcacheEvent} {r t : ItemRef} {item item' : IpcacheItem}

theorem items_of_use (h : (a.use t).items r = some item) : a.items r = some item := by
  change (if _ then none else a.items r) = some item at h
  split at h
  · cases h
  · exact h

theorem items_set (a : LruCache) (t : ItemRef) (item : IpcacheItem) (r : ItemRef) :
    (a.set t item).items r = if r = t then some item else a.items r := Function.update_apply ..

/-- Where the items after a call come from: an item keeps its address, and the name that it was told
last, and a new one has been told nothing. -/
theorem Step.origin (h : a.Step e a') (hitem' : a'.items r = some item') :
    (∃ item, a.items r = some item ∧ item'.ip = item.ip ∧
      item'.fqHostname = (e.tells r).or item.fqHostname) ∨
    (r = a.allocated ∧ item'.fqHostname = none ∧ e.tells r = none) := by
  have hsame : a.items r = some item' → e.tells r = none → ∃ item, a.items r = some item ∧
      item'.ip = item.ip ∧ item'.fqHostname = (e.tells r).or item.fqHostname := by
    intro hitem htells
    refine ⟨item', hitem, rfl, ?_⟩
    rw [htells, Option.none_or]
  cases h with
  | tick => exact Or.inl (hsame hitem' rfl)
  | @refresh _ _ rand t item hitem hip =>
      rw [items_set] at hitem'
      split at hitem'
      next heq =>
        obtain ⟨hip', hname⟩ := IpcacheItem.requested_told a.currentTick rand item
        obtain rfl := Option.some.inj hitem'
        exact Or.inl ⟨item, heq ▸ hitem, hip', hname⟩
      next => exact Or.inl (hsame hitem' rfl)
  | @alloc ip _ rand id hip =>
      change (a.set a.allocated _).items r = some item' at hitem'
      rw [items_set] at hitem'
      split at hitem'
      next heq =>
        obtain ⟨_, hname⟩ := IpcacheItem.requested_told a.currentTick rand
          { Ipcache.blankItem ip with id := id }
        obtain rfl := Option.some.inj hitem'
        exact Or.inr ⟨heq, hname, rfl⟩
      next => exact Or.inl (hsame hitem' rfl)
  | unused hnone => exact Or.inl (hsame hitem' rfl)
  | used t huses => exact Or.inl (hsame (items_of_use hitem') rfl)
  | findid => exact Or.inl (hsame hitem' rfl)
  | ignored item hitem hstate => exact Or.inl (hsame hitem' rfl)
  | @failed t rand item hitem hstate =>
      have hset := items_of_use hitem'
      rw [items_set] at hset
      split at hset
      next heq =>
        obtain rfl := Option.some.inj hset
        exact Or.inl ⟨item, heq ▸ hitem, rfl, rfl⟩
      next => exact Or.inl (hsame hset rfl)
  | @succeeded t ttl ipname rand item hitem =>
      have hset := items_of_use hitem'
      rw [items_set] at hset
      split at hset
      next heq =>
        obtain rfl := Option.some.inj hset
        refine Or.inl ⟨item, heq ▸ hitem, rfl, ?_⟩
        rw [IpcacheEvent.tells, if_pos heq.symm]
        rfl
      next hne => exact Or.inl (hsame hset (if_neg fun heq => hne heq.symm))
  | clear =>
      change (if _ then none else a.items r) = some item' at hitem'
      split at hitem'
      · cases hitem'
      · exact Or.inl (hsame hitem' rfl)

theorem Step.allocated_le (h : a.Step e a') : a.allocated ≤ a'.allocated := by
  cases h with
  | alloc id hip => exact Nat.le_succ _
  | _ => exact le_refl _

theorem Step.live_of_tells (h : a.Step e a') {name : String} (htells : e.tells r = some name) :
    ∃ item, a.items r = some item := by
  cases h with
  | @succeeded t ttl ipname rand item hitem =>
      rw [IpcacheEvent.tells] at htells
      split at htells
      next heq => exact ⟨item, heq ▸ hitem⟩
      next => cases htells
  | _ => cases htells

end LruCache

namespace Ipcache

variable {s s' : Ipcache} {ring : List ItemRef} {e : IpcacheEvent} {told : ItemRef → List String}
  {earlier : List Ipcache}

/-- Every item has the name that it was told last, and the address that it had in `earlier` caches. -/
structure Told (told : ItemRef → List String) (earlier : List Ipcache) (s : Ipcache) : Prop where
  names : ∀ r item, s.heap r = some item → item.fqHostname = (told r).getLast?
  addresses : ∀ c ∈ earlier, ∀ r item item', c.heap r = some item → s.heap r = some item' →
    item'.ip = item.ip
  allocated : ∀ c ∈ earlier, ∀ r, c.Live r → r < s.allocated
  untold : ∀ r, s.allocated ≤ r → told r = []

theorem Told.init (time time' : UInt64) (pid : UInt16) :
    Told (fun _ => []) [] (start.init time time' pid) where
  names r item hitem := by cases hitem
  addresses c hc := absurd hc List.not_mem_nil
  allocated c hc := absurd hc List.not_mem_nil
  untold _ _ := rfl

def tellMore (told : ItemRef → List String) (e : IpcacheEvent) : ItemRef → List String :=
  fun r => told r ++ (e.tells r).toList

theorem getLast?_append_toList (names : List String) (name : Option String) :
    (names ++ name.toList).getLast? = name.or names.getLast? := by
  cases name with
  | none => rw [Option.toList_none, List.append_nil, Option.none_or]
  | some name => rw [Option.toList_some, List.getLast?_concat, Option.some_or]

theorem Told.step (h : s.Told told earlier) (hsound : s.Sound ring) (hstep : s.step e = some s') :
    s'.Told (tellMore told e) earlier := by
  obtain ⟨ring', _, hlru⟩ := hsound.step hstep
  have horigin : ∀ r item', s'.heap r = some item' →
      (∃ item, s.heap r = some item ∧ item'.ip = item.ip ∧
        item'.fqHostname = (e.tells r).or item.fqHostname) ∨
      (r = s.allocated ∧ item'.fqHostname = none ∧ e.tells r = none) := by
    intro r item' hitem'
    rcases hlru.origin (abstract_items ring' hitem') with ⟨item₀, hitem₀, hip, hname⟩ | hnew
    · obtain ⟨item, hitem, rfl⟩ := exists_of_items hitem₀
      exact Or.inl ⟨item, hitem, hip, hname⟩
    · exact Or.inr hnew
  refine ⟨fun r item' hitem' => ?_, fun c hc r item item' hitem hitem' => ?_,
    fun c hc r hr => (h.allocated c hc r hr).trans_le hlru.allocated_le, fun r hr => ?_⟩
  · rw [tellMore, getLast?_append_toList]
    rcases horigin r item' hitem' with ⟨item, hitem, _, hname⟩ | ⟨hr, hname, htells⟩
    · rw [hname, h.names r item hitem]
    · rw [hname, htells, h.untold r hr.ge]
      rfl
  · rcases horigin r item' hitem' with ⟨middle, hmiddle, hip, _⟩ | ⟨hr, _⟩
    · rw [hip, h.addresses c hc r item middle hitem hmiddle]
    · have hlt := h.allocated c hc r (live_of_eq hitem)
      exact absurd hr hlt.ne
  · have hr' : s.allocated ≤ r := hlru.allocated_le.trans hr
    rw [tellMore, h.untold r hr', List.nil_append, Option.toList_eq_nil_iff]
    by_contra htells
    obtain ⟨name, htells⟩ := Option.ne_none_iff_exists'.mp htells
    obtain ⟨item₀, hitem₀⟩ := hlru.live_of_tells htells
    obtain ⟨item, hitem, _⟩ := exists_of_items hitem₀
    exact absurd (hsound.allocated r (live_of_eq hitem)) hr'.not_gt

theorem Told.step_untold (h : s.Told told earlier) (hsound : s.Sound ring)
    (hstep : s.step e = some s') (htells : ∀ r, e.tells r = none) : s'.Told told earlier := by
  have htold : tellMore told e = told := by
    funext r
    rw [tellMore, htells, Option.toList_none, List.append_nil]
  have hnext := h.step hsound hstep
  rwa [htold] at hnext

theorem Told.record (h : s.Told told earlier) (hsound : s.Sound ring) :
    s.Told told (earlier ++ [s]) where
  names := h.names
  addresses c hc r item item' hitem hitem' := by
    rcases List.mem_append.mp hc with hc | hc
    · exact h.addresses c hc r item item' hitem hitem'
    · obtain rfl := List.mem_singleton.mp hc
      rw [Option.some.inj (hitem.symm.trans hitem')]
  allocated c hc r hr := by
    rcases List.mem_append.mp hc with hc | hc
    · exact h.allocated c hc r hr
    · obtain rfl := List.mem_singleton.mp hc
      exact hsound.allocated r hr
  untold := h.untold

/-- What is found for an address: its own text, or the name of the item of this address. -/
theorem Sound.getnameip_cases (h : s.Sound ring) {nameRes : Bool} {ip : Address} {name : NameIp}
    {isExpired : Option Bool} (hname : s.getnameip nameRes (some ip) = some (name, isExpired, s')) :
    name = .address ip ∨ ∃ r item host, s.heap r = some item ∧ item.ip = ip ∧
      item.fqHostname = some host ∧ name = .hostname host := by
  cases nameRes with
  | false =>
      obtain ⟨rfl, _⟩ := Prod.mk.inj (Option.some.inj hname)
      exact Or.inl rfl
  | true =>
      obtain ⟨found, ipbash, hfind, _, hfound⟩ := h.findip ip
      simp only [Ipcache.getnameip, hfind, Bool.not_true, Bool.false_eq_true, if_false,
        Option.bind_eq_bind, Option.bind_some] at hname
      cases found with
      | none =>
          obtain ⟨rfl, _⟩ := Prod.mk.inj (Option.some.inj hname)
          exact Or.inl rfl
      | some r =>
          obtain ⟨item, hitem, hip⟩ := (hfound r).mp rfl
          simp only [hitem, Option.bind_some] at hname
          split at hname
          · obtain ⟨s₁, _, hresult⟩ := Option.bind_eq_some_iff.mp hname
            split at hresult
            next host hstate hhost =>
              obtain ⟨rfl, _⟩ := Prod.mk.inj (Option.some.inj hresult)
              exact Or.inr ⟨r, item, host, hitem, hip, hhost, rfl⟩
            next =>
              obtain ⟨rfl, _⟩ := Prod.mk.inj (Option.some.inj hresult)
              exact Or.inl rfl
          · obtain ⟨rfl, _⟩ := Prod.mk.inj (Option.some.inj hname)
            exact Or.inl rfl

end Ipcache

namespace Resolver

variable {s s' : Resolver} {e : ResolverEvent} {past : List (Resolver × ResolverEvent)}

/-- The name that a step tells for an item: the thread that answers holds the item. -/
def tells (r : ItemRef) (p : Resolver × ResolverEvent) : Option String :=
  match p.2 with
  | .answer thread hName _ => if p.1.curitem thread = some r then hName.join else none
  | _ => none

theorem answer_tells {thread : Nat} {hName : Option (Option String)} {rand : Nat}
    (hstep : s.step (.answer thread hName rand) = some s') :
    ∃ e, s.cache.step e = some s'.cache ∧ ∀ r, e.tells r = tells r (s, .answer thread hName rand) := by
  simp only [step] at hstep
  split at hstep
  · cases hstep
  next rp hthread =>
  cases hName with
  | none =>
      obtain ⟨cache, hcache, hresult⟩ := Option.bind_eq_some_iff.mp hstep
      obtain rfl := Option.some.inj hresult
      refine ⟨.requestFailed rp rand, hcache, fun r => ?_⟩
      change (none : Option String) = if s.curitem thread = some r then none else none
      rw [ite_self]
  | some hName =>
      obtain ⟨cache, hcache, hresult⟩ := Option.bind_eq_some_iff.mp hstep
      obtain rfl := Option.some.inj hresult
      refine ⟨.requestSucceeded rp (3600 * 24) hName rand, hcache, fun r => ?_⟩
      change (if rp = r then hName else none) = if s.curitem thread = some r then hName else none
      rw [hthread]
      simp only [Option.some_inj]

/-- What holds in a run: the names told, and that each was told for an item that was there. -/
structure Answered (past : List (Resolver × ResolverEvent)) (s : Resolver) : Prop where
  told : s.cache.Told (fun r => past.filterMap (tells r)) (past.map fun p => p.1.cache)
  live : ∀ p ∈ past, ∀ r, (tells r p).isSome → p.1.cache.Live r

theorem filterMap_concat (r : ItemRef) : (past ++ [(s, e)]).filterMap (tells r) =
    past.filterMap (tells r) ++ (tells r (s, e)).toList := by
  rw [List.filterMap_append]
  cases h : tells r (s, e) <;> simp [h]

theorem Answered.told_step (h : s.Answered past) {ring : List ItemRef} (hsound : s.cache.Sound ring)
    {call : IpcacheEvent} {cache : Ipcache} (hcache : s.cache.step call = some cache)
    (htells : ∀ r, call.tells r = tells r (s, e)) :
    cache.Told (fun r => (past ++ [(s, e)]).filterMap (tells r))
      ((past ++ [(s, e)]).map fun p => p.1.cache) := by
  have hnext := (h.told.record hsound).step hsound hcache
  have htold : Ipcache.tellMore (fun r => past.filterMap (tells r)) call =
      fun r => (past ++ [(s, e)]).filterMap (tells r) := by
    funext r
    rw [Ipcache.tellMore, htells, filterMap_concat]
  rw [htold] at hnext
  rwa [List.map_append, List.map_singleton]

theorem Answered.told_same (h : s.Answered past) {ring : List ItemRef} (hsound : s.cache.Sound ring)
    (htells : ∀ r, tells r (s, e) = none) :
    s.cache.Told (fun r => (past ++ [(s, e)]).filterMap (tells r))
      ((past ++ [(s, e)]).map fun p => p.1.cache) := by
  have hnext := h.told.record hsound
  have htold : (fun r => past.filterMap (tells r)) =
      fun r => (past ++ [(s, e)]).filterMap (tells r) := by
    funext r
    rw [filterMap_concat, htells, Option.toList_none, List.append_nil]
  rw [htold] at hnext
  rwa [List.map_append, List.map_singleton]

theorem Run.answered (h : Run past s) : s.Answered past := by
  induction h with
  | opened time time' pid =>
      exact ⟨Ipcache.Told.init time time' pid, fun p hp => absurd hp List.not_mem_nil⟩
  | @step past s s' h e hstep ih =>
      obtain ⟨⟨cachePast, hcache⟩, q, hq⟩ := h.cache_queued
      obtain ⟨ring, hsound⟩ := hcache.sound
      refine ⟨?_, fun p hp r hr => ?_⟩
      · cases e with
        | tick =>
            obtain rfl := Option.some.inj hstep
            have htick : s.cache.step .tick = some s.cache.tick := rfl
            exact ih.told_step hsound htick fun _ => rfl
        | lookup nameRes ip times rand =>
            obtain ⟨⟨ipname, s₁⟩, hlookup, rfl⟩ := Option.map_eq_some_iff.mp hstep
            rcases threadLookup_cases hlookup with rfl | ⟨ip', name, isExpired, cache, hname, hsend⟩
            · exact ih.told_same hsound fun _ => rfl
            · have hget : s.cache.step (.getnameip nameRes (some ip')) = some cache := by
                simp [Ipcache.step, hname]
              have hnext := ih.told_step (e := .lookup nameRes ip times rand) hsound hget fun _ => rfl
              have hcache₁ := hcache.step _ hget
              rcases hsend with rfl | hsend
              · exact hnext
              · obtain ⟨ring₁, hsound₁⟩ := hcache₁.sound
                obtain ⟨rp, hprepare, _⟩ := (hq.congr cache s.curitem).sendrequestInverse hsend
                have hrequest : cache.step (.prepareRequest ip' times rand) = some s₁.cache := by
                  simp [Ipcache.step, hprepare]
                exact hnext.step_untold hsound₁ hrequest fun _ => rfl
        | dequeue thread =>
            obtain ⟨heq, _⟩ := hq.dequeue hstep
            rw [heq]
            exact ih.told_same hsound fun _ => rfl
        | answer thread hName rand =>
            obtain ⟨call, hcall, htells⟩ := answer_tells hstep
            exact ih.told_step hsound hcall htells
      · rcases List.mem_append.mp hp with hp | hp
        · exact ih.live p hp r hr
        · obtain rfl := List.mem_singleton.mp hp
          cases e with
          | answer thread hName rand =>
              obtain ⟨call, hcall, htells⟩ := answer_tells hstep
              obtain ⟨_, _, hlru⟩ := hsound.step hcall
              obtain ⟨name, hname⟩ := Option.isSome_iff_exists.mp hr
              obtain ⟨item₀, hitem₀⟩ := hlru.live_of_tells ((htells r).trans hname)
              obtain ⟨item, hitem, _⟩ := Ipcache.exists_of_items hitem₀
              exact Ipcache.live_of_eq hitem
          | _ => cases hr

/-- **Answers.** In every run of lookups and threads, in any order, a lookup of an address finds the
text of this address, or the last name that was answered for an item, each of whose answers was given
while the item had this address. -/
theorem run_lookup_answered (h : Run past s) {nameRes : Bool} {ip : Address} {times : List UInt64}
    {rand : Nat} {name : Ipcache.NameIp}
    (hlookup : s.threadLookup nameRes (some ip) times rand = some (name, s')) :
    name = .address ip ∨ ∃ r host, name = .hostname host ∧
      (past.filterMap (tells r)).getLast? = some host ∧
      ∀ p ∈ past, (tells r p).isSome → ∃ item, p.1.cache.heap r = some item ∧ item.ip = ip := by
  obtain ⟨⟨cachePast, hcache⟩, _⟩ := h.cache_queued
  obtain ⟨ring, hsound⟩ := hcache.sound
  have hanswered := h.answered
  simp only [threadLookup, Option.bind_eq_bind] at hlookup
  obtain ⟨⟨found, isExpired, cache⟩, hname, hrest⟩ := Option.bind_eq_some_iff.mp hlookup
  have hsame : found = name := by
    split at hrest
    · obtain ⟨_, _, hresult⟩ := Option.bind_eq_some_iff.mp hrest
      exact (Prod.mk.inj (Option.some.inj hresult)).1
    · exact (Prod.mk.inj (Option.some.inj hrest)).1
  subst hsame
  rcases hsound.getnameip_cases hname with haddress | ⟨r, item, host, hitem, hip, hhost, hfound⟩
  · exact Or.inl haddress
  · refine Or.inr ⟨r, host, hfound, ?_, fun p hp htells => ?_⟩
    · rw [← hanswered.told.names r item hitem, hhost]
    · obtain ⟨old, hold⟩ := (hanswered.live p hp r htells).exists
      refine ⟨old, hold, ?_⟩
      rw [← hip]
      exact (hanswered.told.addresses p.1.cache (List.mem_map_of_mem hp) r old item hold hitem).symm

/-- Two threads hold the same item; one of them answers, and the other is late with another name. -/
def lateAnswer : List ResolverEvent :=
  [.lookup true (some (hostAddress 0)) [1300040598] 0, .tick,
    .lookup true (some (hostAddress 0)) [] 0, .dequeue 0, .dequeue 1,
    .answer 1 (some (some "first")) 0, .answer 0 (some (some "second")) 0]

theorem run_lookup_answered_late : ∃ past s s', Run past s ∧
    s.threadLookup true (some (hostAddress 0)) [] 0 = some (.hostname "second", s') ∧
      ∃ r, (past.filterMap (tells r)).getLast? = some "second" ∧
        ∀ p ∈ past, (tells r p).isSome → ∃ item, p.1.cache.heap r = some item ∧
          item.ip = hostAddress 0 := by
  have hfacts : (((machine 1300040598 1300040598 13026).stepAll
      (threadOpen 1300040598 1300040598 13026) lateAnswer).bind fun s =>
      s.threadLookup true (some (hostAddress 0)) [] 0).map Prod.fst = some (.hostname "second") := by
    decide +kernel
  obtain ⟨⟨name, s'⟩, hresult, hname⟩ := Option.map_eq_some_iff.mp hfacts
  obtain ⟨s, hsteps, hlookup⟩ := Option.bind_eq_some_iff.mp hresult
  obtain rfl : name = .hostname "second" := hname
  obtain ⟨past, hrun, _⟩ := does_of_stepAll hsteps
  refine ⟨past, s, s', hrun, hlookup, ?_⟩
  rcases run_lookup_answered hrun hlookup with haddress | ⟨r, host, hhost, hlast, hanswers⟩
  · exact Ipcache.NameIp.noConfusion haddress
  · obtain rfl := Ipcache.NameIp.hostname.inj hhost
    exact ⟨r, hlast, hanswers⟩

end Resolver

end EtherApe
