import EtherApe.IpCache.Runs

/-!
# Retries of unanswered requests

The delay until an address is asked for again should double with every request that is not answered. The
code doubles the tick of the last expiry instead, which is the delay on top of the time that the program
has been running, so the delays are right only while no time has passed or when they have grown up to the
limit anyway.
-/

namespace EtherApe

/-- A request for an item: when it is made, its random offset, and when the item expires after it. -/
structure LookupRequest where
  tick : UInt64
  offset : UInt64
  expireTick : UInt64

def LookupRequest.delay (q : LookupRequest) : UInt64 := q.expireTick - q.tick - q.offset

/-- The delays after requests with the given offsets, from the delay after the first of them on. -/
def retryDelays (delay : Nat) : List Nat → List Nat
  | [] => []
  | offset :: offsets => delay :: retryDelays (min 86400 (2 * (delay + offset))) offsets

/-- The delay doubles with each request, so that the delays are those of the offsets alone, whenever the
requests are made. -/
structure DelaysDouble (requests : List LookupRequest) : Prop where
  doubled : requests.IsChain fun q q' =>
    q'.delay.toNat = min 86400 (2 * (q.delay.toNat + q.offset.toNat))
  timeless : requests.map (fun q => q.delay.toNat) =
    retryDelays 0 (requests.map fun q => q.offset.toNat)

/-- The time of a request does not show in the delay after the next one: twice its tick is zero, or twice
the time that the item has left is the limit already, with the tick or without. -/
def UptimeHidden (tick left : Nat) : Prop :=
  2 * tick % 2 ^ 64 = 0 ∨ 86400 ≤ 2 * left ∧ 86400 ≤ 2 * (tick + left) % 2 ^ 64

/-- The time of no request but the last one shows; the requests are given by their ticks and offsets. -/
def UptimesHidden (delay : Nat) : List (Nat × Nat) → Prop
  | [] => True
  | [_] => True
  | (tick, offset) :: request :: requests =>
      UptimeHidden tick (delay + offset) ∧
        UptimesHidden (min 86400 (2 * (delay + offset))) (request :: requests)

/-! ### Histories -/

/-- The delay that `ipcache_calc_expire_tick` takes for the given one. -/
def clampDelay (delay : UInt64) : UInt64 := if delay > 86400 then 86400 else delay

theorem clampDelay_toNat (delay : UInt64) : (clampDelay delay).toNat = min 86400 delay.toNat := by
  unfold clampDelay
  split_ifs with h
  · have hlt := UInt64.lt_iff_toNat_lt.mp h
    show 86400 = _
    exact (min_eq_left hlt.le).symm
  · rw [UInt64.not_lt] at h
    exact (min_eq_right (UInt64.le_iff_toNat_le.mp h)).symm

/-- What the code does with two requests in a row. -/
def Escalates (q q' : LookupRequest) : Prop :=
  q'.expireTick = clampDelay (q.expireTick * 2) + q'.tick + q'.offset

/-- The requests for an item that was not answered since it is there. -/
structure Unanswered (requests : List LookupRequest) (lastExpireTick : UInt64) : Prop where
  first : ∀ q ∈ requests.head?, q.expireTick = q.tick + q.offset
  escalates : requests.IsChain Escalates
  offsets : ∀ q ∈ requests, q.offset.toNat < 12
  last : requests.getLast?.map LookupRequest.expireTick = some lastExpireTick

theorem delay_of_eq {q : LookupRequest} {delay : UInt64}
    (h : q.expireTick = delay + q.tick + q.offset) : q.delay = delay := by
  rw [LookupRequest.delay, h, ← UInt64.toNat_inj]
  simp only [UInt64.toNat_sub, UInt64.toNat_add]
  have hdelay := delay.toNat_lt
  have htick := q.tick.toNat_lt
  have hoffset := q.offset.toNat_lt
  omega

theorem Escalates.delay {q q' : LookupRequest} (h : Escalates q q') :
    q'.delay = clampDelay (2 * (q.tick + (q.delay + q.offset))) := by
  rw [delay_of_eq h]
  congr 1
  rw [LookupRequest.delay, ← UInt64.toNat_inj]
  simp only [UInt64.toNat_mul, UInt64.toNat_sub, UInt64.toNat_add, UInt64.reduceToNat]
  have hexpire := q.expireTick.toNat_lt
  have htick := q.tick.toNat_lt
  have hoffset := q.offset.toNat_lt
  omega

theorem uptimeHidden_iff {tick left : Nat} (hleft : left < 86412) :
    min 86400 (2 * (tick + left) % 2 ^ 64) = min 86400 (2 * left) ↔ UptimeHidden tick left := by
  unfold UptimeHidden
  omega

theorem Escalates.doubled_iff {q q' : LookupRequest} (h : Escalates q q')
    (hdelay : q.delay.toNat ≤ 86400) (hoffset : q.offset.toNat < 12) :
    q'.delay.toNat = min 86400 (2 * (q.delay.toNat + q.offset.toNat)) ↔
      UptimeHidden q.tick.toNat (q.delay.toNat + q.offset.toNat) := by
  rw [← uptimeHidden_iff (by omega), h.delay, clampDelay_toNat]
  simp only [UInt64.toNat_mul, UInt64.toNat_add, UInt64.reduceToNat]
  have hwrap : 2 * ((q.tick.toNat + (q.delay.toNat + q.offset.toNat) % 2 ^ 64) % 2 ^ 64) % 2 ^ 64 =
      2 * (q.tick.toNat + (q.delay.toNat + q.offset.toNat)) % 2 ^ 64 := by
    omega
  rw [hwrap]

theorem Escalates.delay_le {q q' : LookupRequest} (h : Escalates q q') : q'.delay.toNat ≤ 86400 := by
  rw [h.delay, clampDelay_toNat]
  exact min_le_left _ _

theorem doubled_iff {q : LookupRequest} {qs : List LookupRequest}
    (h : (q :: qs).IsChain Escalates) (hdelay : q.delay.toNat ≤ 86400)
    (hoffsets : ∀ q' ∈ q :: qs, q'.offset.toNat < 12) :
    ((q :: qs).IsChain fun q q' =>
        q'.delay.toNat = min 86400 (2 * (q.delay.toNat + q.offset.toNat))) ↔
      UptimesHidden q.delay.toNat ((q :: qs).map fun q => (q.tick.toNat, q.offset.toNat)) := by
  induction qs generalizing q with
  | nil => exact iff_of_true (List.isChain_singleton _) trivial
  | cons q' qs ih =>
      obtain ⟨hescalates, hrest⟩ := List.isChain_cons_cons.mp h
      obtain ⟨hoffset, hoffsets⟩ := List.forall_mem_cons.mp hoffsets
      rw [List.isChain_cons_cons, List.map_cons, List.map_cons, UptimesHidden,
        hescalates.doubled_iff hdelay hoffset]
      refine and_congr_right fun hhidden => ?_
      rw [← (hescalates.doubled_iff hdelay hoffset).mpr hhidden]
      exact ih hrest hescalates.delay_le hoffsets

/-- Delays that double depend on nothing but the first of them and the offsets. -/
theorem map_delay_of_doubled {q : LookupRequest} {qs : List LookupRequest}
    (h : (q :: qs).IsChain fun q q' =>
      q'.delay.toNat = min 86400 (2 * (q.delay.toNat + q.offset.toNat))) :
    (q :: qs).map (fun q => q.delay.toNat) =
      retryDelays q.delay.toNat ((q :: qs).map fun q => q.offset.toNat) := by
  induction qs generalizing q with
  | nil => rfl
  | cons q' qs ih =>
      obtain ⟨hdoubled, hrest⟩ := List.isChain_cons_cons.mp h
      rw [List.map_cons, ih hrest, hdoubled]
      rfl

theorem Unanswered.delaysDouble_iff {qs : List LookupRequest} {last : UInt64}
    (h : Unanswered qs last) :
    DelaysDouble qs ↔ UptimesHidden 0 (qs.map fun q => (q.tick.toNat, q.offset.toNat)) := by
  cases qs with
  | nil => cases h.last
  | cons q qs =>
      have hfirst : q.delay = 0 := by
        apply delay_of_eq
        rw [UInt64.zero_add]
        exact h.first q rfl
      have hdelay : q.delay.toNat = 0 := congrArg UInt64.toNat hfirst
      have hiff := doubled_iff h.escalates (by omega) h.offsets
      rw [hdelay] at hiff
      rw [← hiff]
      constructor
      · exact DelaysDouble.doubled
      · intro hdoubled
        refine ⟨hdoubled, ?_⟩
        rw [map_delay_of_doubled hdoubled, hdelay]

theorem unanswered_singleton {q : LookupRequest} (h : q.expireTick = q.tick + q.offset)
    (hoffset : q.offset.toNat < 12) : Unanswered [q] q.expireTick where
  first := by
    intro q' hq'
    rwa [← Option.mem_some.mp hq']
  escalates := List.isChain_singleton q
  offsets := by
    intro q' hq'
    rwa [List.mem_singleton.mp hq']
  last := rfl

theorem Unanswered.concat {qs : List LookupRequest} {last : UInt64} (h : Unanswered qs last)
    {q : LookupRequest} (hq : q.expireTick = clampDelay (last * 2) + q.tick + q.offset)
    (hoffset : q.offset.toNat < 12) : Unanswered (qs ++ [q]) q.expireTick where
  first q' hq' := by
    rw [List.head?_append] at hq'
    cases hhead : qs.head? with
    | none =>
        obtain rfl := List.head?_eq_none_iff.mp hhead
        cases h.last
    | some q₀ =>
        rw [hhead, Option.some_or] at hq'
        exact h.first q' (hhead ▸ hq')
  escalates := by
    refine List.isChain_append.mpr ⟨h.escalates, List.isChain_singleton q, ?_⟩
    intro q₀ hq₀ q' hq'
    have hlast := h.last
    rw [Option.mem_def.mp hq₀, Option.map_some, Option.some.injEq] at hlast
    rw [← Option.mem_some.mp hq', Escalates, hlast]
    exact hq
  offsets q' hq' := by
    rcases List.mem_append.mp hq' with hq' | hq'
    · exact h.offsets q' hq'
    · rw [List.mem_singleton.mp hq']
      exact hoffset
  last := by simp

/-! ### Runs -/

namespace Ipcache

variable {past : List (Ipcache × IpcacheEvent)} {s s' : Ipcache} {e : IpcacheEvent} {r : ItemRef}
  {ring : List ItemRef}

def requestOf (r : ItemRef) (p : Ipcache × IpcacheEvent) : Option LookupRequest :=
  match p.2 with
  | .prepareRequest ip times rand => do
      let result ← p.1.prepareRequest ip times rand
      let item ← result.2.heap result.1
      if result.1 = r then
        some ⟨p.1.currentTick, UInt64.ofNat (rand % 12), item.expireTick⟩
      else none
  | _ => none

def requestsFor (r : ItemRef) (past : List (Ipcache × IpcacheEvent)) : List LookupRequest :=
  past.filterMap (requestOf r)

theorem requestsFor_concat : requestsFor r (past ++ [(s, e)]) =
    requestsFor r past ++ (requestOf r (s, e)).toList := by
  unfold requestsFor
  rw [List.filterMap_append]
  cases hrequest : requestOf r (s, e) with
  | none => simp [hrequest]
  | some q => simp [hrequest]

theorem requestOf_prepareRequest {ip : Address} {times : List UInt64} {rand : Nat} {rp : ItemRef}
    {item : IpcacheItem} (hprepare : s.prepareRequest ip times rand = some (rp, s'))
    (hitem : s'.heap rp = some item) :
    requestOf r (s, .prepareRequest ip times rand) =
      if rp = r then some ⟨s.currentTick, UInt64.ofNat (rand % 12), item.expireTick⟩ else none := by
  simp only [requestOf, hprepare, Option.bind_eq_bind, Option.bind_some, hitem]

theorem items_of_step {a a' : LruCache} {item : IpcacheItem} (h : LruCache.Step a e a')
    (hrequest : ∀ ip times rand, e ≠ .prepareRequest ip times rand) (hanswers : e.answers ≠ some r)
    (hitem : a'.items r = some item) : a.items r = some item := by
  have huse : ∀ {b : LruCache} {t : ItemRef}, (b.use t).items r = some item →
      b.items r = some item := by
    intro b t h
    change (if r ∈ b.ring ∧ r ∉ touch b.ring t then none else b.items r) = some item at h
    split_ifs at h
    exact h
  cases h with
  | tick | unused hnone | findid | ignored item' hitem' hstate => exact hitem
  | refresh t item' hitem' hip => exact absurd rfl (hrequest _ _ _)
  | alloc id hip => exact absurd rfl (hrequest _ _ _)
  | used t huses => exact huse hitem
  | failed item' hitem' hstate =>
      have hset := huse hitem
      rwa [set_items_of_ne _ _ fun heq => hanswers (congrArg some heq.symm)] at hset
  | succeeded item' hitem' =>
      have hset := huse hitem
      rwa [set_items_of_ne _ _ fun heq => hanswers (congrArg some heq.symm)] at hset
  | clear =>
      change (if r ∈ a.ring then none else a.items r) = some item at hitem
      split_ifs at hitem
      exact hitem

/-- What is known of the requests of the past: a new item has none, and an item that was not answered
expires as they say. -/
structure Recorded (s : Ipcache) (past : List (Ipcache × IpcacheEvent)) : Prop where
  fresh : ∀ r, s.allocated ≤ r → requestsFor r past = []
  waiting : ∀ r item, s.heap r = some item → ¬Answered past r →
    item.state = .ptrreq ∧ Unanswered (requestsFor r past) item.lastExpireTick

theorem allocated_le_of_step {a a' : LruCache} (h : LruCache.Step a e a') :
    a.allocated ≤ a'.allocated := by
  cases h with
  | alloc id hip => exact Nat.le_succ _
  | tick | refresh t item hitem hip | unused hnone | used t huses | findid
  | ignored item hitem hstate | failed item hitem hstate | succeeded item hitem | clear => exact le_rfl

theorem recorded_init (time time' : UInt64) (pid : UInt16) :
    (start.init time time' pid).Recorded [] where
  fresh _ _ := rfl
  waiting r item hitem _ := by cases hitem

theorem randOffset_lt (rand : Nat) : (UInt64.ofNat (rand % 12)).toNat < 12 := by
  rw [UInt64.toNat_ofNat']
  omega

theorem written_of_requested {tick : UInt64} {rand : Nat} {base item : IpcacheItem}
    (h : item.content = base.requested tick rand) (hbase : base.state = .ptrreq) :
    item.state = .ptrreq ∧ item.lastExpireTick = item.expireTick ∧
      item.expireTick =
        clampDelay (base.lastExpireTick * 2) + tick + UInt64.ofNat (rand % 12) := by
  have hrequested : base.requested tick rand =
      calcExpireTick tick base (base.lastExpireTick * 2) true rand := by
    unfold IpcacheItem.requested
    rw [hbase]
    cases base
    cases hbase
    rfl
  rw [hrequested] at h
  have hexpire := congrArg IpcacheItem.expireTick h
  have hlast := congrArg IpcacheItem.lastExpireTick h
  have hstate := congrArg IpcacheItem.state h
  exact ⟨hstate.trans hbase, hlast.trans hexpire.symm, hexpire⟩

theorem Recorded.waiting_of_items {item : IpcacheItem} (h : s.Recorded past)
    (hitem : (s.abstract ring).items r = some item.content) (hnever : ¬Answered past r) :
    item.state = .ptrreq ∧ Unanswered (requestsFor r past) item.lastExpireTick := by
  obtain ⟨item', hitem', hcontent⟩ := exists_of_items hitem
  obtain ⟨hstate, hunanswered⟩ := h.waiting r item' hitem' hnever
  have hlast := congrArg IpcacheItem.lastExpireTick hcontent
  change item'.lastExpireTick = item.lastExpireTick at hlast
  rw [hlast] at hunanswered
  exact ⟨(congrArg IpcacheItem.state hcontent).symm.trans hstate, hunanswered⟩

theorem Recorded.prepareRequest {ip : Address} {times : List UInt64} {rand : Nat} {rp : ItemRef}
    (h : s.Recorded past) (hsound : s.Sound ring)
    (hprepare : s.prepareRequest ip times rand = some (rp, s')) :
    s'.Recorded (past ++ [(s, .prepareRequest ip times rand)]) := by
  obtain ⟨hsound', hlive, hcases⟩ := hsound.prepareRequest_cases hprepare
  obtain ⟨item, hitem⟩ := hlive.exists
  have hself : requestsFor rp (past ++ [(s, .prepareRequest ip times rand)]) = requestsFor rp past ++
      [⟨s.currentTick, UInt64.ofNat (rand % 12), item.expireTick⟩] := by
    rw [requestsFor_concat, requestOf_prepareRequest hprepare hitem, if_pos rfl]
    rfl
  have hother : ∀ r, rp ≠ r → requestsFor r (past ++ [(s, .prepareRequest ip times rand)]) =
      requestsFor r past := by
    intro r hr
    rw [requestsFor_concat, requestOf_prepareRequest hprepare hitem, if_neg hr, Option.toList_none,
      List.append_nil]
  have hanswered : ∀ r, Answered (past ++ [(s, .prepareRequest ip times rand)]) r ↔
      Answered past r := by
    intro r
    exact answered_concat.trans (or_iff_left fun h => by cases h)
  have hcontent := abstract_items ring hitem
  rcases hcases with ⟨item₀, hitem₀, _, habstract⟩ | ⟨rfl, _, id, habstract⟩
  · constructor
    · intro r hr
      have hallocated : s'.allocated = s.allocated := congrArg LruCache.allocated habstract
      rw [hallocated] at hr
      have hlt := (hsound.allocated rp (live_of_eq hitem₀)).trans_le hr
      rw [hother r hlt.ne]
      exact h.fresh r hr
    · intro r item' hitem' hnever
      rw [hanswered] at hnever
      by_cases hr : rp = r
      · subst hr
        obtain rfl := Option.some.inj (hitem.symm.trans hitem')
        obtain ⟨hstate, hunanswered⟩ := h.waiting rp item₀ hitem₀ hnever
        rw [habstract, set_items_self, Option.some.injEq] at hcontent
        obtain ⟨hstate', hlast, hexpire⟩ := written_of_requested hcontent.symm hstate
        rw [hself, hlast]
        exact ⟨hstate', hunanswered.concat hexpire (randOffset_lt rand)⟩
      · have hold := abstract_items ring hitem'
        rw [habstract, set_items_of_ne _ _ (Ne.symm hr)] at hold
        rw [hother r hr]
        exact h.waiting_of_items hold hnever
  · constructor
    · intro r hr
      have hallocated : s'.allocated = s.allocated + 1 := congrArg LruCache.allocated habstract
      rw [hallocated] at hr
      rw [hother r (Nat.lt_of_succ_le hr).ne]
      exact h.fresh r (Nat.le_of_succ_le hr)
    · intro r item' hitem' hnever
      rw [hanswered] at hnever
      by_cases hr : s.allocated = r
      · subst hr
        obtain rfl := Option.some.inj (hitem.symm.trans hitem')
        rw [habstract] at hcontent
        have hwritten := Option.some.inj ((set_items_self _ _ _).symm.trans hcontent)
        obtain ⟨hstate, hlast, hexpire⟩ := written_of_requested hwritten.symm rfl
        rw [hself, h.fresh _ le_rfl, hlast]
        refine ⟨hstate, unanswered_singleton (hexpire.trans ?_) (randOffset_lt rand)⟩
        show clampDelay (0 * 2) + _ + _ = _
        rw [show clampDelay (0 * 2) = 0 from rfl, UInt64.zero_add]
      · have hold := abstract_items ring hitem'
        rw [habstract] at hold
        have hsame := (set_items_of_ne _ _ (Ne.symm hr)).symm.trans hold
        rw [hother r hr]
        exact h.waiting_of_items hsame hnever

theorem Recorded.step (h : s.Recorded past) (hsound : s.Sound ring) (hstep : s.step e = some s') :
    s'.Recorded (past ++ [(s, e)]) := by
  by_cases hrequest : ∃ ip times rand, e = .prepareRequest ip times rand
  · obtain ⟨ip, times, rand, rfl⟩ := hrequest
    obtain ⟨⟨rp, s₁⟩, hprepare, rfl⟩ := Option.map_eq_some_iff.mp hstep
    exact h.prepareRequest hsound hprepare
  · have hrequest' : ∀ ip times rand, e ≠ .prepareRequest ip times rand :=
      fun ip times rand he => hrequest ⟨ip, times, rand, he⟩
    obtain ⟨ring', _, hlru⟩ := hsound.step hstep
    have hsame : ∀ r, requestsFor r (past ++ [(s, e)]) = requestsFor r past := by
      intro r
      rw [requestsFor_concat]
      cases e with
      | prepareRequest ip times rand => exact absurd rfl (hrequest' ip times rand)
      | tick | getnameip nameRes ip | findid id | requestFailed rp rand
      | requestSucceeded rp ttl ipname rand | clear => exact List.append_nil _
    constructor
    · intro r hr
      rw [hsame]
      exact h.fresh r ((allocated_le_of_step hlru).trans hr)
    · intro r item hitem hnever
      rw [answered_concat, not_or] at hnever
      rw [hsame]
      exact h.waiting_of_items
        (items_of_step hlru hrequest' hnever.2 (abstract_items ring' hitem)) hnever.1

theorem Run.recorded (h : Run past s) : s.Recorded past := by
  induction h with
  | init time time' pid => exact recorded_init time time' pid
  | step hrun e hstep ih =>
      obtain ⟨ring, hsound⟩ := hrun.sound
      exact ih.step hsound hstep

/-- **Retries.** The delays of an item that was not answered double just when the uptime does not show at
any of its requests but the last. -/
theorem run_delays_double_iff (h : Run past s) (hr : s.Live r) (hnever : ¬Answered past r) :
    DelaysDouble (requestsFor r past) ↔
      UptimesHidden 0 ((requestsFor r past).map fun q => (q.tick.toNat, q.offset.toNat)) := by
  obtain ⟨item, hitem⟩ := hr.exists
  exact (h.recorded.waiting r item hitem hnever).2.delaysDouble_iff

instance (past : List (Ipcache × IpcacheEvent)) (r : ItemRef) : Decidable (Answered past r) :=
  inferInstanceAs (Decidable (∃ p ∈ past, p.2.answers = some r))

def runCalls (past : List (Ipcache × IpcacheEvent)) (s : Ipcache) :
    List IpcacheEvent → Option (List (Ipcache × IpcacheEvent) × Ipcache)
  | [] => some (past, s)
  | e :: es => do
      let s' ← s.step e
      runCalls (past ++ [(s, e)]) s' es

theorem run_of_runCalls {es : List IpcacheEvent} {result : List (Ipcache × IpcacheEvent) × Ipcache}
    (h : Run past s) (hcalls : runCalls past s es = some result) : Run result.1 result.2 := by
  induction es generalizing past s with
  | nil =>
      obtain rfl := Option.some.inj hcalls
      exact h
  | cons e es ih =>
      obtain ⟨s', hstep, hrest⟩ := Option.bind_eq_some_iff.mp hcalls
      exact ih (h.step e hstep) hrest

/-- Three requests, the first two as the program starts. -/
theorem run_delays_double_iff_early :
    ∃ past s, Run past s ∧ (requestsFor 0 past).length = 3 ∧ DelaysDouble (requestsFor 0 past) := by
  have hcalls : (runCalls [] (start.init 1 1 7) [.prepareRequest Address.clear [5] 3,
      .prepareRequest Address.clear [] 4, .tick, .prepareRequest Address.clear [] 5]).map
        (fun result => ((result.2.heap 0).isSome, decide (Answered result.1 0),
          (requestsFor 0 result.1).map fun q => (q.tick.toNat, q.offset.toNat))) =
      some (true, false, [(0, 3), (0, 4), (1, 5)]) := by
    decide +kernel
  obtain ⟨result, hresult, hmap⟩ := Option.map_eq_some_iff.mp hcalls
  obtain ⟨hlive, hnever, hrequests⟩ := by simpa only [Prod.mk.injEq] using hmap
  have hrun := run_of_runCalls (Run.init 1 1 7) hresult
  refine ⟨result.1, result.2, hrun, ?_,
    (run_delays_double_iff hrun hlive (of_decide_eq_false hnever)).mpr ?_⟩
  · rw [← List.length_map (fun q : LookupRequest => (q.tick.toNat, q.offset.toNat)), hrequests]
    rfl
  · rw [hrequests]
    exact ⟨Or.inl rfl, Or.inl rfl, trivial⟩

/-- Two requests after the first tick: the delay should stay zero, and is two. -/
theorem not_all_delays_double : ¬∀ past s r, Run past s → s.Live r → ¬Answered past r →
    DelaysDouble (requestsFor r past) := by
  intro h
  have hcalls : (runCalls [] (start.init 1 1 7) [.tick, .prepareRequest Address.clear [5] 0,
      .prepareRequest Address.clear [] 0]).map
        (fun result => ((result.2.heap 0).isSome, decide (Answered result.1 0),
          (requestsFor 0 result.1).map (fun q => q.delay.toNat),
          (requestsFor 0 result.1).map fun q => q.offset.toNat)) =
      some (true, false, [0, 2], [0, 0]) := by
    decide +kernel
  obtain ⟨result, hresult, hmap⟩ := Option.map_eq_some_iff.mp hcalls
  obtain ⟨hlive, hnever, hdelays, hoffsets⟩ := by simpa only [Prod.mk.injEq] using hmap
  have htimeless := (h result.1 result.2 0 (run_of_runCalls (Run.init 1 1 7) hresult) hlive
    (of_decide_eq_false hnever)).timeless
  rw [hdelays, hoffsets] at htimeless
  exact absurd htimeless (by decide)

end Ipcache

end EtherApe
