import EtherApe.IpCache.Fresh

/-!
# Runs of the cache

What holds after any sequence of calls: every bucket's chain is well formed, sorted and complete, so
lookups find what is there, and the ring lists the answered items in the order of their last use, no
more of them than there is room for. Calls on live items return, those that purge included.
-/

namespace EtherApe

namespace Ipcache

variable {s s' : Ipcache} {ring : List ItemRef} {r : ItemRef} {item : IpcacheItem}
  {past : List (Ipcache × IpcacheEvent)}

theorem Run.sound (h : Run past s) : ∃ ring, s.Sound ring := by
  induction h with
  | init time time' pid => exact ⟨[], Sound.init time time' pid⟩
  | step _ e hstep ih =>
      obtain ⟨ring, hsound⟩ := ih
      obtain ⟨ring', hsound', _⟩ := hsound.step hstep
      exact ⟨ring', hsound'⟩

/-! ### Chains -/

/-- The chain of one bucket: linked both ways, increasing, and holding the live items that belong
there; the bucket points somewhere into it. -/
structure BucketChain {κ : Type} (T : ChainTable ItemRef IpcacheItem κ (Fin bashSize))
    (heap : Heap ItemRef IpcacheItem) (bucket : Fin bashSize) (finger : Option ItemRef)
    (chain : List ItemRef) : Prop where
  linked : T.links.Seg heap none chain none
  increasing : chain.Pairwise fun r t => ∃ item item', heap r = some item ∧ heap t = some item' ∧
    T.compare (T.key item) (T.key item') < 0
  mem_iff : ∀ r, r ∈ chain ↔ ∃ item, heap r = some item ∧ T.hash (T.key item) = bucket
  finger_none : finger = none ↔ chain = []
  finger_mem : ∀ r, finger = some r → r ∈ chain

theorem bucketChain_of_holds {κ : Type} {T : ChainTable ItemRef IpcacheItem κ (Fin bashSize)}
    {table : Fin bashSize → Option ItemRef} {chains : Fin bashSize → List ItemRef}
    (hT : T.Holds s.heap table s.Live chains) (b : Fin bashSize) :
    BucketChain T s.heap b (table b) (chains b) where
  linked := hT.linked b
  increasing := (hT.sorted b).imp_of_mem fun hr ht hbefore => by
    obtain ⟨item, hitem⟩ := (hT.linked b).live hr
    obtain ⟨item', hitem'⟩ := (hT.linked b).live ht
    exact ⟨item, item', hitem, hitem', hbefore _ (ChainTable.keyAt_of_eq hitem) _
      (ChainTable.keyAt_of_eq hitem')⟩
  mem_iff r := by
    rw [hT.mem_iff]
    constructor
    · rintro ⟨hr, hhash⟩
      obtain ⟨item, hitem⟩ := hr.exists
      rw [ChainTable.keyAt_of_eq hitem, Option.map_some] at hhash
      exact ⟨item, hitem, Option.some.inj hhash⟩
    · rintro ⟨item, hitem, hhash⟩
      exact ⟨live_of_eq hitem, by rw [ChainTable.keyAt_of_eq hitem, Option.map_some, hhash]⟩
  finger_none := by
    refine ⟨hT.finger_none b, fun hnil => ?_⟩
    by_contra hsome
    obtain ⟨r, hr⟩ := Option.ne_none_iff_exists'.mp hsome
    exact absurd (hT.finger_mem b r hr) (by simp [hnil])
  finger_mem := hT.finger_mem b

theorem eq_of_key {κ : Type} {T : ChainTable ItemRef IpcacheItem κ (Fin bashSize)}
    {table : Fin bashSize → Option ItemRef} {chains : Fin bashSize → List ItemRef}
    (hT : T.Holds s.heap table s.Live chains) {t : ItemRef} {item' : IpcacheItem}
    (hr : s.heap r = some item) (ht : s.heap t = some item') (hkey : T.key item = T.key item') :
    r = t :=
  hT.eq_of_key (live_of_eq hr) (live_of_eq ht) (ChainTable.keyAt_of_eq hr)
    (hkey ▸ ChainTable.keyAt_of_eq ht)

theorem Sound.eq_of_ip (h : s.Sound ring) {t : ItemRef} {item' : IpcacheItem}
    (hr : s.heap r = some item) (ht : s.heap t = some item') (hip : item.ip = item'.ip) :
    r = t := by
  obtain ⟨chains, hips⟩ := h.ips
  exact eq_of_key hips hr ht hip

theorem Sound.eq_of_id (h : s.Sound ring) {t : ItemRef} {item' : IpcacheItem}
    (hr : s.heap r = some item) (ht : s.heap t = some item') (hid : item.id = item'.id) :
    r = t := by
  obtain ⟨chains, hids⟩ := h.ids
  exact eq_of_key hids hr ht hid

/-- A call that looks at the cache returns, and so does an answer for a live item; a request returns just
when its address is known or an id is drawn that no item has. -/
theorem Sound.returns (h : s.Sound ring) :
    (∀ nameRes ip, ∃ result, s.getnameip nameRes ip = some result) ∧
    (∀ r rand, s.Live r → ∃ s', s.requestFailed r rand = some s') ∧
    (∀ r ttl ipname rand, s.Live r → ∃ s', s.requestSucceeded r ttl ipname rand = some s') ∧
    ∀ ip times rand, (∃ rp s', s.prepareRequest ip times rand = some (rp, s')) ↔
      (∃ r item, s.heap r = some item ∧ item.ip = ip) ∨
        ∃ id ∈ drawnIds s.idseed s.aseed times, ∀ r item, s.heap r = some item → item.id ≠ id := by
  refine ⟨fun nameRes ip => ?_, fun r rand hr => ?_, fun r ttl ipname rand hr => ?_,
    h.prepareRequest_returns⟩
  · obtain ⟨name, isExpired, s', _, hname, _⟩ := h.step_getnameip nameRes ip
    exact ⟨_, hname⟩
  · obtain ⟨item, hitem⟩ := hr.exists
    obtain ⟨s', _, hfailed, _⟩ := h.step_requestFailed hitem rand
    exact ⟨s', hfailed⟩
  · obtain ⟨item, hitem⟩ := hr.exists
    obtain ⟨s', _, hsucceeded, _⟩ := h.step_requestSucceeded hitem ttl ipname rand
    exact ⟨s', hsucceeded⟩

/-- **Chains.** After any sequence of calls the chains of both tables are well formed, sorted and
complete, no two live items share an address or an id, a lookup finds the item there is, and the calls
on live items return. -/
theorem run_chains (h : Run past s) :
    (∃ chains : Fin bashSize → List ItemRef, ∀ b,
      BucketChain idTable s.heap b (s.idbash b) (chains b)) ∧
    (∃ chains : Fin bashSize → List ItemRef, ∀ b,
      BucketChain ipTable s.heap b (s.ipbash b) (chains b)) ∧
    (∀ r t item item', s.heap r = some item → s.heap t = some item' →
      item.ip = item'.ip ∨ item.id = item'.id → r = t) ∧
    (∀ ip, ∃ found s', s.findip ip = some (found, s') ∧
      ∀ r, found = some r ↔ ∃ item, s.heap r = some item ∧ item.ip = ip) ∧
    (∀ id, ∃ found s', s.findid id = some (found, s') ∧
      ∀ r, found = some r ↔ ∃ item, s.heap r = some item ∧ item.id = id) ∧
    (∀ nameRes ip, ∃ result, s.getnameip nameRes ip = some result) ∧
    (∀ r rand, s.Live r → ∃ s', s.requestFailed r rand = some s') ∧
    (∀ r ttl ipname rand, s.Live r → ∃ s', s.requestSucceeded r ttl ipname rand = some s') ∧
    ∀ ip times rand, (∃ rp s', s.prepareRequest ip times rand = some (rp, s')) ↔
      (∃ r item, s.heap r = some item ∧ item.ip = ip) ∨
        ∃ id ∈ drawnIds s.idseed s.aseed times, ∀ r item, s.heap r = some item → item.id ≠ id := by
  obtain ⟨ring, hsound⟩ := h.sound
  obtain ⟨idChains, hids⟩ := hsound.ids
  obtain ⟨ipChains, hips⟩ := hsound.ips
  refine ⟨⟨idChains, bucketChain_of_holds hids⟩, ⟨ipChains, bucketChain_of_holds hips⟩,
    fun r t item item' hr ht hkey => hkey.elim (hsound.eq_of_ip hr ht) (hsound.eq_of_id hr ht),
    fun ip => ?_, fun id => ?_, hsound.returns⟩
  · obtain ⟨found, ipbash, hfind, _, hfound⟩ := hsound.findip ip
    exact ⟨found, _, hfind, hfound⟩
  · obtain ⟨found, idbash, hfind, _, hfound⟩ := hsound.findid id
    exact ⟨found, _, hfind, hfound⟩

theorem full_run : ∃ past s used, Run past s ∧ s.Filled (List.range 1025).reverse 1025 used ∧
    used.testBit (s.drawn 1300040608).toUInt16.toNat = false := by
  have hfresh : freshIds ((1300040598 :: List.replicate 1024 1300040608) ++ [1300040608])
      (start.init 1300040598 1300040598 13026).idseed
      (start.init 1300040598 1300040598 13026).aseed 0 = true := by decide +kernel
  have hlength : 0 + (1300040598 :: List.replicate 1024 (1300040608 : UInt64)).length = 1025 := by
    rw [List.length_cons, List.length_replicate]
  obtain ⟨past, s, used, hrun, hfilled, hlast⟩ :=
    (filled_init 1300040598 1300040598 13026).rounds (Run.init 1300040598 1300040598 13026)
      _ [1300040608] hlength.le hfresh
  rw [freshIds, Bool.and_eq_true, Bool.not_eq_true'] at hlast
  rw [hlength] at hfilled
  exact ⟨past, s, used, hrun, hfilled, hlast.1⟩

theorem touch_full : touch (List.range 1025).reverse 1025 =
    1025 :: (List.range 1025).reverse.take 1013 := by
  have hlength : (List.range 1025).reverse.length > 1024 := by
    rw [List.length_reverse, List.length_range]
    decide
  rw [touch, if_neg (by rw [List.mem_reverse, List.mem_range]; exact lt_irrefl 1025), purged,
    if_pos hlength]

/-- The answer for one more item purges those that were not used for longest. -/
theorem full_run_step : ∃ past s s' used, Run past s ∧ s.Filled (List.range 1025).reverse 1026 used ∧
    s.Live 1025 ∧ s.step (.requestSucceeded 1025 86400 (some "host") 0) = some s' ∧
    s'.Filled (1025 :: (List.range 1025).reverse.take 1013) 1026 used ∧ ¬s'.Live 0 := by
  obtain ⟨past, s, used, hrun, hfilled, hfresh⟩ := full_run
  obtain ⟨s₁, hprepare, hfilled₁, hlive, _⟩ := hfilled.prepareRequest (by decide) hfresh 0
  obtain ⟨s₂, hanswer, hfilled₂, _, _, hlive₂⟩ :=
    hfilled₁.requestSucceeded hlive 86400 (some "host") 0
  rw [touch_full] at hfilled₂ hlive₂
  refine ⟨_, s₁, s₂, _, hrun.step (.prepareRequest (hostAddress 1025) [1300040608] 0)
    (show Ipcache.step _ _ = some s₁ by simp [Ipcache.step, hprepare]), hfilled₁, hlive, hanswer,
    hfilled₂, fun hlive₀ => ((hlive₂ 0).mp hlive₀).2 ⟨?_, ?_⟩⟩
  · rw [List.mem_reverse, List.mem_range]
    decide
  · decide +kernel

/-- After a purge the bucket of 10.0.0.0 no longer has its item, but still those of 10.0.1.1 and
10.0.2.2. -/
theorem run_chains_purged : ∃ past s chain, Run past s ∧ ¬s.Live 0 ∧
    BucketChain ipTable s.heap (ipcacheGetipbash (hostAddress 0))
      (s.ipbash (ipcacheGetipbash (hostAddress 0))) chain ∧ 257 ∈ chain ∧ 514 ∈ chain := by
  obtain ⟨past, s, s', used, hrun, _, _, hstep, hfilled, hpurged⟩ := full_run_step
  have hrun' := hrun.step _ hstep
  obtain ⟨_, ⟨chains, hchains⟩, _⟩ := run_chains hrun'
  have hmem : ∀ r ∈ 1025 :: (List.range 1025).reverse.take 1013,
      ipcacheGetipbash (hostAddress r) = ipcacheGetipbash (hostAddress 0) →
        r ∈ chains (ipcacheGetipbash (hostAddress 0)) := by
    intro r hr hbucket
    obtain ⟨item, hitem⟩ := hfilled.sound.active.linked.live hr
    refine ((hchains _).mem_iff r).mpr ⟨item, hitem, ?_⟩
    rw [← hbucket, ← hfilled.addresses r item hitem]
    rfl
  exact ⟨_, s', chains _, hrun', hpurged, hchains _, hmem 257 (by decide +kernel) (by decide +kernel),
    hmem 514 (by decide +kernel) (by decide +kernel)⟩

end Ipcache

/-! ### The order of use -/

/-- The item that a call answers for. -/
def IpcacheEvent.answers : IpcacheEvent → Option ItemRef
  | .requestFailed rp _ => some rp
  | .requestSucceeded rp _ _ _ => some rp
  | _ => none

def Answered (past : List (Ipcache × IpcacheEvent)) (r : ItemRef) : Prop :=
  ∃ p ∈ past, p.2.answers = some r

/-- The first item was used after the last use of the second. -/
def UsedAfter (past : List (Ipcache × IpcacheEvent)) (r t : ItemRef) : Prop :=
  ∃ before p after, past = before ++ p :: after ∧ p.2.Uses p.1.heap r ∧
    ∀ q ∈ p :: after, ¬q.2.Uses q.1.heap t

section

variable {past : List (Ipcache × IpcacheEvent)} {s : Ipcache} {e : IpcacheEvent} {r t : ItemRef}

theorem answered_concat : Answered (past ++ [(s, e)]) t ↔ Answered past t ∨ e.answers = some t := by
  simp [Answered, or_and_right, exists_or]

theorem UsedAfter.concat (h : UsedAfter past r t) (he : ¬e.Uses s.heap t) :
    UsedAfter (past ++ [(s, e)]) r t := by
  obtain ⟨before, p, after, rfl, huses, hlater⟩ := h
  refine ⟨before, p, after ++ [(s, e)], by simp, huses, fun q hq => ?_⟩
  rw [← List.cons_append] at hq
  rcases List.mem_append.mp hq with hq | hq
  · exact hlater q hq
  · obtain rfl := List.mem_singleton.mp hq
    exact he

theorem usedAfter_of_uses (hr : e.Uses s.heap r) (ht : ¬e.Uses s.heap t) :
    UsedAfter (past ++ [(s, e)]) r t :=
  ⟨past, (s, e), [], rfl, hr, fun _ hq => List.mem_singleton.mp hq ▸ ht⟩

end

namespace LruCache

open Ipcache (touch purged)

/-- The list agrees with what was called so far. -/
structure Fits (a : LruCache) (past : List (Ipcache × IpcacheEvent)) : Prop where
  bounded : a.ring.length ≤ 1025
  answered : ∀ r, r ∈ a.ring ↔ (a.items r).isSome ∧ Answered past r
  settled : ∀ r item, a.items r = some item → item.state ≠ .ptrreq → r ∈ a.ring
  ordered : a.ring.Pairwise (UsedAfter past)
  fresh : ∀ r, (a.items r).isSome ∨ Answered past r → r < a.allocated

variable {a a' : LruCache} {past : List (Ipcache × IpcacheEvent)} {s : Ipcache} {e : IpcacheEvent}
  {r t : ItemRef} {ring : List ItemRef}

theorem mem_touch_self : r ∈ touch ring r := List.mem_cons_self

theorem touch_tail_sublist : (touch ring r).tail.Sublist ring := by
  unfold touch purged
  rw [List.tail_cons]
  split_ifs
  · exact List.erase_sublist
  · exact List.take_sublist _ _
  · exact List.Sublist.refl ring

theorem touch_length (h : ring.length ≤ 1025) : (touch ring r).length ≤ 1025 := by
  unfold touch purged
  rw [List.length_cons]
  split_ifs with hmem hfull
  · have hpos := List.length_pos_of_mem hmem
    rw [List.length_erase_of_mem hmem]
    omega
  · rw [List.length_take]
    omega
  · omega

theorem not_mem_touch_tail (hnodup : ring.Nodup) : r ∉ (touch ring r).tail := by
  unfold touch purged
  rw [List.tail_cons]
  split_ifs with hmem
  · exact hnodup.not_mem_erase
  · exact fun hr => hmem (List.mem_of_mem_take hr)
  · exact hmem

theorem mem_of_mem_touch (ht : t ∈ touch ring r) : t = r ∨ t ∈ ring := by
  rcases List.mem_cons.mp ht with heq | ht
  · exact Or.inl heq
  · exact Or.inr (touch_tail_sublist.subset ht)

theorem Fits.ordered_touch (h : a.Fits past) (hnodup : a.ring.Nodup) (hr : e.Uses s.heap r)
    (honly : ∀ t, e.Uses s.heap t → t = r) :
    (touch a.ring r).Pairwise (UsedAfter (past ++ [(s, e)])) := by
  have htail : ∀ t ∈ (touch a.ring r).tail, ¬e.Uses s.heap t := fun t ht huses =>
    not_mem_touch_tail hnodup (honly t huses ▸ ht)
  refine List.pairwise_cons.mpr ⟨fun t ht => usedAfter_of_uses hr (htail t ht), ?_⟩
  exact (h.ordered.sublist touch_tail_sublist).imp_of_mem fun _ ht hafter =>
    hafter.concat (htail _ ht)

theorem Fits.keep (h : a.Fits past) (hnone : ∀ t, ¬e.Uses s.heap t)
    (hanswers : ∀ t, e.answers = some t → t ∈ a.ring) (hring : a'.ring = a.ring)
    (hsome : ∀ t, (a'.items t).isSome → (a.items t).isSome ∨ t = a.allocated)
    (hkeep : ∀ t, (a.items t).isSome → (a'.items t).isSome)
    (hsettled : ∀ t item, a'.items t = some item → item.state ≠ .ptrreq → t ∈ a.ring)
    (hallocated : a.allocated ≤ a'.allocated)
    (hnew : ∀ t, (a'.items t).isSome → t < a'.allocated) : a'.Fits (past ++ [(s, e)]) where
  bounded := hring ▸ h.bounded
  answered t := by
    rw [hring, answered_concat]
    constructor
    · intro ht
      obtain ⟨hlive, hanswered⟩ := (h.answered t).mp ht
      exact ⟨hkeep t hlive, Or.inl hanswered⟩
    · rintro ⟨hlive, hanswered | hanswers'⟩
      · refine (h.answered t).mpr ⟨(hsome t hlive).resolve_right fun heq => ?_, hanswered⟩
        exact lt_irrefl _ (heq ▸ h.fresh t (Or.inr hanswered))
      · exact hanswers t hanswers'
  settled := hring.symm ▸ hsettled
  ordered := hring.symm ▸ h.ordered.imp fun hafter => hafter.concat (hnone _)
  fresh t ht := by
    rw [answered_concat] at ht
    rcases ht with hlive | hanswered | hanswers'
    · exact hnew t hlive
    · exact (h.fresh t (Or.inr hanswered)).trans_le hallocated
    · refine (h.fresh t (Or.inl ((h.answered t).mp (hanswers t hanswers')).1)).trans_le hallocated

theorem Fits.use (h : a.Fits past) (hnodup : a.ring.Nodup) (hr : e.Uses s.heap r)
    (honly : ∀ t, e.Uses s.heap t → t = r) (hlive : (a.items r).isSome)
    (hanswered : Answered (past ++ [(s, e)]) r) (hanswers : ∀ t, e.answers = some t → t = r)
    (hring : a'.ring = a.ring) (hitems : ∀ t, t ≠ r → a'.items t = a.items t)
    (hlive' : (a'.items r).isSome) (hallocated : a'.allocated = a.allocated) :
    (a'.use r).Fits (past ++ [(s, e)]) := by
  have hsome : ∀ t, (a'.items t).isSome = (a.items t).isSome := by
    intro t
    by_cases ht : t = r
    · subst ht
      rw [hlive', hlive]
    · rw [hitems t ht]
  have hitem : ∀ t, (a'.use r).items t =
      if t ∈ a.ring ∧ t ∉ touch a.ring r then none else a'.items t := by
    intro t
    simp [LruCache.use, hring]
  have hring' : (a'.use r).ring = touch a.ring r := congrArg (touch · r) hring
  constructor
  · rw [hring']
    exact touch_length h.bounded
  · intro t
    rw [hring', hitem]
    constructor
    · intro ht
      rw [if_neg fun hgone => hgone.2 ht, hsome]
      rcases mem_of_mem_touch ht with rfl | ht
      · exact ⟨hlive, hanswered⟩
      · exact ((h.answered t).mp ht).imp_right fun h => answered_concat.mpr (Or.inl h)
    · rintro ⟨htlive, htanswered⟩
      by_cases hgone : t ∈ a.ring ∧ t ∉ touch a.ring r
      · simp [hgone] at htlive
      · rw [if_neg hgone, hsome] at htlive
        rcases answered_concat.mp htanswered with hpast | hnow
        · by_contra ht
          exact hgone ⟨(h.answered t).mpr ⟨htlive, hpast⟩, ht⟩
        · rw [hanswers t hnow]
          exact mem_touch_self
  · intro t item htitem hstate
    rw [hring']
    rw [hitem] at htitem
    split_ifs at htitem with hgone
    by_cases ht : t = r
    · subst ht
      exact mem_touch_self
    · rw [hitems t ht] at htitem
      by_contra hmem
      exact hgone ⟨h.settled t item htitem hstate, hmem⟩
  · rw [hring']
    exact h.ordered_touch hnodup hr honly
  · intro t ht
    have hallocated' : (a'.use r).allocated = a.allocated := hallocated
    rw [hallocated']
    rcases ht with htlive | htanswered
    · rw [hitem] at htlive
      split_ifs at htlive with hgone
      · simp at htlive
      · exact h.fresh t (Or.inl (hsome t ▸ htlive))
    · rcases answered_concat.mp htanswered with hpast | hnow
      · exact h.fresh t (Or.inr hpast)
      · exact hanswers t hnow ▸ h.fresh r (Or.inl hlive)

end LruCache

namespace Ipcache

variable {s s' : Ipcache} {ring : List ItemRef} {past : List (Ipcache × IpcacheEvent)}
  {e : IpcacheEvent} {r t : ItemRef}

theorem Sound.eq_of_uses (h : s.Sound ring) (hr : e.Uses s.heap r) (ht : e.Uses s.heap t) :
    t = r := by
  cases e with
  | getnameip nameRes ip =>
      cases nameRes with
      | false => exact hr.elim
      | true =>
          cases ip with
          | none => exact hr.elim
          | some ip =>
              obtain ⟨item, hitem, hip, _⟩ := hr
              obtain ⟨item', hitem', hip', _⟩ := ht
              exact h.eq_of_ip hitem' hitem (hip'.trans hip.symm)
  | requestFailed rp rand => exact ht.1.trans hr.1.symm
  | requestSucceeded rp ttl ipname rand => exact Eq.trans ht (Eq.symm hr)
  | tick | prepareRequest ip times rand | findid id | clear => exact hr.elim

theorem set_items_self (a : LruCache) (r : ItemRef) (item : IpcacheItem) :
    (a.set r item).items r = some item := Function.update_self _ _ _

theorem isSome_set (a : LruCache) (r : ItemRef) (item : IpcacheItem) :
    ((a.set r item).items r).isSome := by
  rw [set_items_self]
  rfl

theorem set_items_of_ne (a : LruCache) {r t : ItemRef} (item : IpcacheItem) (ht : t ≠ r) :
    (a.set r item).items t = a.items t := Function.update_of_ne ht _ _

theorem set_isSome_iff (a : LruCache) (r t : ItemRef) (item : IpcacheItem) :
    ((a.set r item).items t).isSome ↔ t = r ∨ (a.items t).isSome := by
  by_cases ht : t = r
  · subst ht
    simp [isSome_set]
  · simp [set_items_of_ne a item ht, ht]

theorem settled_set {a : LruCache} {r : ItemRef} {item : IpcacheItem} (hitem : item.state = .ptrreq)
    (h : ∀ t item, a.items t = some item → item.state ≠ .ptrreq → t ∈ a.ring) (t : ItemRef)
    (item' : IpcacheItem) (ht : (a.set r item).items t = some item')
    (hstate : item'.state ≠ .ptrreq) : t ∈ a.ring := by
  by_cases htr : t = r
  · subst htr
    obtain rfl := Option.some.inj ((set_items_self a t item).symm.trans ht)
    exact absurd hitem hstate
  · rw [set_items_of_ne a item htr] at ht
    exact h t item' ht hstate

theorem exists_of_uses_getnameip {items : ItemRef → Option IpcacheItem} {nameRes : Bool}
    {ip : Option Address} (h : (IpcacheEvent.getnameip nameRes ip).Uses items r) :
    ∃ item, items r = some item ∧ item.state ≠ .ptrreq := by
  cases nameRes with
  | false => exact h.elim
  | true =>
      cases ip with
      | none => exact h.elim
      | some ip =>
          obtain ⟨item, hitem, _, hstate⟩ := h
          exact ⟨item, hitem, hstate⟩

/-- What one call does to the list keeps it in agreement with the calls. -/
theorem Sound.fits_step {a' : LruCache} (h : s.Sound ring) (hfits : (s.abstract ring).Fits past)
    (hstep : LruCache.Step (s.abstract ring) e a') : a'.Fits (past ++ [(s, e)]) := by
  have hnodup := h.active.nodup
  cases hstep with
  | tick =>
      exact hfits.keep (fun _ => id) (fun _ h => by cases h) rfl (fun _ => Or.inl) (fun _ => id)
        hfits.settled le_rfl fun t ht => hfits.fresh t (Or.inl ht)
  | findid =>
      exact hfits.keep (fun _ => id) (fun _ h => by cases h) rfl (fun _ => Or.inl) (fun _ => id)
        hfits.settled le_rfl fun t ht => hfits.fresh t (Or.inl ht)
  | unused hnone =>
      exact hfits.keep (fun t ht => hnone t ((uses_iff _ _).mp ht)) (fun _ h => by cases h) rfl
        (fun _ => Or.inl) (fun _ => id) hfits.settled le_rfl fun t ht => hfits.fresh t (Or.inl ht)
  | ignored item hitem hstate =>
      refine hfits.keep (fun t ht => ?_) (fun t ht => ?_) rfl (fun _ => Or.inl) (fun _ => id)
        hfits.settled le_rfl fun t ht => hfits.fresh t (Or.inl ht)
      · obtain ⟨rfl, item', hitem', hstate'⟩ := (uses_iff ring _).mp ht
        obtain rfl := Option.some.inj (hitem.symm.trans hitem')
        exact hstate' hstate
      · obtain rfl := Option.some.inj ht
        exact hfits.settled _ item hitem (by simp [hstate])
  | refresh r item hitem hip =>
      have hsome : ((s.abstract ring).items r).isSome := by rw [hitem]; rfl
      refine hfits.keep (fun _ => id) (fun _ h => by cases h) rfl (fun t ht => ?_)
        (fun t ht => (set_isSome_iff _ _ _ _).mpr (Or.inr ht)) (settled_set rfl hfits.settled) le_rfl
        fun t ht => hfits.fresh t (Or.inl ?_)
      · exact Or.inl (((set_isSome_iff _ _ _ _).mp ht).elim (fun heq => heq ▸ hsome) id)
      · exact ((set_isSome_iff _ _ _ _).mp ht).elim (fun heq => heq ▸ hsome) id
  | alloc id' hip =>
      refine hfits.keep (fun _ => id) (fun _ h => by cases h) rfl
        (fun t ht => ((set_isSome_iff _ _ _ _).mp ht).symm)
        (fun t ht => (set_isSome_iff _ _ _ _).mpr (Or.inr ht)) (settled_set rfl hfits.settled)
        (Nat.le_succ _) fun t ht => ?_
      rcases (set_isSome_iff _ _ _ _).mp ht with rfl | ht
      · exact Nat.lt_succ_self _
      · exact (hfits.fresh t (Or.inl ht)).trans (Nat.lt_succ_self _)
  | used r huses =>
      obtain ⟨item, hitem, hstate⟩ := exists_of_uses_getnameip huses
      obtain ⟨hlive, hanswered⟩ := (hfits.answered r).mp (hfits.settled r item hitem hstate)
      have hr := (uses_iff _ _).mpr huses
      exact hfits.use hnodup hr (fun t ht => h.eq_of_uses hr ht) hlive
        (answered_concat.mpr (Or.inl hanswered)) (fun t ht => by cases ht) rfl (fun _ _ => rfl) hlive
        rfl
  | @failed r rand item hitem hstate =>
      have hr : (IpcacheEvent.requestFailed r rand).Uses s.heap r :=
        (uses_iff _ _).mpr ⟨rfl, item, hitem, hstate⟩
      exact hfits.use hnodup hr (fun t ht => h.eq_of_uses hr ht) (by rw [hitem]; rfl)
        (answered_concat.mpr (Or.inr rfl)) (fun t ht => (Option.some.inj ht).symm) rfl
        (fun t ht => set_items_of_ne _ _ ht) (isSome_set _ _ _) rfl
  | @succeeded r ttl ipname rand item hitem =>
      have hr : (IpcacheEvent.requestSucceeded r ttl ipname rand).Uses s.heap r := rfl
      exact hfits.use hnodup hr (fun t ht => h.eq_of_uses hr ht) (by rw [hitem]; rfl)
        (answered_concat.mpr (Or.inr rfl)) (fun t ht => (Option.some.inj ht).symm) rfl
        (fun t ht => set_items_of_ne _ _ ht) (isSome_set _ _ _) rfl
  | clear =>
      have hanswered : ∀ t, Answered (past ++ [(s, IpcacheEvent.clear)]) t ↔ Answered past t :=
        fun t => answered_concat.trans (or_iff_left fun h => by cases h)
      refine ⟨Nat.zero_le _, fun t => iff_of_false List.not_mem_nil ?_, fun t item ht hstate => ?_,
        List.Pairwise.nil, fun t ht => ?_⟩
      · rintro ⟨hlive, htanswered⟩
        dsimp only at hlive
        split_ifs at hlive with hmem
        · simp at hlive
        · exact hmem ((hfits.answered t).mpr ⟨hlive, (hanswered t).mp htanswered⟩)
      · dsimp only at ht
        split_ifs at ht with hmem
        exact absurd (hfits.settled t item ht hstate) hmem
      · refine hfits.fresh t (ht.imp (fun hlive => ?_) (hanswered t).mp)
        dsimp only at hlive
        split_ifs at hlive with hmem
        · simp at hlive
        · exact hlive

theorem fits_init (time time' : UInt64) (pid : UInt16) :
    ((start.init time time' pid).abstract []).Fits [] where
  bounded := Nat.zero_le _
  answered t := iff_of_false List.not_mem_nil fun h => by cases h.1
  settled t item ht _ := by cases ht
  ordered := List.Pairwise.nil
  fresh t ht := by
    rcases ht with hlive | ⟨p, hp, _⟩
    · cases hlive
    · exact absurd hp List.not_mem_nil

theorem Run.fits (h : Run past s) : ∃ ring, s.Sound ring ∧ (s.abstract ring).Fits past := by
  induction h with
  | init time time' pid => exact ⟨[], Sound.init time time' pid, fits_init time time' pid⟩
  | step _ e hstep ih =>
      obtain ⟨ring, hsound, hfits⟩ := ih
      obtain ⟨ring', hsound', hlru⟩ := hsound.step hstep
      exact ⟨ring', hsound', hsound.fits_step hfits hlru⟩

theorem live_iff_items (ring : List ItemRef) : s.Live t ↔ ((s.abstract ring).items t).isSome := by
  simp [Live, abstract]

/-- Using an item frees those that fall out of the ring. -/
theorem gone_of_use {a : LruCache} {ring' : List ItemRef} (ha : s'.abstract ring' = a.use r)
    (hring : a.ring = ring) (hlive : ∀ t, (a.items t).isSome ↔ s.Live t) :
    ring' = touch ring r ∧ ∀ t, s.Live t → (¬s'.Live t ↔ t ∈ ring ∧ t ∉ touch ring r) := by
  subst hring
  refine ⟨congrArg LruCache.ring ha, fun t ht => ?_⟩
  have hitems := congrFun (congrArg LruCache.items ha) t
  rw [live_iff_items ring', hitems]
  by_cases hgone : t ∈ a.ring ∧ t ∉ touch a.ring r
  · simp [LruCache.use, hgone]
  · simpa [LruCache.use, hgone] using Option.isSome_iff_ne_none.mp ((hlive t).mpr ht)

theorem Sound.uses_step {ring' : List ItemRef} (h : s.Sound ring) (hr : e.Uses s.heap r)
    (hlru : LruCache.Step (s.abstract ring) e (s'.abstract ring')) :
    ring' = touch ring r ∧ ∀ t, s.Live t → (¬s'.Live t ↔ t ∈ ring ∧ t ∉ touch ring r) := by
  have hset : ∀ {item item' : IpcacheItem} {t : ItemRef},
      (s.abstract ring).items r = some item →
      ((((s.abstract ring).set r item').items t).isSome ↔ s.Live t) := by
    intro item item' t hitem
    rw [set_isSome_iff, ← live_iff_items]
    refine or_iff_right_of_imp fun heq => ?_
    rw [heq, live_iff_items ring, hitem]
    rfl
  generalize ha : s'.abstract ring' = a' at hlru
  cases hlru with
  | tick | refresh r' item hitem hip | alloc id' hip | findid | clear => exact hr.elim
  | unused hnone => exact absurd ((uses_iff _ _).mp hr) (hnone r)
  | ignored item hitem hstate =>
      obtain ⟨rfl, item', hitem', hstate'⟩ := (uses_iff ring _).mp hr
      obtain rfl := Option.some.inj (hitem.symm.trans hitem')
      exact absurd hstate hstate'
  | used r' huses =>
      obtain rfl := h.eq_of_uses hr ((uses_iff _ _).mpr huses)
      exact gone_of_use ha rfl fun t => (live_iff_items ring).symm
  | failed item hitem hstate =>
      obtain ⟨rfl, _⟩ := hr
      exact gone_of_use ha rfl fun t => hset hitem
  | succeeded item hitem =>
      obtain rfl : r = _ := hr
      exact gone_of_use ha rfl fun t => hset hitem

def activeItems (s : Ipcache) : List ItemRef :=
  s.heap.follow IpcacheItem.nextActive s.numActive.toNat s.activeList

theorem activeItems_of_ring (hring : activeLinks.Ring s.heap ring) (hhead : s.activeList = ring.head?)
    (hcount : s.numActive = ring.length) : s.activeItems = ring := by
  have hfollow := hring.follow_eq
  rw [Option.or_self] at hfollow
  rw [activeItems, hcount, Int.toNat_natCast, hhead]
  exact hfollow

theorem Sound.activeItems_eq (h : s.Sound ring) : s.activeItems = ring :=
  activeItems_of_ring h.active.linked h.active.head h.active.count

/-- The item was linked in front of all but those that were used last, and the others are freed. -/
structure Evicts (s s' : Ipcache) (ring : List ItemRef) (r : ItemRef) : Prop where
  linked : activeLinks.Ring s'.heap (r :: ring.take 1013)
  head : s'.activeList = some r
  count : s'.numActive = maxActive - 11 + 1
  freed : ∀ t, s.Live t → (¬s'.Live t ↔ t ∈ ring.drop 1013)

theorem Sound.evicts (h : s.Sound ring) (hnew : r ∉ ring) (hfull : s.numActive > maxActive)
    (hsound : s'.Sound (touch ring r))
    (hgone : ∀ t, s.Live t → (¬s'.Live t ↔ t ∈ ring ∧ t ∉ touch ring r)) : s.Evicts s' ring r := by
  have hfull' : ring.length > 1024 := by
    rw [h.active.count, maxActive] at hfull
    omega
  have htouch : touch ring r = r :: ring.take 1013 := by
    rw [touch, if_neg hnew, purged, if_pos hfull']
  rw [htouch] at hsound hgone
  refine ⟨hsound.active.linked, hsound.active.head, ?_, fun t ht => (hgone t ht).trans ?_⟩
  · rw [hsound.active.count, List.length_cons, List.length_take, maxActive]
    omega
  · rw [← mem_drop_iff h.active.nodup, List.mem_cons, not_or]
    exact and_congr_right fun hmem => ⟨And.right, fun h => ⟨fun heq => hnew (heq ▸ hmem), h⟩⟩

/-- A call that uses a live item returns. -/
theorem Sound.exists_step_of_uses (h : s.Sound ring) (hr : e.Uses s.heap r) (hlive : s.Live r) :
    ∃ s', s.step e = some s' := by
  obtain ⟨hgetnameip, hfailed, hsucceeded, _⟩ := h.returns
  cases e with
  | getnameip nameRes ip =>
      obtain ⟨result, hresult⟩ := hgetnameip nameRes ip
      exact ⟨result.2.2, by rw [Ipcache.step, hresult, Option.map_some]⟩
  | requestFailed rp rand =>
      obtain ⟨rfl, _⟩ := hr
      exact hfailed r rand hlive
  | requestSucceeded rp ttl ipname rand =>
      obtain rfl : r = rp := hr
      exact hsucceeded r ttl ipname rand hlive
  | tick | prepareRequest ip times rand | findid id | clear => exact hr.elim

/-- **Order of use.** After any sequence of calls the active list is a ring of the live items that
were answered, in the order of their last use, and as long as it is allowed to be. Linking a live item
that is new to a full list returns and puts it in the place of the items that were not used for
longest, and so does every call that uses such an item. -/
theorem run_active_list (h : Run past s) :
    ∃ ring, activeLinks.Ring s.heap ring ∧ ring.Nodup ∧ s.activeList = ring.head? ∧
      s.numActive = ring.length ∧ s.numActive ≤ maxActive + 1 ∧
      (∀ r, r ∈ ring ↔ s.Live r ∧ Answered past r) ∧ ring.Pairwise (UsedAfter past) ∧
      (∀ r, s.Live r → r ∉ ring → s.numActive > maxActive →
        ∃ s', s.linkActivelist r = some s' ∧ s.Evicts s' ring r) ∧
      ∀ e r, e.Uses s.heap r → s.Live r → ∃ s', s.step e = some s' ∧ s'.activeList = some r ∧
        (r ∉ ring → s.numActive > maxActive → s.Evicts s' ring r) := by
  obtain ⟨ring, hsound, hfits⟩ := h.fits
  have hcount := hsound.active.count
  have hbounded : ring.length ≤ 1025 := hfits.bounded
  refine ⟨ring, hsound.active.linked, hsound.active.nodup, hsound.active.head, hcount, ?_,
    fun r => ?_, hfits.ordered, fun r hr hnew hfull => ?_, fun e r hr hlive => ?_⟩
  · rw [hcount, maxActive]
    omega
  · rw [live_iff_items ring]
    exact hfits.answered r
  · obtain ⟨s', hlink, hsound', hkept⟩ := hsound.linkActivelist hr
    refine ⟨s', hlink, hsound.evicts hnew hfull hsound' fun t ht => ?_⟩
    rw [hkept.live_iff, not_and_not_right, imp_iff_right ht]
  · obtain ⟨s', hstep⟩ := hsound.exists_step_of_uses hr hlive
    obtain ⟨ring', hsound', hlru⟩ := hsound.step hstep
    obtain ⟨rfl, hgone⟩ := hsound.uses_step hr hlru
    exact ⟨s', hstep, hsound'.active.head, fun hnew hfull => hsound.evicts hnew hfull hsound' hgone⟩

/-- The answer for the item after 1025 others returns, and frees the twelve used first. -/
theorem run_active_list_purges : ∃ past s s', Run past s ∧
    s.activeItems = (List.range 1025).reverse ∧
    s.step (.requestSucceeded 1025 86400 (some "host") 0) = some s' ∧
    s.Evicts s' (List.range 1025).reverse 1025 := by
  obtain ⟨past, s, _, used, hrun, hfilled, hlive, _⟩ := full_run_step
  obtain ⟨ring, hring, _, hhead, hcount, _, _, _, _, hcalls⟩ := run_active_list hrun
  have hitems := hfilled.sound.activeItems_eq
  have hsame : ring = (List.range 1025).reverse :=
    (activeItems_of_ring hring hhead hcount).symm.trans hitems
  obtain ⟨s', hstep, _, hevicts⟩ :=
    hcalls (.requestSucceeded 1025 86400 (some "host") 0) 1025 rfl hlive
  refine ⟨past, s, s', hrun, hitems, hstep, hsame ▸ hevicts ?_ ?_⟩
  · rw [hsame, List.mem_reverse, List.mem_range]
    exact lt_irrefl 1025
  · rw [hcount, hsame, List.length_reverse, List.length_range]
    decide

end Ipcache

end EtherApe
