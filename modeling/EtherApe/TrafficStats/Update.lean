import EtherApe.TrafficStats.Accounting

/-!
# Updates are exact

An update keeps exactly the packets younger than the averaging time, and leaves every average equal
to the rate of the bytes that remain. The purge may stop at the first young packet because the queue
is in order of arrival. When no packet remains the protocol averages are not recomputed; they are
zero because an average never outlives the counter it was computed from.
-/

namespace EtherApe

/-- `a` is not later than `b`. -/
def Timeval.NotAfter (a b : Timeval) : Prop := 0 ≤ substractTimesMs b a

theorem Timeval.NotAfter.trans {a b c : Timeval} (hab : a.NotAfter b) (hbc : b.NotAfter c) :
    a.NotAfter c := by
  have hsub := substractTimesMs_sub a b c
  have hac := substractTimesMs_sub b a c
  unfold NotAfter substractTimesMs at *
  push_cast at *
  linarith

theorem Timeval.NotAfter.age_le {a b : Timeval} (h : a.NotAfter b) (now : Timeval) :
    substractTimesMs now b ≤ substractTimesMs now a := by
  unfold NotAfter substractTimesMs at *
  push_cast at *
  linarith

namespace TrafficStats

def InOrder (items : List PacketListItem) : Prop :=
  items.Pairwise fun a b => a.info.timestamp.NotAfter b.info.timestamp

def youngerThan (now : Timeval) (avgTime : ℚ) (items : List PacketListItem) : List PacketListItem :=
  items.filter fun it => substractTimesMs now it.info.timestamp < avgTime

/-- In a queue in order of arrival the items after the first young one are young. -/
theorem dropWhile_itemExpired {items : List PacketListItem} (h : InOrder items) (now : Timeval)
    (avgTime : ℚ) : items.dropWhile (itemExpired now avgTime) = youngerThan now avgTime items := by
  induction items with
  | nil => rfl
  | cons it items ih =>
      obtain ⟨hhead, htail⟩ := List.pairwise_cons.mp h
      by_cases hyoung : substractTimesMs now it.info.timestamp < avgTime
      · have hall : ∀ other ∈ it :: items, substractTimesMs now other.info.timestamp < avgTime := by
          intro other hother
          rcases List.mem_cons.mp hother with rfl | hother
          · exact hyoung
          · exact ((hhead other hother).age_le now).trans_lt hyoung
        rw [List.dropWhile_cons_of_neg (by simpa [itemExpired] using hyoung), youngerThan,
          List.filter_eq_self.mpr fun other hother => by simpa using hall other hother]
      · rw [List.dropWhile_cons_of_pos (by simpa [itemExpired] using hyoung), ih htail, youngerThan,
          youngerThan, List.filter_cons_of_neg (by simpa using hyoung)]

/-- No average of the statistics outlives its counter. -/
structure Settled (ts : TrafficStats) : Prop where
  stats : ts.stats.Settled
  statsIn : ts.statsIn.Settled
  statsOut : ts.statsOut.Settled
  protos : ∀ i, ∀ p ∈ ts.statsProtos i, p.stats.Settled

namespace Settled

variable {ts : TrafficStats}

theorem init (now : Timeval) : (TrafficStats.init now).Settled where
  stats := BasicStats.settled_reset now
  statsIn := BasicStats.settled_reset now
  statsOut := BasicStats.settled_reset now
  protos _ _ hp := absurd hp List.not_mem_nil

theorem addPkt_protos {items : List PacketListItem} (h : ts.Settled) (hacc : ts.AccountsFor items)
    (now : Timeval) (packet : PacketInfo) (i : Level) :
    ∀ p ∈ ts.statsProtos.addPkt now packet i, p.stats.Settled := by
  intro p hp
  have hsize : (0 : Int) ≤ packet.size := Int.natCast_nonneg _
  unfold Protostack.addPkt at hp
  split at hp
  next => exact h.protos i p hp
  next name _ =>
    unfold Protostack.addAtLevel at hp
    split at hp
    next =>
      rcases Protostack.mem_updateNamed hp with hp | ⟨q, hq, rfl⟩
      · exact h.protos i p hp
      · exact (h.protos i q hq).add hsize (hacc.averAccu_nonneg hq)
    next =>
      rcases Protostack.mem_updateNamed hp with hp | ⟨q, hq, rfl⟩
      · rcases List.mem_cons.mp hp with rfl | hp
        · exact BasicStats.settled_reset now
        · exact h.protos i p hp
      · rcases List.mem_cons.mp hq with rfl | hq
        · exact (BasicStats.settled_reset now).add hsize le_rfl
        · exact (h.protos i q hq).add hsize (hacc.averAccu_nonneg hq)

theorem countItem {items : List PacketListItem} (h : ts.Settled) (hacc : ts.AccountsFor items)
    (now : Timeval) (newit : PacketListItem) : (ts.countItem now newit).Settled where
  stats := h.stats.add (Int.natCast_nonneg _) (by rw [hacc.stats]; exact totalSize_nonneg _)
  statsIn := by
    unfold TrafficStats.countItem
    dsimp only
    split
    · exact h.statsIn.add (Int.natCast_nonneg _) (by rw [hacc.statsIn]; exact totalSize_nonneg _)
    · exact h.statsIn
  statsOut := by
    unfold TrafficStats.countItem
    dsimp only
    split
    · exact h.statsOut.add (Int.natCast_nonneg _) (by rw [hacc.statsOut]; exact totalSize_nonneg _)
    · exact h.statsOut
  protos i := h.addPkt_protos hacc now newit.info i

theorem addPacket (h : ts.Settled) (hacc : ts.AccountsFor ts.pktList) (now : Timeval)
    (store : PacketStore) (newPkt : PacketInfo) (dir : PacketDirection) :
    (ts.addPacket now store newPkt dir).2.Settled := by
  have hacc' : ({ ts with pktList := ts.pktList ++ [⟨newPkt, dir⟩] } : TrafficStats).AccountsFor
      ts.pktList :=
    ⟨hacc.contiguous, hacc.stats, hacc.statsIn, hacc.statsOut, hacc.names, hacc.levels⟩
  have hqueued : ({ ts with pktList := ts.pktList ++ [⟨newPkt, dir⟩] } : TrafficStats).Settled :=
    ⟨h.stats, h.statsIn, h.statsOut, h.protos⟩
  exact hqueued.countItem hacc' now ⟨newPkt, dir⟩

theorem reset (now : Timeval) (store : PacketStore) (ts : TrafficStats) :
    (ts.reset now store).2.Settled where
  stats := BasicStats.settled_reset now
  statsIn := BasicStats.settled_reset now
  statsOut := BasicStats.settled_reset now
  protos _ _ hp := absurd hp List.not_mem_nil

theorem uncountItem (h : ts.Settled) (packet : PacketListItem) : (ts.uncountItem packet).Settled where
  stats := BasicStats.settled_sub _ _
  statsIn := by
    unfold TrafficStats.uncountItem
    dsimp only
    split
    · exact BasicStats.settled_sub _ _
    · exact h.statsIn
  statsOut := by
    unfold TrafficStats.uncountItem
    dsimp only
    split
    · exact BasicStats.settled_sub _ _
    · exact h.statsOut
  protos i p hp := by
    have hlevel : Protostack.subPktLoop packet.info (List.finRange _) ts.statsProtos i =
          ts.statsProtos i ∨
        ∃ name, Protostack.subPktLoop packet.info (List.finRange _) ts.statsProtos i =
          Protostack.updateNamed name (Protostack.subStats packet.info.size) (ts.statsProtos i) :=
      Protostack.subPktLoop_level (List.nodup_finRange _) ts.statsProtos i
    rcases hlevel with hsame | ⟨name, hsub⟩
    · exact h.protos i p (hsame ▸ hp)
    · simp only [TrafficStats.uncountItem, Protostack.subPkt, hsub] at hp
      rcases Protostack.mem_updateNamed hp with hp | ⟨q, _, rfl⟩
      · exact h.protos i p hp
      · exact BasicStats.settled_sub _ _

theorem purgeLoop (h : ts.Settled) (now : Timeval) (pktExpireTime : ℚ)
    (items : List PacketListItem) (store : PacketStore) :
    (TrafficStats.purgeLoop now pktExpireTime items store ts).2.Settled := by
  induction items generalizing store ts with
  | nil => exact ⟨h.stats, h.statsIn, h.statsOut, h.protos⟩
  | cons packet younger ih =>
      simp only [TrafficStats.purgeLoop]
      split
      · exact ⟨h.stats, h.statsIn, h.statsOut, h.protos⟩
      · exact ih (h.uncountItem packet) _

theorem clearAverages (h : ts.Settled) : ts.clearAverages.Settled := by
  unfold TrafficStats.clearAverages
  split
  · exact ⟨fun _ => rfl, fun _ => rfl, fun _ => rfl, h.protos⟩
  · exact h

theorem purgeExpiredPackets (h : ts.Settled) (now : Timeval) (store : PacketStore)
    (pktExpireTime protoExpireTime : ℚ) :
    (ts.purgeExpiredPackets now store pktExpireTime protoExpireTime).2.Settled := by
  have hloop := (h.purgeLoop now pktExpireTime ts.pktList store).clearAverages
  refine ⟨hloop.stats, hloop.statsIn, hloop.statsOut, fun i p hp => hloop.protos i p ?_⟩
  exact (Protostack.purgeExpired_sublist _ now protoExpireTime i).subset hp

theorem average (h : ts.Settled) (avgTime : ℚ) : (ts.average avgTime).Settled where
  stats := h.stats.avg avgTime
  statsIn := h.statsIn.avg avgTime
  statsOut := h.statsOut.avg avgTime
  protos i p hp := by
    obtain ⟨q, hq, rfl⟩ := List.mem_map.mp hp
    exact (h.protos i q hq).avg avgTime

theorem sortMostUsed (h : ts.Settled) (level : Level) : (ts.sortMostUsed level).2.Settled where
  stats := h.stats
  statsIn := h.statsIn
  statsOut := h.statsOut
  protos i p hp :=
    h.protos i p ((Protostack.sortMostUsed_perm ts.statsProtos level i).mem_iff.mp hp)

theorem update (h : ts.Settled) (now : Timeval) (store : PacketStore) (avgTime protoExpireTime : ℚ) :
    (ts.update now store avgTime protoExpireTime).2.2.Settled := by
  have hpurge := h.purgeExpiredPackets now store avgTime protoExpireTime
  unfold TrafficStats.update
  dsimp only
  split
  · exact hpurge.average avgTime
  · exact hpurge

end Settled

theorem Reached.settled {ts : TrafficStats} (h : Reached ts) : ts.Settled := by
  induction h with
  | init now => exact Settled.init now
  | addPacket h now store newPkt _ dir ih => exact ih.addPacket h.accountsFor now store newPkt dir
  | update _ now store avgTime protoExpireTime ih => exact ih.update now store avgTime protoExpireTime
  | sortMostUsed _ level ih => exact ih.sortMostUsed level
  | reset _ now store _ => exact Settled.reset now store _

/-- Every average of the statistics is the rate of the bytes that count for it, in bits per
second over `avgTime` milliseconds. -/
structure RatesOver (ts : TrafficStats) (avgTime : ℚ) : Prop where
  stats : ts.stats.average = 8000 * totalSize ts.pktList / avgTime
  statsIn : ts.statsIn.average = 8000 * totalSize (inboundItems ts.pktList) / avgTime
  statsOut : ts.statsOut.average = 8000 * totalSize (outboundItems ts.pktList) / avgTime
  protos : ∀ i, ∀ p ∈ ts.statsProtos i,
    p.stats.average = 8000 * totalSize (namedAt i p.name ts.pktList) / avgTime

theorem ratesOver_average {ts : TrafficStats} (h : ts.AccountsFor ts.pktList) {avgTime : ℚ}
    (havg : avgTime ≠ 0) : (ts.average avgTime).RatesOver avgTime where
  stats := (BasicStats.avg_average ts.stats havg).trans (by rw [h.stats]; rfl)
  statsIn := (BasicStats.avg_average ts.statsIn havg).trans (by rw [h.statsIn]; rfl)
  statsOut := (BasicStats.avg_average ts.statsOut havg).trans (by rw [h.statsOut]; rfl)
  protos i p hp := by
    obtain ⟨q, hq, rfl⟩ := List.mem_map.mp hp
    exact (BasicStats.avg_average q.stats havg).trans (by rw [h.averAccu_eq hq]; rfl)

/-- With an empty queue every average is zero. -/
theorem Settled.ratesOver {ts : TrafficStats} (h : ts.Settled) (hacc : ts.AccountsFor ts.pktList)
    (hempty : ts.pktList = []) (avgTime : ℚ) : ts.RatesOver avgTime where
  stats := by
    rw [h.stats (by rw [hacc.stats, hempty]; rfl), hempty]
    simp
  statsIn := by
    rw [h.statsIn (by rw [hacc.statsIn, hempty]; rfl), hempty]
    simp [inboundItems]
  statsOut := by
    rw [h.statsOut (by rw [hacc.statsOut, hempty]; rfl), hempty]
    simp [outboundItems]
  protos i p hp := by
    rw [h.protos i p hp (by rw [hacc.averAccu_eq hp, hempty]; rfl), hempty]
    simp [namedAt]

/-- Statistics reached by additions and updates, with packets that arrive in the order of their
timestamps; `last` is the timestamp of the last one. -/
inductive ReachedInOrder : Timeval → TrafficStats → Prop
  | init (last now : Timeval) : ReachedInOrder last (init now)
  | addPacket {last : Timeval} {ts : TrafficStats} (h : ReachedInOrder last ts) (now : Timeval)
      (store : PacketStore) (newPkt : PacketInfo) (hnew : newPkt.protDesc.Contiguous)
      (hlast : last.NotAfter newPkt.timestamp) (dir : PacketDirection) :
      ReachedInOrder newPkt.timestamp (ts.addPacket now store newPkt dir).2
  | update {last : Timeval} {ts : TrafficStats} (h : ReachedInOrder last ts) (now : Timeval)
      (store : PacketStore) (avgTime protoExpireTime : ℚ) :
      ReachedInOrder last (ts.update now store avgTime protoExpireTime).2.2

/-- What holds between the operations of a run in order of arrival. -/
structure Ordered (last : Timeval) (ts : TrafficStats) : Prop where
  accounts : ts.AccountsFor ts.pktList
  settled : ts.Settled
  inOrder : InOrder ts.pktList
  notAfter : ∀ it ∈ ts.pktList, it.info.timestamp.NotAfter last

theorem Ordered.init (last now : Timeval) : Ordered last (TrafficStats.init now) where
  accounts := AccountsFor.init now
  settled := Settled.init now
  inOrder := List.Pairwise.nil
  notAfter _ hit := absurd hit List.not_mem_nil

theorem Ordered.addPacket {last : Timeval} {ts : TrafficStats} (h : Ordered last ts) (now : Timeval)
    (store : PacketStore) {newPkt : PacketInfo} (hnew : newPkt.protDesc.Contiguous)
    (hlast : last.NotAfter newPkt.timestamp) (dir : PacketDirection) :
    Ordered newPkt.timestamp (ts.addPacket now store newPkt dir).2 where
  accounts := h.accounts.addPacket now store hnew dir
  settled := h.settled.addPacket h.accounts now store newPkt dir
  inOrder := by
    refine List.pairwise_append.mpr ⟨h.inOrder, List.pairwise_singleton _ _, fun it hit other hother => ?_⟩
    rw [List.mem_singleton.mp hother]
    exact (h.notAfter it hit).trans hlast
  notAfter it hit := by
    rcases List.mem_append.mp hit with hit | hit
    · exact (h.notAfter it hit).trans hlast
    · rw [List.mem_singleton.mp hit]
      exact le_of_eq (by simp [substractTimesMs])

theorem Ordered.update {last : Timeval} {ts : TrafficStats} (h : Ordered last ts) (now : Timeval)
    (store : PacketStore) (avgTime protoExpireTime : ℚ) :
    Ordered last (ts.update now store avgTime protoExpireTime).2.2 := by
  have hsub : ((ts.update now store avgTime protoExpireTime).2.2.pktList).Sublist ts.pktList := by
    rw [update_pktList]
    exact List.dropWhile_sublist _
  exact
    { accounts := h.accounts.update now store avgTime protoExpireTime
      settled := h.settled.update now store avgTime protoExpireTime
      inOrder := h.inOrder.sublist hsub
      notAfter := fun it hit => h.notAfter it (hsub.subset hit) }

theorem Ordered.sortMostUsed {last : Timeval} {ts : TrafficStats} (h : Ordered last ts)
    (level : Level) : Ordered last (ts.sortMostUsed level).2 where
  accounts := h.accounts.sortMostUsed level
  settled := h.settled.sortMostUsed level
  inOrder := h.inOrder
  notAfter := h.notAfter

theorem ReachedInOrder.ordered {last : Timeval} {ts : TrafficStats} (h : ReachedInOrder last ts) :
    Ordered last ts := by
  induction h with
  | init last now => exact Ordered.init last now
  | addPacket _ now store newPkt hnew hlast dir ih => exact ih.addPacket now store hnew hlast dir
  | update _ now store avgTime protoExpireTime ih => exact ih.update now store avgTime protoExpireTime

theorem Ordered.update_pktList_eq {last : Timeval} {ts : TrafficStats} (h : Ordered last ts)
    (now : Timeval) (store : PacketStore) (avgTime protoExpireTime : ℚ) :
    (ts.update now store avgTime protoExpireTime).2.2.pktList =
      youngerThan now avgTime ts.pktList := by
  rw [update_pktList, dropWhile_itemExpired h.inOrder]

theorem Ordered.update_rates {last : Timeval} {ts : TrafficStats} (h : Ordered last ts)
    (now : Timeval) (store : PacketStore) {avgTime : ℚ} (havg : 0 < avgTime) (protoExpireTime : ℚ) :
    (ts.update now store avgTime protoExpireTime).2.2.RatesOver avgTime := by
  have hacc := h.accounts.purgeExpiredPackets now store avgTime protoExpireTime
  have hsettled := h.settled.purgeExpiredPackets now store avgTime protoExpireTime
  unfold TrafficStats.update
  dsimp only
  split
  next => exact ratesOver_average hacc (ne_of_gt havg)
  next hempty => exact hsettled.ratesOver hacc (not_not.mp hempty) avgTime

/-- **Updates are exact.** After an update the queue is the old one restricted to the packets
younger than the averaging time, the result tells whether it is non-empty, and every average is the
rate of the bytes that remain for it; when the result is false all of them are zero. -/
theorem update_exact {last : Timeval} {ts : TrafficStats} (h : ReachedInOrder last ts)
    (now : Timeval) (store : PacketStore) (avgTime protoExpireTime : ℚ) (havg : 0 < avgTime) :
    (ts.update now store avgTime protoExpireTime).2.2.pktList =
        ts.pktList.filter (fun it => substractTimesMs now it.info.timestamp < avgTime) ∧
      ((ts.update now store avgTime protoExpireTime).1 = true ↔
        (ts.update now store avgTime protoExpireTime).2.2.pktList ≠ []) ∧
      (ts.update now store avgTime protoExpireTime).2.2.RatesOver avgTime ∧
      ((ts.update now store avgTime protoExpireTime).1 = false →
        (ts.update now store avgTime protoExpireTime).2.2.stats.average = 0 ∧
        (ts.update now store avgTime protoExpireTime).2.2.statsIn.average = 0 ∧
        (ts.update now store avgTime protoExpireTime).2.2.statsOut.average = 0 ∧
        ∀ i, ∀ p ∈ (ts.update now store avgTime protoExpireTime).2.2.statsProtos i,
          p.stats.average = 0) := by
  have hordered := h.ordered
  have hactive := update_active_iff now store ts avgTime protoExpireTime
  have hrates := hordered.update_rates now store havg protoExpireTime
  refine ⟨hordered.update_pktList_eq now store avgTime protoExpireTime, hactive, hrates, fun hfalse => ?_⟩
  have hempty : (ts.update now store avgTime protoExpireTime).2.2.pktList = [] := by
    by_contra hne
    rw [hactive.mpr hne] at hfalse
    exact absurd hfalse (by decide)
  refine ⟨?_, ?_, ?_, fun i p hp => ?_⟩
  · rw [hrates.stats, hempty]
    simp
  · rw [hrates.statsIn, hempty]
    simp [inboundItems]
  · rw [hrates.statsOut, hempty]
    simp [outboundItems]
  · rw [hrates.protos i p hp, hempty]
    simp [namedAt]

/-- Two packets a second apart, updated when only the second is still in the window. -/
theorem update_exact_two_packets :
    let first := (init ⟨10, 0⟩).addPacket ⟨10, 0⟩ PacketStore.empty ⟨0, 100, ⟨10, 0⟩, sampleProtos⟩ .inbound
    let second := first.2.addPacket ⟨11, 0⟩ first.1 ⟨1, 40, ⟨11, 0⟩, sampleProtos⟩ .outbound
    (second.2.update ⟨11, 500000⟩ second.1 1000 0).2.2.statsOut.average = 320 := by
  intro first second
  have hreached : ReachedInOrder ⟨11, 0⟩ second.2 :=
    ((ReachedInOrder.init ⟨10, 0⟩ ⟨10, 0⟩).addPacket _ _ ⟨0, 100, ⟨10, 0⟩, sampleProtos⟩
      sampleProtos_contiguous (by unfold Timeval.NotAfter; decide +kernel) _).addPacket _ _
      ⟨1, 40, ⟨11, 0⟩, sampleProtos⟩ sampleProtos_contiguous
      (by unfold Timeval.NotAfter; decide +kernel) _
  have hexact := update_exact hreached ⟨11, 500000⟩ second.1 1000 0 (by decide +kernel)
  rw [hexact.2.2.1.statsOut, hexact.1]
  decide +kernel

end TrafficStats

end EtherApe
