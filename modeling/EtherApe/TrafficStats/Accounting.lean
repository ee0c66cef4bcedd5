import EtherApe.TrafficStats

/-!
# Window accounting

Whatever the order of additions, updates, sorts and resets, the counters of a `traffic_stats_t` are
sums over the packets in its queue. The delicate part is the protocol stack: a protocol without
traffic may be purged while empty packets that name it are still queued, and the subtraction of such
a packet stops at the level where its protocol is missing. What makes this harmless is that only an
empty packet can miss its protocol.
-/

namespace EtherApe

def totalSize (items : List PacketListItem) : Int := (items.map fun it => (it.info.size : Int)).sum

/-- The items whose packet names `name` at level `i`. -/
def namedAt (i : Level) (name : String) (items : List PacketListItem) : List PacketListItem :=
  items.filter fun it => it.info.protDesc.protonames i = some name

def inboundItems (items : List PacketListItem) : List PacketListItem :=
  items.filter fun it => it.direction ≠ .outbound

def outboundItems (items : List PacketListItem) : List PacketListItem :=
  items.filter fun it => it.direction ≠ .inbound

@[simp] theorem totalSize_nil : totalSize [] = 0 := rfl

theorem totalSize_cons (it : PacketListItem) (items : List PacketListItem) :
    totalSize (it :: items) = it.info.size + totalSize items := rfl

theorem totalSize_append (items items' : List PacketListItem) :
    totalSize (items ++ items') = totalSize items + totalSize items' := by
  simp [totalSize]

theorem totalSize_nonneg (items : List PacketListItem) : 0 ≤ totalSize items :=
  List.sum_nonneg fun x hx => by
    obtain ⟨it, _, rfl⟩ := List.mem_map.mp hx
    exact Int.natCast_nonneg _

theorem size_le_totalSize {it : PacketListItem} {items : List PacketListItem} (h : it ∈ items) :
    (it.info.size : Int) ≤ totalSize items := by
  obtain ⟨before, after, rfl⟩ := List.append_of_mem h
  have hbefore := totalSize_nonneg before
  have hafter := totalSize_nonneg after
  rw [totalSize_append, totalSize_cons]
  omega

theorem totalSize_filter_cons (p : PacketListItem → Bool) (it : PacketListItem)
    (items : List PacketListItem) :
    totalSize ((it :: items).filter p) =
      (if p it then (it.info.size : Int) else 0) + totalSize (items.filter p) := by
  by_cases h : p it <;> simp [h, totalSize_cons]

theorem totalSize_filter_append (p : PacketListItem → Bool) (items : List PacketListItem)
    (it : PacketListItem) :
    totalSize ((items ++ [it]).filter p) =
      totalSize (items.filter p) + if p it then (it.info.size : Int) else 0 := by
  rw [List.filter_append, totalSize_append, totalSize_filter_cons, List.filter_nil, totalSize_nil,
    add_zero]

namespace TrafficStats

/-- The counters of `ts` are the sums over `items`, and no level repeats a protocol name. -/
structure AccountsFor (ts : TrafficStats) (items : List PacketListItem) : Prop where
  contiguous : ∀ it ∈ items, it.info.protDesc.Contiguous
  stats : ts.stats.averAccu = totalSize items
  statsIn : ts.statsIn.averAccu = totalSize (inboundItems items)
  statsOut : ts.statsOut.averAccu = totalSize (outboundItems items)
  names : ∀ i, Protostack.NamesNodup (ts.statsProtos i)
  levels : ∀ i name, Protostack.levelAccu name (ts.statsProtos i) = totalSize (namedAt i name items)

namespace AccountsFor

variable {ts : TrafficStats} {items : List PacketListItem}

theorem averAccu_eq (h : ts.AccountsFor items) {i : Level} {p : Protocol}
    (hp : p ∈ ts.statsProtos i) : p.stats.averAccu = totalSize (namedAt i p.name items) := by
  rw [Protostack.averAccu_eq_levelAccu (h.names i) hp, h.levels]

theorem averAccu_nonneg (h : ts.AccountsFor items) {i : Level} {p : Protocol}
    (hp : p ∈ ts.statsProtos i) : 0 ≤ p.stats.averAccu := by
  rw [h.averAccu_eq hp]
  exact totalSize_nonneg _

theorem init (now : Timeval) : (TrafficStats.init now).AccountsFor [] where
  contiguous _ hit := absurd hit List.not_mem_nil
  stats := rfl
  statsIn := rfl
  statsOut := rfl
  names _ := List.nodup_nil
  levels _ _ := rfl

theorem reset (now : Timeval) (store : PacketStore) (ts : TrafficStats) :
    (ts.reset now store).2.AccountsFor [] where
  contiguous _ hit := absurd hit List.not_mem_nil
  stats := rfl
  statsIn := rfl
  statsOut := rfl
  names _ := List.nodup_nil
  levels _ _ := rfl

theorem countItem (h : ts.AccountsFor items) (now : Timeval) {newit : PacketListItem}
    (hnew : newit.info.protDesc.Contiguous) :
    (ts.countItem now newit).AccountsFor (items ++ [newit]) where
  contiguous it hit := by
    rcases List.mem_append.mp hit with hit | hit
    · exact h.contiguous it hit
    · rw [List.mem_singleton.mp hit]
      exact hnew
  stats := by
    rw [totalSize_append, ← h.stats]
    simp [TrafficStats.countItem, totalSize_cons]
  statsIn := by
    rw [inboundItems, totalSize_filter_append, ← inboundItems, ← h.statsIn]
    simp only [TrafficStats.countItem, decide_eq_true_eq]
    split <;> simp
  statsOut := by
    rw [outboundItems, totalSize_filter_append, ← outboundItems, ← h.statsOut]
    simp only [TrafficStats.countItem, decide_eq_true_eq]
    split <;> simp
  names i := Protostack.addPkt_names h.names now newit.info i
  levels i name := by
    rw [namedAt, totalSize_filter_append, ← namedAt, ← h.levels]
    simp only [TrafficStats.countItem, Protostack.levelAccu_addPkt, Protostack.countedAt,
      decide_eq_true_eq]

/-- A queued packet that misses its protocol is empty. -/
theorem size_eq_zero_of_missing (h : ts.AccountsFor items) {it : PacketListItem} (hit : it ∈ items)
    {i : Level} {name : String} (hname : it.info.protDesc.protonames i = some name)
    (hmissing : ¬(ts.statsProtos i).any (·.name = name)) : it.info.size = 0 := by
  have hzero : totalSize (namedAt i name items) = 0 := by
    rw [← h.levels]
    exact Protostack.levelAccu_eq_zero fun p hp hpname =>
      hmissing (List.any_eq_true.mpr ⟨p, hp, by simpa using hpname⟩)
  have hmem : it ∈ namedAt i name items := List.mem_filter.mpr ⟨hit, by simpa using hname⟩
  have hle := size_le_totalSize hmem
  omega

theorem uncountItem {packet : PacketListItem} (h : ts.AccountsFor (packet :: items)) :
    (ts.uncountItem packet).AccountsFor items where
  contiguous it hit := h.contiguous it (List.mem_cons_of_mem _ hit)
  stats := by
    have hstats := h.stats
    rw [totalSize_cons] at hstats
    simp only [TrafficStats.uncountItem, BasicStats.sub_averAccu]
    omega
  statsIn := by
    have hstats := h.statsIn
    rw [inboundItems, totalSize_filter_cons, ← inboundItems] at hstats
    simp only [TrafficStats.uncountItem, decide_eq_true_eq] at hstats ⊢
    split at hstats <;> simp_all
  statsOut := by
    have hstats := h.statsOut
    rw [outboundItems, totalSize_filter_cons, ← outboundItems] at hstats
    simp only [TrafficStats.uncountItem, decide_eq_true_eq] at hstats ⊢
    split at hstats <;> simp_all
  names i := Protostack.subPktLoop_names h.names (List.nodup_finRange _) i
  levels i name := by
    have hpacket := h.contiguous packet List.mem_cons_self
    have hlevels := h.levels i name
    rw [namedAt, totalSize_filter_cons, ← namedAt] at hlevels
    have hsub : Protostack.levelAccu name
          (Protostack.subPktLoop packet.info (List.finRange _) ts.statsProtos i) =
        Protostack.levelAccu name (ts.statsProtos i) - Protostack.countedAt i name packet.info :=
      Protostack.levelAccu_subPktLoop (List.pairwise_lt_finRange _)
        (fun a _ b _ hab hnone => hpacket.none_of_le hab hnone)
        (fun a _ n hn hmissing => h.size_eq_zero_of_missing List.mem_cons_self hn hmissing)
        (List.mem_finRange i) name
    simp only [TrafficStats.uncountItem, Protostack.subPkt, hsub, hlevels, Protostack.countedAt,
      decide_eq_true_eq]
    ring

theorem purgeLoop (h : ts.AccountsFor items) (now : Timeval) (pktExpireTime : ℚ)
    (store : PacketStore) :
    (TrafficStats.purgeLoop now pktExpireTime items store ts).2.AccountsFor
      (TrafficStats.purgeLoop now pktExpireTime items store ts).2.pktList := by
  induction items generalizing store ts with
  | nil => exact ⟨h.contiguous, h.stats, h.statsIn, h.statsOut, h.names, h.levels⟩
  | cons packet younger ih =>
      simp only [TrafficStats.purgeLoop]
      split
      · exact ⟨h.contiguous, h.stats, h.statsIn, h.statsOut, h.names, h.levels⟩
      · exact ih h.uncountItem _

theorem clearAverages (h : ts.AccountsFor items) : ts.clearAverages.AccountsFor items := by
  unfold TrafficStats.clearAverages
  split <;> exact ⟨h.contiguous, h.stats, h.statsIn, h.statsOut, h.names, h.levels⟩

theorem purgeExpired (h : ts.AccountsFor items) (now : Timeval) (expireTime : ℚ) :
    { ts with statsProtos := ts.statsProtos.purgeExpired now expireTime }.AccountsFor items where
  contiguous := h.contiguous
  stats := h.stats
  statsIn := h.statsIn
  statsOut := h.statsOut
  names i := ((Protostack.purgeExpired_sublist ts.statsProtos now expireTime i).map _).nodup (h.names i)
  levels i name := by
    rw [← h.levels i name]
    exact Protostack.levelAccu_purgeExpired (fun p hp => h.averAccu_nonneg hp) now expireTime name

theorem purgeExpiredPackets (h : ts.AccountsFor ts.pktList) (now : Timeval) (store : PacketStore)
    (pktExpireTime protoExpireTime : ℚ) :
    (ts.purgeExpiredPackets now store pktExpireTime protoExpireTime).2.AccountsFor
      (ts.purgeExpiredPackets now store pktExpireTime protoExpireTime).2.pktList := by
  have hloop := (h.purgeLoop now pktExpireTime store).clearAverages.purgeExpired now protoExpireTime
  simpa only [TrafficStats.purgeExpiredPackets, clearAverages_pktList] using hloop

theorem average (h : ts.AccountsFor items) (avgTime : ℚ) : (ts.average avgTime).AccountsFor items where
  contiguous := h.contiguous
  stats := by simpa [TrafficStats.average] using h.stats
  statsIn := by simpa [TrafficStats.average] using h.statsIn
  statsOut := by simpa [TrafficStats.average] using h.statsOut
  names i := by
    have hnames := h.names i
    simpa [TrafficStats.average, Protostack.avg, Protostack.NamesNodup, Function.comp_def] using hnames
  levels i name := by
    simp only [TrafficStats.average, Protostack.levelAccu_avg]
    exact h.levels i name

theorem update (h : ts.AccountsFor ts.pktList) (now : Timeval) (store : PacketStore)
    (avgTime protoExpireTime : ℚ) :
    (ts.update now store avgTime protoExpireTime).2.2.AccountsFor
      (ts.update now store avgTime protoExpireTime).2.2.pktList := by
  have hpurge := h.purgeExpiredPackets now store avgTime protoExpireTime
  unfold TrafficStats.update
  dsimp only
  split
  · exact hpurge.average avgTime
  · exact hpurge

theorem addPacket (h : ts.AccountsFor ts.pktList) (now : Timeval) (store : PacketStore)
    {newPkt : PacketInfo} (hnew : newPkt.protDesc.Contiguous) (dir : PacketDirection) :
    (ts.addPacket now store newPkt dir).2.AccountsFor (ts.addPacket now store newPkt dir).2.pktList := by
  have hqueued : ({ ts with pktList := ts.pktList ++ [⟨newPkt, dir⟩] } : TrafficStats).AccountsFor
      ts.pktList :=
    ⟨h.contiguous, h.stats, h.statsIn, h.statsOut, h.names, h.levels⟩
  exact AccountsFor.countItem hqueued now hnew

theorem sortMostUsed (h : ts.AccountsFor items) (level : Level) :
    (ts.sortMostUsed level).2.AccountsFor items where
  contiguous := h.contiguous
  stats := h.stats
  statsIn := h.statsIn
  statsOut := h.statsOut
  names i := ((Protostack.sortMostUsed_perm ts.statsProtos level i).map _).nodup_iff.mpr (h.names i)
  levels i name := by
    rw [← h.levels i name]
    exact Protostack.levelAccu_perm (Protostack.sortMostUsed_perm ts.statsProtos level i)

end AccountsFor

/-- Statistics reached from `traffic_stats_init` by any sequence of operations, with packets whose
stack has the shape the decoder gives it. -/
inductive Reached : TrafficStats → Prop
  | init (now : Timeval) : Reached (init now)
  | addPacket {ts : TrafficStats} (h : Reached ts) (now : Timeval) (store : PacketStore)
      (newPkt : PacketInfo) (hnew : newPkt.protDesc.Contiguous) (dir : PacketDirection) :
      Reached (ts.addPacket now store newPkt dir).2
  | update {ts : TrafficStats} (h : Reached ts) (now : Timeval) (store : PacketStore)
      (avgTime protoExpireTime : ℚ) : Reached (ts.update now store avgTime protoExpireTime).2.2
  | sortMostUsed {ts : TrafficStats} (h : Reached ts) (level : Level) :
      Reached (ts.sortMostUsed level).2
  | reset {ts : TrafficStats} (h : Reached ts) (now : Timeval) (store : PacketStore) :
      Reached (ts.reset now store).2

theorem Reached.accountsFor {ts : TrafficStats} (h : Reached ts) : ts.AccountsFor ts.pktList := by
  induction h with
  | init now => exact AccountsFor.init now
  | addPacket _ now store newPkt hnew dir ih => exact ih.addPacket now store hnew dir
  | update _ now store avgTime protoExpireTime ih => exact ih.update now store avgTime protoExpireTime
  | sortMostUsed _ level ih => exact ih.sortMostUsed level
  | reset _ now store _ => exact AccountsFor.reset now store _

/-- **Window accounting.** In every reached state the byte counters are the sums over the queued
packets, and each level holds at most one protocol of a name, which holds that name's bytes. -/
theorem window_accounting {ts : TrafficStats} (h : Reached ts) :
    ts.stats.averAccu = totalSize ts.pktList ∧
      ts.statsIn.averAccu = totalSize (ts.pktList.filter fun it => it.direction ≠ .outbound) ∧
      ts.statsOut.averAccu = totalSize (ts.pktList.filter fun it => it.direction ≠ .inbound) ∧
      ∀ (i : Level) (n : String),
        ((ts.statsProtos i).filter (·.name = n)).length ≤ 1 ∧
        (∀ p ∈ ts.statsProtos i, p.name = n → p.stats.averAccu =
          totalSize (ts.pktList.filter fun it => it.info.protDesc.protonames i = some n)) ∧
        ((∀ p ∈ ts.statsProtos i, p.name ≠ n) →
          totalSize (ts.pktList.filter fun it => it.info.protDesc.protonames i = some n) = 0) := by
  have hacc := h.accountsFor
  refine ⟨hacc.stats, hacc.statsIn, hacc.statsOut, fun i n => ⟨?_, ?_, ?_⟩⟩
  · have hcount := List.nodup_iff_count_le_one.mp (hacc.names i) n
    rwa [List.count, List.countP_map, List.countP_eq_length_filter] at hcount
  · rintro p hp rfl
    exact hacc.averAccu_eq hp
  · intro hnone
    have hlevel := hacc.levels i n
    rw [Protostack.levelAccu_eq_zero hnone] at hlevel
    exact hlevel.symm

def sampleProtos : PacketProtos :=
  ⟨fun i => if i.val = 1 then some "ETH_II" else if i.val ≤ 2 then some "IP" else none⟩

theorem sampleProtos_contiguous : sampleProtos.Contiguous := ⟨2, by decide, by decide, by decide⟩

/-- An empty packet whose protocols are purged while it is queued, followed by a full one. -/
theorem window_accounting_empty_packet :
    let empty := (init ⟨10, 0⟩).addPacket ⟨10, 0⟩ PacketStore.empty ⟨0, 0, ⟨10, 0⟩, sampleProtos⟩ .inbound
    let purged := empty.2.update ⟨12, 0⟩ empty.1 5000 1000
    let full := purged.2.2.addPacket ⟨12, 0⟩ purged.2.1 ⟨1, 40, ⟨12, 0⟩, sampleProtos⟩ .outbound
    full.2.pktList.length = 2 ∧ full.2.stats.averAccu = 40 := by
  intro empty purged full
  have hreached : Reached full.2 :=
    (((Reached.init ⟨10, 0⟩).addPacket _ _ _ sampleProtos_contiguous _).update _ _ _ _).addPacket
      _ _ _ sampleProtos_contiguous _
  exact ⟨by decide +kernel, (window_accounting hreached).1.trans (by decide +kernel)⟩

end TrafficStats

end EtherApe
