import EtherApe.Protocols

/-!
# Traffic statistics

The model of `traffic_stats.c`. The packet queue is kept from its tail to its head, that is in order
of arrival, so that pushing at the head appends and the purge, which works from the tail, is a
recursion on the list. Every function that touches packet items carries the packet store along.
-/

namespace EtherApe

structure TrafficStats where
  pktList : List PacketListItem
  stats : BasicStats
  statsIn : BasicStats
  statsOut : BasicStats
  statsProtos : Protostack

namespace TrafficStats

def init (now : Timeval) : TrafficStats :=
  { pktList := []
    stats := BasicStats.reset now
    statsIn := BasicStats.reset now
    statsOut := BasicStats.reset now
    statsProtos := Protostack.open_ }

/-- `traffic_stats_reset`: the items are released from the head of the queue. -/
def reset (now : Timeval) (store : PacketStore) (ts : TrafficStats) : PacketStore × TrafficStats :=
  (ts.pktList.reverse.foldl PacketStore.packetListItemDelete store,
    { pktList := []
      stats := BasicStats.reset now
      statsIn := BasicStats.reset now
      statsOut := BasicStats.reset now
      statsProtos := ts.statsProtos.reset })

/-- The counters and protocols a new item is added to. -/
def countItem (now : Timeval) (ts : TrafficStats) (newit : PacketListItem) : TrafficStats :=
  { ts with
    stats := ts.stats.add now newit.info.size
    statsIn :=
      if newit.direction ≠ .outbound then ts.statsIn.add now newit.info.size else ts.statsIn
    statsOut :=
      if newit.direction ≠ .inbound then ts.statsOut.add now newit.info.size else ts.statsOut
    statsProtos := ts.statsProtos.addPkt now newit.info }

def addPacket (now : Timeval) (store : PacketStore) (ts : TrafficStats) (newPkt : PacketInfo)
    (dir : PacketDirection) : PacketStore × TrafficStats :=
  let (store, newit) := store.packetListItemCreate newPkt dir
  (store, countItem now { ts with pktList := ts.pktList ++ [newit] } newit)

/-- The counters and protocols an expired item is taken off from. -/
def uncountItem (ts : TrafficStats) (packet : PacketListItem) : TrafficStats :=
  { ts with
    stats := ts.stats.sub packet.info.size
    statsIn :=
      if packet.direction ≠ .outbound then ts.statsIn.sub packet.info.size else ts.statsIn
    statsOut :=
      if packet.direction ≠ .inbound then ts.statsOut.sub packet.info.size else ts.statsOut
    statsProtos := ts.statsProtos.subPkt packet.info }

/-- The loop of `traffic_stats_purge_expired_packets`, which ends at the first packet that is still
valid. -/
def purgeLoop (now : Timeval) (pktExpireTime : ℚ) :
    List PacketListItem → PacketStore → TrafficStats → PacketStore × TrafficStats
  | [], store, ts => (store, { ts with pktList := [] })
  | packet :: younger, store, ts =>
      let store := store.deref packet.info.ref
      if substractTimesMs now packet.info.timestamp < pktExpireTime then
        (store, { ts with pktList := packet :: younger })
      else
        purgeLoop now pktExpireTime younger (store.packetListItemDelete packet) (ts.uncountItem packet)

/-- The averages are cleared once no packet is left. -/
def clearAverages (ts : TrafficStats) : TrafficStats :=
  if ts.pktList = [] then
    { ts with
      stats := { ts.stats with average := 0 }
      statsIn := { ts.statsIn with average := 0 }
      statsOut := { ts.statsOut with average := 0 } }
  else ts

def purgeExpiredPackets (now : Timeval) (store : PacketStore) (ts : TrafficStats)
    (pktExpireTime protoExpireTime : ℚ) : PacketStore × TrafficStats :=
  let (store, ts) := purgeLoop now pktExpireTime ts.pktList store ts
  let ts := ts.clearAverages
  (store, { ts with statsProtos := ts.statsProtos.purgeExpired now protoExpireTime })

/-- The averages over the last `avgTime` milliseconds. -/
def average (ts : TrafficStats) (avgTime : ℚ) : TrafficStats :=
  { ts with
    stats := ts.stats.avg avgTime
    statsIn := ts.statsIn.avg avgTime
    statsOut := ts.statsOut.avg avgTime
    statsProtos := ts.statsProtos.avg avgTime }

/-- `traffic_stats_update`; the result tells whether there are active packets. -/
def update (now : Timeval) (store : PacketStore) (ts : TrafficStats)
    (avgTime protoExpireTime : ℚ) : Bool × PacketStore × TrafficStats :=
  let (store, ts) := purgeExpiredPackets now store ts avgTime protoExpireTime
  if ts.pktList ≠ [] then (true, store, ts.average avgTime) else (false, store, ts)

/-- `protocol_stack_sort_most_used` on the statistics' stack. -/
def sortMostUsed (ts : TrafficStats) (level : Level) : Option String × TrafficStats :=
  ((ts.statsProtos.sortMostUsed level).1,
    { ts with statsProtos := (ts.statsProtos.sortMostUsed level).2 })

/-! ### The parts of an update -/

/-- A packet the purge drops. -/
def itemExpired (now : Timeval) (pktExpireTime : ℚ) (it : PacketListItem) : Bool :=
  ¬substractTimesMs now it.info.timestamp < pktExpireTime

theorem purgeLoop_snd (now : Timeval) (pktExpireTime : ℚ) (items : List PacketListItem)
    (store : PacketStore) (ts : TrafficStats) :
    (purgeLoop now pktExpireTime items store ts).2 =
      { (items.takeWhile (itemExpired now pktExpireTime)).foldl uncountItem ts with
        pktList := items.dropWhile (itemExpired now pktExpireTime) } := by
  induction items generalizing store ts with
  | nil => rfl
  | cons it items ih =>
      simp only [purgeLoop]
      split
      next hvalid => simp [itemExpired, hvalid]
      next hexpired => simp [itemExpired, hexpired, ih]

theorem purgeLoop_pktList (now : Timeval) (pktExpireTime : ℚ) (items : List PacketListItem)
    (store : PacketStore) (ts : TrafficStats) :
    (purgeLoop now pktExpireTime items store ts).2.pktList =
      items.dropWhile (itemExpired now pktExpireTime) := by
  rw [purgeLoop_snd]

@[simp] theorem clearAverages_pktList (ts : TrafficStats) :
    ts.clearAverages.pktList = ts.pktList := by
  unfold clearAverages
  split <;> rfl

@[simp] theorem clearAverages_statsProtos (ts : TrafficStats) :
    ts.clearAverages.statsProtos = ts.statsProtos := by
  unfold clearAverages
  split <;> rfl

theorem purgeExpiredPackets_pktList (now : Timeval) (store : PacketStore) (ts : TrafficStats)
    (pktExpireTime protoExpireTime : ℚ) :
    (purgeExpiredPackets now store ts pktExpireTime protoExpireTime).2.pktList =
      ts.pktList.dropWhile (itemExpired now pktExpireTime) := by
  simp [purgeExpiredPackets, purgeLoop_pktList]

section Update

variable (now : Timeval) (store : PacketStore) (ts : TrafficStats) (avgTime protoExpireTime : ℚ)

theorem update_store :
    (update now store ts avgTime protoExpireTime).2.1 =
      (purgeLoop now avgTime ts.pktList store ts).1 := by
  unfold update
  dsimp only
  split <;> rfl

theorem update_pktList :
    (update now store ts avgTime protoExpireTime).2.2.pktList =
      ts.pktList.dropWhile (itemExpired now avgTime) := by
  rw [← purgeExpiredPackets_pktList now store ts avgTime protoExpireTime]
  unfold update
  dsimp only
  split <;> rfl

theorem update_active_iff :
    (update now store ts avgTime protoExpireTime).1 = true ↔
      (update now store ts avgTime protoExpireTime).2.2.pktList ≠ [] := by
  unfold update
  dsimp only
  split
  next h => simpa [average] using h
  next h => simpa using h

theorem update_snd_congr (store' : PacketStore) :
    (update now store ts avgTime protoExpireTime).2.2 =
      (update now store' ts avgTime protoExpireTime).2.2 := by
  simp only [update, purgeExpiredPackets, purgeLoop_snd]
  split <;> rfl

end Update

end TrafficStats

end EtherApe
