import EtherApe.TrafficStats.Update

/-!
# Refreshing a catalog entry

`node_update` and `update_link` are the same function up to the timeouts they read and what they do
with an entry that expired. The common part is `refresh`.
-/

namespace EtherApe

/-- What a refresh leaves of an entry, and whether the entry expired. -/
structure Refreshed where
  store : PacketStore
  mainProt : Level → Option String
  stats : TrafficStats
  expired : Bool

namespace TrafficStats

/-- Sorts level `i` and keeps its most used protocol. -/
def sortLevel (acc : (Level → Option String) × TrafficStats) (i : Level) :
    (Level → Option String) × TrafficStats :=
  let (name, ts) := acc.2.sortMostUsed i
  (fun j => if j = i then name else acc.1 j, ts)

/-- The most used protocol of each level, from the highest level down. -/
def sortLevels (mainProt : Level → Option String) (ts : TrafficStats) :
    (Level → Option String) × TrafficStats :=
  (List.finRange (stackSize + 1)).reverse.foldl sortLevel (mainProt, ts)

/-- Updates the statistics of an entry. With packets left the most used protocols are taken again;
without, the entry expires once its last packet is `timeout` milliseconds old, unless that is zero. -/
def refresh (now : Timeval) (store : PacketStore) (avgTime protoTimeout timeout : ℚ)
    (mainProt : Level → Option String) (ts : TrafficStats) : Refreshed :=
  let (active, store, ts) := ts.update now store avgTime protoTimeout
  if active then
    let (mainProt, ts) := ts.sortLevels mainProt
    ⟨store, mainProt, ts, false⟩
  else ⟨store, mainProt, ts, timeout ≠ 0 ∧ timeout ≤ substractTimesMs now ts.stats.lastTime⟩

theorem sortLevels_keeps {P : TrafficStats → Prop} (hsort : ∀ ts i, P ts → P (ts.sortMostUsed i).2)
    {ts : TrafficStats} (h : P ts) (mainProt : Level → Option String) :
    P (ts.sortLevels mainProt).2 := by
  have hfold : ∀ (levels : List Level) (acc : (Level → Option String) × TrafficStats), P acc.2 →
      P (levels.foldl sortLevel acc).2 := by
    intro levels
    induction levels with
    | nil => exact fun _ hacc => hacc
    | cons i levels ih => exact fun acc hacc => ih _ (hsort acc.2 i hacc)
  exact hfold _ (mainProt, ts) h

theorem sortLevels_pktList (ts : TrafficStats) (mainProt : Level → Option String) :
    (ts.sortLevels mainProt).2.pktList = ts.pktList :=
  sortLevels_keeps (P := fun ts' => ts'.pktList = ts.pktList) (fun _ _ h => h) rfl mainProt

section Refresh

variable (now : Timeval) (store : PacketStore) (avgTime protoTimeout timeout : ℚ)
  (mainProt : Level → Option String) (ts : TrafficStats)

theorem refresh_stats :
    (ts.refresh now store avgTime protoTimeout timeout mainProt).stats =
        (ts.update now store avgTime protoTimeout).2.2 ∨
      (ts.refresh now store avgTime protoTimeout timeout mainProt).stats =
        ((ts.update now store avgTime protoTimeout).2.2.sortLevels mainProt).2 := by
  unfold refresh
  dsimp only
  split
  · exact Or.inr rfl
  · exact Or.inl rfl

theorem refresh_store :
    (ts.refresh now store avgTime protoTimeout timeout mainProt).store =
      (purgeLoop now avgTime ts.pktList store ts).1 := by
  rw [← update_store now store ts avgTime protoTimeout]
  unfold refresh
  dsimp only
  split <;> rfl

theorem refresh_pktList :
    (ts.refresh now store avgTime protoTimeout timeout mainProt).stats.pktList =
      ts.pktList.dropWhile (itemExpired now avgTime) := by
  rw [← update_pktList now store ts avgTime protoTimeout]
  rcases refresh_stats now store avgTime protoTimeout timeout mainProt ts with h | h
  · rw [h]
  · rw [h, sortLevels_pktList]

/-- Only an entry without packets expires. -/
theorem pktList_of_refresh_expired
    (h : (ts.refresh now store avgTime protoTimeout timeout mainProt).expired = true) :
    (ts.refresh now store avgTime protoTimeout timeout mainProt).stats.pktList = [] := by
  unfold refresh at h ⊢
  dsimp only at h ⊢
  split at h
  next => exact absurd h Bool.false_ne_true
  next hinactive =>
    rw [if_neg hinactive]
    by_contra hpackets
    exact hinactive ((update_active_iff now store ts avgTime protoTimeout).mpr hpackets)

theorem refresh_congr (store' : PacketStore) :
    (ts.refresh now store avgTime protoTimeout timeout mainProt).stats =
        (ts.refresh now store' avgTime protoTimeout timeout mainProt).stats ∧
      (ts.refresh now store avgTime protoTimeout timeout mainProt).mainProt =
        (ts.refresh now store' avgTime protoTimeout timeout mainProt).mainProt ∧
      (ts.refresh now store avgTime protoTimeout timeout mainProt).expired =
        (ts.refresh now store' avgTime protoTimeout timeout mainProt).expired := by
  have hstats := update_snd_congr now store ts avgTime protoTimeout store'
  have hactive : (ts.update now store avgTime protoTimeout).1 =
      (ts.update now store' avgTime protoTimeout).1 := by
    rw [Bool.eq_iff_iff, update_active_iff, update_active_iff, hstats]
  simp only [refresh, hstats, hactive]
  split <;> exact ⟨rfl, rfl, rfl⟩

theorem refresh_keeps {P : TrafficStats → Prop} (hsort : ∀ ts i, P ts → P (ts.sortMostUsed i).2)
    (h : P (ts.update now store avgTime protoTimeout).2.2) :
    P (ts.refresh now store avgTime protoTimeout timeout mainProt).stats := by
  rcases refresh_stats now store avgTime protoTimeout timeout mainProt ts with hstats | hstats
  · rwa [hstats]
  · rw [hstats]
    exact sortLevels_keeps hsort h mainProt

end Refresh

theorem Ordered.refresh {last : Timeval} {ts : TrafficStats} (h : Ordered last ts) (now : Timeval)
    (store : PacketStore) (avgTime protoTimeout timeout : ℚ) (mainProt : Level → Option String) :
    Ordered last (ts.refresh now store avgTime protoTimeout timeout mainProt).stats :=
  refresh_keeps now store avgTime protoTimeout timeout mainProt ts (P := Ordered last)
    (fun _ i hts => hts.sortMostUsed i) (h.update now store avgTime protoTimeout)

theorem Ordered.refresh_pktList_eq {last : Timeval} {ts : TrafficStats} (h : Ordered last ts)
    (now : Timeval) (store : PacketStore) (avgTime protoTimeout timeout : ℚ)
    (mainProt : Level → Option String) :
    (ts.refresh now store avgTime protoTimeout timeout mainProt).stats.pktList =
      youngerThan now avgTime ts.pktList := by
  rw [refresh_pktList, dropWhile_itemExpired h.inOrder]

/-! ### Totals -/

/-- The totals since the statistics were set up, which no update takes back. -/
def totals (ts : TrafficStats) : Int × Int := (ts.statsOut.accumulated, ts.statsIn.accumulated)

theorem uncountItem_totals (ts : TrafficStats) (packet : PacketListItem) :
    (ts.uncountItem packet).totals = ts.totals := by
  simp only [totals, uncountItem]
  split <;> split <;> rfl

theorem update_totals (now : Timeval) (store : PacketStore) (ts : TrafficStats)
    (avgTime protoTimeout : ℚ) :
    (ts.update now store avgTime protoTimeout).2.2.totals = ts.totals := by
  have hpurge : ∀ (items : List PacketListItem) (ts : TrafficStats),
      (items.foldl uncountItem ts).totals = ts.totals := by
    intro items
    induction items with
    | nil => exact fun _ => rfl
    | cons it items ih => exact fun ts => (ih _).trans (uncountItem_totals ts it)
  have hclear : ∀ ts : TrafficStats, ts.clearAverages.totals = ts.totals := by
    intro ts
    unfold clearAverages
    split <;> rfl
  have hpacked : (ts.purgeExpiredPackets now store avgTime protoTimeout).2.totals = ts.totals := by
    simp only [purgeExpiredPackets, purgeLoop_snd]
    refine (hclear _).trans ?_
    exact hpurge _ ts
  have haverage : ∀ ts : TrafficStats, (ts.average avgTime).totals = ts.totals := by
    intro ts
    simp [totals, average]
  unfold update
  dsimp only
  split
  · exact (haverage _).trans hpacked
  · exact hpacked

theorem refresh_totals (now : Timeval) (store : PacketStore) (avgTime protoTimeout timeout : ℚ)
    (mainProt : Level → Option String) (ts : TrafficStats) :
    (ts.refresh now store avgTime protoTimeout timeout mainProt).stats.totals = ts.totals :=
  refresh_keeps now store avgTime protoTimeout timeout mainProt ts
    (P := fun ts' => ts'.totals = ts.totals) (fun _ _ h => h)
    (update_totals now store ts avgTime protoTimeout)

end TrafficStats

end EtherApe
