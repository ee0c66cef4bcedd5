import EtherApe.Capture
import Mathlib.Data.Finset.Card
import Mathlib.Data.Multiset.Count

/-!
# Reference counts

A packet is shared by the lists of its two nodes, of its link and of the summary, which are purged
and destroyed independently. The store counts references correctly when it counts a given multiset
of them; every operation on a list item changes that multiset by one reference, whatever else is in
it, so the rules for sweeps lift this to the catalogs.
-/

namespace EtherApe

def packetRefs (items : Multiset PacketListItem) : Multiset PacketRef := items.map (·.info.ref)

namespace PacketStore

/-- The store counts exactly the references `m`: nothing else is alive, both counters are right, and
freed memory was never touched. -/
structure Counts (st : PacketStore) (m : Multiset PacketRef) : Prop where
  refCount : ∀ r, st.refCount r = if m.count r = 0 then none else some (m.count r)
  packetListItemN : st.packetListItemN = m.card
  totalMemPackets : st.totalMemPackets = m.toFinset.card
  accessedFreed : st.accessedFreed = false

namespace Counts

variable {st : PacketStore} {m : Multiset PacketRef}

theorem empty : PacketStore.empty.Counts 0 where
  refCount _ := rfl
  packetListItemN := rfl
  totalMemPackets := rfl
  accessedFreed := rfl

theorem live_iff (h : st.Counts m) (r : PacketRef) : st.live r ↔ r ∈ m := by
  rw [live, h.refCount, ← Multiset.count_pos]
  split
  next hzero => simp [hzero]
  next hpos => simpa using Nat.pos_of_ne_zero hpos

theorem deref (h : st.Counts m) {r : PacketRef} (hr : r ∈ m) : st.deref r = st :=
  if_pos ((h.live_iff r).mpr hr)

/-- Deleting one item takes one reference away; the packet is freed with the last one. -/
theorem packetListItemDelete {it : PacketListItem} (h : st.Counts (it.info.ref ::ₘ m)) :
    (st.packetListItemDelete it).Counts m := by
  have hcount : st.refCount it.info.ref = some (m.count it.info.ref + 1) := by
    rw [h.refCount, Multiset.count_cons_self, if_neg (Nat.succ_ne_zero _)]
  have hother : ∀ r, r ≠ it.info.ref →
      st.refCount r = if m.count r = 0 then none else some (m.count r) := by
    intro r hr
    rw [h.refCount, Multiset.count_cons_of_ne hr]
  have hitems := h.packetListItemN
  have htotal := h.totalMemPackets
  rw [Multiset.card_cons] at hitems
  rw [Multiset.toFinset_cons] at htotal
  unfold PacketStore.packetListItemDelete
  rw [hcount]
  dsimp only
  rw [Nat.add_sub_cancel]
  split
  next hlast =>
    have hmem : it.info.ref ∉ m.toFinset := by
      rw [Multiset.mem_toFinset, ← Multiset.count_eq_zero]
      omega
    rw [Finset.card_insert_of_notMem hmem] at htotal
    refine ⟨fun r => ?_, ?_, ?_, h.accessedFreed⟩
    · dsimp only
      split
      next hr => rw [hr, if_pos (by omega)]
      next hr => exact hother r hr
    · dsimp only
      omega
    · dsimp only
      omega
  next hmore =>
    have hmem : it.info.ref ∈ m.toFinset := by
      rw [Multiset.mem_toFinset, ← Multiset.count_pos]
      omega
    rw [Finset.insert_eq_self.mpr hmem] at htotal
    refine ⟨fun r => ?_, ?_, htotal, h.accessedFreed⟩
    · dsimp only
      split
      next hr => rw [hr, if_neg (by omega)]
      next hr => exact hother r hr
    · dsimp only
      omega

theorem packetListItemCreate (h : st.Counts m) {packet : PacketInfo} (hr : packet.ref ∈ m)
    (d : PacketDirection) : (st.packetListItemCreate packet d).1.Counts (packet.ref ::ₘ m) := by
  have hpos : 0 < m.count packet.ref := Multiset.count_pos.mpr hr
  have hcount : st.refCount packet.ref = some (m.count packet.ref) := by
    rw [h.refCount, if_neg (by omega)]
  have hitems := h.packetListItemN
  refine ⟨fun r => ?_, ?_, ?_, ?_⟩
  · dsimp only [PacketStore.packetListItemCreate]
    split
    next heq =>
      rw [heq, hcount, Multiset.count_cons_self, if_neg (Nat.succ_ne_zero _)]
      rfl
    next hne => rw [h.refCount, Multiset.count_cons_of_ne hne]
  · rw [Multiset.card_cons]
    dsimp only [PacketStore.packetListItemCreate]
    omega
  · rw [Multiset.toFinset_cons, Finset.insert_eq_self.mpr (Multiset.mem_toFinset.mpr hr)]
    exact h.totalMemPackets
  · simp [PacketStore.packetListItemCreate, hcount, h.accessedFreed]

theorem firstItem (h : st.Counts m) {packet : PacketInfo} (hfresh : st.refCount packet.ref = none)
    (d : PacketDirection) :
    (({ st.alloc packet.ref with totalMemPackets := st.totalMemPackets + 1 } :
      PacketStore).packetListItemCreate packet d).1.Counts (packet.ref ::ₘ m) := by
  have hnew : packet.ref ∉ m := by
    rw [← h.live_iff, live, hfresh]
    exact Bool.false_ne_true
  have hzero : m.count packet.ref = 0 := Multiset.count_eq_zero.mpr hnew
  have hitems := h.packetListItemN
  have htotal := h.totalMemPackets
  refine ⟨fun r => ?_, ?_, ?_, ?_⟩
  · dsimp only [PacketStore.packetListItemCreate, alloc]
    split
    next heq =>
      rw [heq, Multiset.count_cons_self, hzero]
      simp
    next hne => rw [h.refCount, Multiset.count_cons_of_ne hne]
  · rw [Multiset.card_cons]
    dsimp only [PacketStore.packetListItemCreate, alloc]
    omega
  · rw [Multiset.toFinset_cons,
      Finset.card_insert_of_notMem fun hmem => hnew (Multiset.mem_toFinset.mp hmem)]
    dsimp only [PacketStore.packetListItemCreate]
    omega
  · simp [PacketStore.packetListItemCreate, alloc, h.accessedFreed]

theorem purgeLoop {items : List PacketListItem} {rest : Multiset PacketListItem}
    (h : st.Counts (packetRefs (↑items + rest))) (now : Timeval) (pktExpireTime : ℚ)
    (ts : TrafficStats) :
    (TrafficStats.purgeLoop now pktExpireTime items st ts).1.Counts
      (packetRefs (↑(items.dropWhile (TrafficStats.itemExpired now pktExpireTime)) + rest)) := by
  induction items generalizing st ts with
  | nil => exact h
  | cons it items ih =>
      rw [← Multiset.cons_coe, Multiset.cons_add, packetRefs, Multiset.map_cons] at h
      have hderef : st.deref it.info.ref = st := h.deref (Multiset.mem_cons_self _ _)
      simp only [TrafficStats.purgeLoop, hderef]
      split
      next hvalid =>
        rw [List.dropWhile_cons_of_neg (by simpa [TrafficStats.itemExpired] using hvalid),
          ← Multiset.cons_coe, Multiset.cons_add, packetRefs, Multiset.map_cons]
        exact h
      next hexpired =>
        rw [List.dropWhile_cons_of_pos (by simpa [TrafficStats.itemExpired] using hexpired)]
        exact ih h.packetListItemDelete _

theorem update {ts : TrafficStats} {rest : Multiset PacketListItem}
    (h : st.Counts (packetRefs (↑ts.pktList + rest))) (now : Timeval)
    (avgTime protoExpireTime : ℚ) :
    (ts.update now st avgTime protoExpireTime).2.1.Counts
      (packetRefs (↑(ts.update now st avgTime protoExpireTime).2.2.pktList + rest)) := by
  rw [TrafficStats.update_store, TrafficStats.update_pktList]
  exact h.purgeLoop now avgTime ts

theorem refresh {ts : TrafficStats} {rest : Multiset PacketListItem}
    (h : st.Counts (packetRefs (↑ts.pktList + rest))) (now : Timeval)
    (avgTime protoTimeout timeout : ℚ) (mainProt : Level → Option String) :
    (ts.refresh now st avgTime protoTimeout timeout mainProt).store.Counts
      (packetRefs
        (↑(ts.refresh now st avgTime protoTimeout timeout mainProt).stats.pktList + rest)) := by
  rw [TrafficStats.refresh_store, TrafficStats.refresh_pktList]
  exact h.purgeLoop now avgTime ts

/-- Deleting items in any order drops their references. -/
theorem deleteAll {items : List PacketListItem} {rest : Multiset PacketListItem}
    (h : st.Counts (packetRefs (↑items + rest))) :
    (items.foldl PacketStore.packetListItemDelete st).Counts (packetRefs rest) := by
  induction items generalizing st with
  | nil => rwa [Multiset.coe_nil, zero_add] at h
  | cons it items ih =>
      rw [← Multiset.cons_coe, Multiset.cons_add, packetRefs, Multiset.map_cons] at h
      exact ih h.packetListItemDelete

theorem reset {ts : TrafficStats} {rest : Multiset PacketListItem}
    (h : st.Counts (packetRefs (↑ts.pktList + rest))) (now : Timeval) :
    (ts.reset now st).1.Counts (packetRefs rest) := by
  rw [← Multiset.coe_reverse] at h
  exact h.deleteAll

end Counts

end PacketStore

namespace Capture

/-! ### What the lists of a capture hold -/

def nodeItems (node : Node) : Multiset PacketListItem := node.nodeStats.pktList

def linkItems (link : Link) : Multiset PacketListItem := link.linkStats.pktList

def summaryItems (stats : Option TrafficStats) : Multiset PacketListItem :=
  (stats.map fun ts => (ts.pktList : Multiset PacketListItem)).getD 0

def items (s : Capture) : Multiset PacketListItem :=
  s.allNodes.gather nodeItems + (s.allLinks.gather linkItems + summaryItems s.protosummaryStats)

/-- The lists one by one: those of the nodes, those of the links, and the summary's. -/
def itemLists (s : Capture) : List (List PacketListItem) :=
  s.allNodes.values.map (·.nodeStats.pktList) ++ s.allLinks.values.map (·.linkStats.pktList) ++
    s.protosummaryStats.toList.map (·.pktList)

theorem coe_flatten_itemLists (s : Capture) :
    (s.itemLists.flatten : Multiset PacketListItem) = s.items := by
  have hsum : ∀ {α : Type} (l : List α) (f : α → List PacketListItem),
      ((l.map f).flatten : Multiset PacketListItem) =
        (l.map fun a => (f a : Multiset PacketListItem)).sum := by
    intro α l f
    induction l with
    | nil => rfl
    | cons a l ih =>
        rw [List.map_cons, List.flatten_cons, ← Multiset.coe_add, ih, List.map_cons, List.sum_cons]
  rw [itemLists, List.flatten_append, List.flatten_append, ← Multiset.coe_add, ← Multiset.coe_add,
    hsum, hsum, hsum, items, add_assoc]
  congr 2
  cases s.protosummaryStats with
  | none => rfl
  | some ts => exact add_zero _

section Operations

variable (s : Capture)

theorem coe_addPacket_pktList (now : Timeval) (store : PacketStore) (ts : TrafficStats)
    (packet : PacketInfo) (direction : PacketDirection) :
    ((ts.addPacket now store packet direction).2.pktList : Multiset PacketListItem) =
      ⟨packet, direction⟩ ::ₘ ↑ts.pktList := by
  change ((ts.pktList ++ [⟨packet, direction⟩] : List PacketListItem) :
    Multiset PacketListItem) = _
  rw [← Multiset.coe_add, Multiset.coe_singleton, add_comm, Multiset.singleton_add]

theorem addNodePacket_nodeItems (packet : PacketInfo) (nodeId : NodeId)
    (direction : PacketDirection) (addr : NodeRef) :
    (s.addNodePacket packet nodeId direction addr).allNodes.gather nodeItems =
      ⟨packet, direction⟩ ::ₘ s.allNodes.gather nodeItems := by
  obtain ⟨rest, hafter, hbefore⟩ := SortedTree.gather_upsert nodeItems s.allNodes nodeId
    (Node.create s.now addr nodeId) fun node =>
      { node with
        nodeStats := (((s.allNodes.lookup nodeId).getD
          (Node.create s.now addr nodeId)).nodeStats.addPacket s.now s.store packet direction).2 }
  have hold : ((s.allNodes.lookup nodeId).map nodeItems).getD 0 =
      nodeItems ((s.allNodes.lookup nodeId).getD (Node.create s.now addr nodeId)) := by
    cases s.allNodes.lookup nodeId <;> rfl
  rw [hold] at hbefore
  rw [hbefore]
  refine hafter.trans ?_
  rw [← Multiset.cons_add]
  exact congrArg (· + rest) (coe_addPacket_pktList s.now s.store _ packet direction)

theorem linksCatalogAddPacket_linkItems (linkId : LinkId) (packet : PacketInfo)
    (direction : PacketDirection) :
    (s.linksCatalogAddPacket linkId packet direction).allLinks.gather linkItems =
      ⟨packet, direction⟩ ::ₘ s.allLinks.gather linkItems := by
  obtain ⟨rest, hafter, hbefore⟩ := SortedTree.gather_upsert linkItems s.allLinks linkId
    (Link.create s.now linkId) fun link =>
      { link with
        linkStats := (((s.allLinks.lookup linkId).getD
          (Link.create s.now linkId)).linkStats.addPacket s.now s.store packet direction).2 }
  have hold : ((s.allLinks.lookup linkId).map linkItems).getD 0 =
      linkItems ((s.allLinks.lookup linkId).getD (Link.create s.now linkId)) := by
    cases s.allLinks.lookup linkId <;> rfl
  rw [hold] at hbefore
  rw [hbefore]
  refine hafter.trans ?_
  rw [← Multiset.cons_add]
  exact congrArg (· + rest) (coe_addPacket_pktList s.now s.store _ packet direction)

theorem summaryItems_eq (now : Timeval) (stats : Option TrafficStats) :
    summaryItems stats = ↑(stats.getD (TrafficStats.init now)).pktList := by
  cases stats <;> rfl

theorem protocolSummaryAddPacket_items (packet : PacketInfo) :
    summaryItems (s.protocolSummaryAddPacket packet).protosummaryStats =
      ⟨packet, .eitherbound⟩ ::ₘ summaryItems s.protosummaryStats := by
  rw [protocolSummaryAddPacket_eq, summaryItems_eq s.now s.protosummaryStats]
  exact coe_addPacket_pktList s.now s.store _ packet .eitherbound

theorem addNodePacket_items (packet : PacketInfo) (nodeId : NodeId) (direction : PacketDirection)
    (addr : NodeRef) :
    (s.addNodePacket packet nodeId direction addr).items = ⟨packet, direction⟩ ::ₘ s.items := by
  rw [items, addNodePacket_nodeItems, Multiset.cons_add]
  rfl

theorem linksCatalogAddPacket_items (linkId : LinkId) (packet : PacketInfo)
    (direction : PacketDirection) :
    (s.linksCatalogAddPacket linkId packet direction).items = ⟨packet, direction⟩ ::ₘ s.items := by
  rw [items, linksCatalogAddPacket_linkItems, Multiset.cons_add, Multiset.add_cons]
  rfl

theorem protocolSummaryAddPacket_allItems (packet : PacketInfo) :
    (s.protocolSummaryAddPacket packet).items = ⟨packet, .eitherbound⟩ ::ₘ s.items := by
  rw [items, protocolSummaryAddPacket_items, Multiset.add_cons, Multiset.add_cons, items,
    protocolSummaryAddPacket_eq]

end Operations

/-! ### What the operations keep -/

theorem protocolSummaryClose_protosummaryStats (s : Capture) :
    s.protocolSummaryClose.protosummaryStats = none := by
  unfold protocolSummaryClose
  split
  next => rfl
  next hnone => exact hnone

def Counted (s : Capture) : Prop := s.store.Counts (packetRefs s.items)

namespace Counted

variable {s : Capture}

theorem registerPacket (h : s.Counted) {packet : PacketInfo}
    (hfresh : s.store.refCount packet.ref = none) (src dst : NodeId) (mem : Malloc) :
    (s.registerPacket packet src dst mem).Counted := by
  let s₁ := (s.newPacket packet.ref).addNodePacket packet src .outbound mem.srcNode
  let s₂ := s₁.addNodePacket packet dst .inbound mem.dstNode
  let s₃ := s₂.linksCatalogAddPacket (linkOf src dst).1 packet (linkOf src dst).2
  have hitems₁ : packetRefs s₁.items = packet.ref ::ₘ packetRefs s.items := by
    rw [addNodePacket_items, packetRefs, Multiset.map_cons]
    rfl
  have hitems₂ : packetRefs s₂.items = packet.ref ::ₘ packetRefs s₁.items := by
    rw [addNodePacket_items, packetRefs, Multiset.map_cons, packetRefs]
  have hitems₃ : packetRefs s₃.items = packet.ref ::ₘ packetRefs s₂.items := by
    rw [linksCatalogAddPacket_items, packetRefs, Multiset.map_cons, packetRefs]
  have h₁ : s₁.Counted := by
    rw [Counted, hitems₁]
    exact PacketStore.Counts.firstItem h hfresh .outbound
  have hmem₁ : packet.ref ∈ packetRefs s₁.items := hitems₁ ▸ Multiset.mem_cons_self _ _
  have h₂ : s₂.Counted := by
    rw [Counted, hitems₂]
    exact h₁.packetListItemCreate hmem₁ .inbound
  have hmem₂ : packet.ref ∈ packetRefs s₂.items := hitems₂ ▸ Multiset.mem_cons_self _ _
  have h₃ : s₃.Counted := by
    rw [Counted, hitems₃]
    exact h₂.packetListItemCreate hmem₂ (linkOf src dst).2
  have hmem₃ : packet.ref ∈ packetRefs s₃.items := hitems₃ ▸ Multiset.mem_cons_self _ _
  change (s₃.protocolSummaryAddPacket packet).Counted
  rw [Counted, protocolSummaryAddPacket_allItems, packetRefs, Multiset.map_cons,
    protocolSummaryAddPacket_eq]
  exact h₃.packetListItemCreate hmem₃ .eitherbound

theorem nodesUpdate (h : s.Counted) (pref : Preferences) : (s.nodesUpdate pref).Counted :=
  SortedTree.sweep_keeps (nodeUpdate s.now pref) (nodeDelete s.now) (f := nodeItems)
    (P := fun (st : PacketStore × List NodePtr) items => st.1.Counts (packetRefs items))
    (fun _ _ _ _ hs => hs.refresh s.now _ _ _ _) (fun _ _ _ hs => hs.reset s.now) h

theorem closeNodes (h : s.Counted) : s.closeNodes.Counted := by
  have hcounts := SortedTree.destroyAll_keeps (nodeDelete s.now) (f := nodeItems)
    (P := fun (st : PacketStore × List NodePtr) items => st.1.Counts (packetRefs items))
    (s := (s.store, s.newNodes))
    (fun _ _ _ hs => hs.reset s.now) h
  rw [← zero_add (s.allLinks.gather linkItems + _)] at hcounts
  exact hcounts

theorem links (h : s.Counted) : s.store.Counts (packetRefs (s.allLinks.gather linkItems +
    (s.allNodes.gather nodeItems + summaryItems s.protosummaryStats))) := by
  rwa [Counted, items, add_left_comm] at h

theorem linksUpdate (h : s.Counted) (pref : Preferences) : (s.linksUpdate pref).Counted := by
  have hswept := SortedTree.sweep_keeps (updateLink s.now pref) (linkDelete s.now) (f := linkItems)
    (P := fun (st : PacketStore × Conversations) items => st.1.Counts (packetRefs items))
    (s := (s.store, s.conversations))
    (fun _ _ _ _ hs => hs.refresh s.now _ _ _ _) (fun _ _ _ hs => hs.reset s.now) h.links
  rw [add_left_comm] at hswept
  exact hswept

theorem closeLinks (h : s.Counted) : s.closeLinks.Counted := by
  have hcounts := SortedTree.destroyAll_keeps (linkDelete s.now) (f := linkItems)
    (P := fun (st : PacketStore × Conversations) items => st.1.Counts (packetRefs items))
    (s := (s.store, s.conversations))
    (fun _ _ _ hs => hs.reset s.now) h.links
  rw [← zero_add (summaryItems s.protosummaryStats)] at hcounts
  exact hcounts

theorem summary (h : s.Counted) {stats : TrafficStats}
    (hsummary : s.protosummaryStats = some stats) :
    s.store.Counts (packetRefs (↑stats.pktList +
      (s.allNodes.gather nodeItems + s.allLinks.gather linkItems))) := by
  rwa [Counted, items, hsummary, ← add_assoc, add_comm] at h

theorem summaryUpdate (h : s.Counted) (pref : Preferences) :
    (s.protocolSummaryUpdateAll pref).Counted := by
  unfold protocolSummaryUpdateAll
  split
  next stats hsummary =>
    have hcounts := (h.summary hsummary).update s.now pref.averagingTime pref.protoTimeoutTime
    rwa [add_comm, add_assoc] at hcounts
  next => exact h

theorem summaryClose (h : s.Counted) : s.protocolSummaryClose.Counted := by
  unfold protocolSummaryClose
  split
  next stats hsummary =>
    have hcounts := (h.summary hsummary).reset s.now
    rwa [← add_zero (s.allLinks.gather linkItems)] at hcounts
  next => exact h

theorem summaryOpen (h : s.Counted) : s.protocolSummaryOpen.Counted := by
  have hclosed := h.summaryClose
  rw [Counted, items, protocolSummaryClose_protosummaryStats] at hclosed
  exact hclosed

end Counted

/-! ### What holds between the events -/

/-- The references are counted, and a stopped capture is empty. -/
structure Consistent (s : Capture) : Prop where
  counts : s.Counted
  closed : s.captureStatus = .stop →
    s.allNodes = SortedTree.empty ∧ s.allLinks = SortedTree.empty ∧ s.protosummaryStats = none

theorem registerPacket_captureStatus (s : Capture) (packet : PacketInfo) (src dst : NodeId)
    (mem : Malloc) : (s.registerPacket packet src dst mem).captureStatus = s.captureStatus := by
  rw [registerPacket, protocolSummaryAddPacket_eq]
  rfl

theorem stopCapture_captureStatus (s : Capture) : s.stopCapture.captureStatus = .stop := by
  unfold stopCapture
  split
  next h => exact h
  next =>
    have hclose : ∀ s : Capture, s.protocolSummaryClose.captureStatus = s.captureStatus := by
      intro s
      unfold protocolSummaryClose
      split <;> rfl
    exact hclose _

namespace Consistent

variable {s : Capture}

theorem initial (now : Timeval) : (Capture.initial now).Consistent where
  counts := PacketStore.Counts.empty
  closed _ := ⟨rfl, rfl, rfl⟩

theorem of_open {s' : Capture} (hcounts : s'.Counted) (hopen : s'.captureStatus ≠ .stop) :
    s'.Consistent := ⟨hcounts, fun hstop => absurd hstop hopen⟩

theorem packetAcquired (h : s.Consistent) (hopen : s.captureStatus ≠ .stop) {mem : Malloc}
    (hfresh : s.Fresh mem) {env : DecodeEnv} {rawPacket : Nat → UInt8} {rawSize pktSize : Nat}
    {s' : Capture} (hs' : s.packetAcquired env rawPacket rawSize pktSize mem = some s') :
    s'.Consistent := by
  obtain ⟨d, _, rfl⟩ := packetAcquired_eq_some hs'
  have hdecoded : ({ s with conversations := d.conversations, pphLkentry := d.pphLkentry } :
      Capture).Counted := h.counts
  refine of_open (hdecoded.registerPacket hfresh.1 _ _ _) ?_
  rw [registerPacket_captureStatus]
  exact hopen

theorem startCapture (h : s.Consistent) : s.startCapture.Consistent := by
  unfold Capture.startCapture
  split
  next => exact h
  next =>
    split
    next hstop =>
      obtain ⟨hnodes, hlinks, hsummary⟩ := h.closed hstop
      have hcounts := h.counts.summaryOpen
      refine of_open ?_ fun hplay => Status.noConfusion hplay
      simp only [protocolSummaryOpen, protocolSummaryClose, hsummary] at hcounts ⊢
      rwa [Counted, items, hnodes, hlinks] at hcounts
    next => exact of_open h.counts fun hplay => Status.noConfusion hplay

theorem stopCapture (h : s.Consistent) : s.stopCapture.Consistent := by
  unfold Capture.stopCapture
  split
  next => exact h
  next =>
    have hstopped : ({ s with captureStatus := .stop } : Capture).Counted := h.counts
    exact
      { counts := hstopped.summaryClose.closeNodes.closeLinks
        closed := fun _ => ⟨rfl, rfl, protocolSummaryClose_protosummaryStats _⟩ }

theorem nodesUpdate (h : s.Consistent) (pref : Preferences) : (s.nodesUpdate pref).Consistent where
  counts := h.counts.nodesUpdate pref
  closed hstop := by
    obtain ⟨hnodes, hlinks, hsummary⟩ := h.closed hstop
    refine ⟨?_, hlinks, hsummary⟩
    simp only [Capture.nodesUpdate, hnodes]
    rfl

theorem linksUpdate (h : s.Consistent) (pref : Preferences) : (s.linksUpdate pref).Consistent where
  counts := h.counts.linksUpdate pref
  closed hstop := by
    obtain ⟨hnodes, hlinks, hsummary⟩ := h.closed hstop
    refine ⟨hnodes, ?_, hsummary⟩
    simp only [Capture.linksUpdate, hlinks]
    rfl

theorem summaryUpdate (h : s.Consistent) (pref : Preferences) :
    (s.protocolSummaryUpdateAll pref).Consistent := by
  have hcounts := h.counts.summaryUpdate pref
  unfold protocolSummaryUpdateAll at hcounts ⊢
  split at hcounts
  next stats hsummary =>
    refine ⟨hcounts, fun hstop => ?_⟩
    have hnone := (h.closed hstop).2.2
    rw [hsummary] at hnone
    exact absurd hnone (Option.some_ne_none stats)
  next => exact h

theorem step (h : s.Consistent) {e : Event} {s' : Capture} (hs' : s.step e = some s') :
    s'.Consistent := by
  cases e with
  | clock now =>
      obtain rfl := Option.some.inj hs'
      exact ⟨h.counts, h.closed⟩
  | startCapture =>
      obtain rfl := Option.some.inj hs'
      exact h.startCapture
  | pauseCapture =>
      obtain rfl := Option.some.inj hs'
      unfold Capture.pauseCapture
      split
      · exact h
      · exact of_open h.counts fun hpause => Status.noConfusion hpause
  | endOfFile =>
      obtain rfl := Option.some.inj hs'
      unfold Capture.endOfFile
      split
      · exact h
      · exact of_open h.counts fun heof => Status.noConfusion heof
  | stopCapture =>
      obtain rfl := Option.some.inj hs'
      exact h.stopCapture
  | packetAcquired env rawPacket rawSize pktSize mem =>
      simp only [Capture.step] at hs'
      split at hs'
      next hguard => exact h.packetAcquired hguard.1 hguard.2 hs'
      next => exact absurd hs' (Option.some_ne_none s').symm
  | nodesUpdate pref =>
      obtain rfl := Option.some.inj hs'
      exact h.nodesUpdate pref
  | linksUpdate pref =>
      obtain rfl := Option.some.inj hs'
      exact h.linksUpdate pref
  | summaryUpdate pref =>
      obtain rfl := Option.some.inj hs'
      exact h.summaryUpdate pref

end Consistent

theorem Run.consistent {past : List (Capture × Event)} {s : Capture} (h : Run past s) :
    s.Consistent := by
  induction h with
  | initial now => exact Consistent.initial now
  | step _ e hstep ih => exact ih.step hstep

/-- **Reference counts.** After every run the count of a live packet is the number of items that
point to it, in all lists together. However many of these items are deleted then, in any order, the
packets that stay are those that some item is left for, and no freed packet is touched. Both counters
are right, and zero after a stop. -/
theorem run_reference_counts {past : List (Capture × Event)} {s : Capture} (h : Run past s) :
    (∀ r, s.store.refCount r =
      if s.itemLists.flatten.countP (·.info.ref = r) = 0 then none
      else some (s.itemLists.flatten.countP (·.info.ref = r))) ∧
    (∀ gone kept : List PacketListItem, (gone ++ kept).Perm s.itemLists.flatten →
      (gone.foldl PacketStore.packetListItemDelete s.store).accessedFreed = false ∧
      ∀ r, (gone.foldl PacketStore.packetListItemDelete s.store).live r ↔
        ∃ it ∈ kept, it.info.ref = r) ∧
    s.store.packetListItemN = ((s.itemLists.map List.length).sum : Nat) ∧
    (∃ livePackets : Finset PacketRef, (∀ r, r ∈ livePackets ↔ s.store.live r) ∧
      s.store.totalMemPackets = livePackets.card) ∧
    s.stopCapture.store.packetListItemN = 0 ∧ s.stopCapture.store.totalMemPackets = 0 := by
  have hcounts : s.store.Counts (packetRefs ↑s.itemLists.flatten) := by
    rw [coe_flatten_itemLists]
    exact h.consistent.counts
  have hcount : ∀ r, (packetRefs ↑s.itemLists.flatten).count r =
      s.itemLists.flatten.countP (·.info.ref = r) := by
    intro r
    rw [packetRefs, Multiset.map_coe, Multiset.coe_count, List.count, List.countP_map]
    rfl
  refine ⟨fun r => ?_, fun gone kept hperm => ?_, ?_, ?_, ?_⟩
  · rw [hcounts.refCount, hcount]
  · rw [← Multiset.coe_eq_coe.mpr hperm, ← Multiset.coe_add] at hcounts
    have hkept := hcounts.deleteAll
    refine ⟨hkept.accessedFreed, fun r => ?_⟩
    rw [hkept.live_iff, packetRefs, Multiset.mem_map]
    rfl
  · rw [hcounts.packetListItemN, packetRefs, Multiset.card_map, Multiset.coe_card,
      List.length_flatten]
  · refine ⟨(packetRefs ↑s.itemLists.flatten).toFinset, fun r => ?_, hcounts.totalMemPackets⟩
    rw [Multiset.mem_toFinset, hcounts.live_iff]
  · have hstopped := h.consistent.stopCapture
    obtain ⟨hnodes, hlinks, hsummary⟩ := hstopped.closed (stopCapture_captureStatus s)
    have hempty := hstopped.counts
    rw [Counted, items, hnodes, hlinks, hsummary] at hempty
    exact ⟨hempty.packetListItemN, hempty.totalMemPackets⟩

/-- A run of one empty frame, which counts as traffic of the unidentified node with itself. -/
theorem run_reference_counts_empty_frame : ∃ past s, Run past s ∧ s.store.refCount 7 = some 4 ∧
    s.stopCapture.store.packetListItemN = 0 := by
  have hrun := ((Run.initial ⟨10, 0⟩).step .startCapture rfl).step
    (.packetAcquired (DecodeEnv.bare linktypeEthernet .ip) (fun _ => 0) 0 60 ⟨7, 1, 2⟩) rfl
  exact ⟨_, _, hrun, rfl, (run_reference_counts hrun).2.2.2.2.1⟩

end Capture

end EtherApe
