import EtherApe.Capture.References
import EtherApe.DecodeProto.Stack

/-!
# Traffic is conserved

Every packet enters the list of its source, of its destination, of its link and of the summary, and
all of these drop it in the same full update, because they are in order of arrival and look at
nothing but its timestamp. So after a full update they hold the same packets, and their counters
agree. Deleting an expired entry changes nothing, since it has no packets left.
-/

namespace EtherApe

def packetsOf (items : Multiset PacketListItem) : Multiset PacketInfo := items.map (·.info)

def bytesOf (items : Multiset PacketListItem) : Int := (items.map fun it => (it.info.size : Int)).sum

/-- What a purge keeps. -/
def younger (now : Timeval) (avgTime : ℚ) (items : Multiset PacketListItem) :
    Multiset PacketListItem :=
  items.filter fun it => substractTimesMs now it.info.timestamp < avgTime

def outgoing (items : Multiset PacketListItem) : Multiset PacketListItem :=
  items.filter fun it => it.direction ≠ .inbound

def incoming (items : Multiset PacketListItem) : Multiset PacketListItem :=
  items.filter fun it => it.direction ≠ .outbound

section Items

variable (items items' : Multiset PacketListItem)

theorem bytesOf_add : bytesOf (items + items') = bytesOf items + bytesOf items' := by
  simp [bytesOf]

theorem bytesOf_eq_of_packets {items items' : Multiset PacketListItem}
    (h : packetsOf items = packetsOf items') : bytesOf items = bytesOf items' := by
  have hbytes : ∀ m : Multiset PacketListItem,
      bytesOf m = ((packetsOf m).map fun p => (p.size : Int)).sum := by
    intro m
    rw [packetsOf, Multiset.map_map]
    rfl
  rw [hbytes, hbytes, h]

theorem packetsOf_younger (now : Timeval) (avgTime : ℚ) :
    packetsOf (younger now avgTime items) =
      (packetsOf items).filter fun p => substractTimesMs now p.timestamp < avgTime := by
  rw [packetsOf, packetsOf, Multiset.filter_map]
  rfl

theorem younger_outgoing (now : Timeval) (avgTime : ℚ) :
    outgoing (younger now avgTime items) = younger now avgTime (outgoing items) :=
  Multiset.filter_comm _ _ _

theorem younger_incoming (now : Timeval) (avgTime : ℚ) :
    incoming (younger now avgTime items) = younger now avgTime (incoming items) :=
  Multiset.filter_comm _ _ _

theorem coe_youngerThan (now : Timeval) (avgTime : ℚ) (l : List PacketListItem) :
    (TrafficStats.youngerThan now avgTime l : Multiset PacketListItem) = younger now avgTime ↑l :=
  (Multiset.filter_coe _ _).symm

theorem sum_filter {α : Type*} (p : PacketListItem → Prop) [DecidablePred p] (l : List α)
    (f g : α → Multiset PacketListItem) (h : ∀ a ∈ l, g a = (f a).filter p) :
    (l.map g).sum = (l.map f).sum.filter p := by
  induction l with
  | nil => rfl
  | cons a l ih =>
      obtain ⟨ha, hl⟩ := List.forall_mem_cons.mp h
      rw [List.map_cons, List.sum_cons, List.map_cons, List.sum_cons, ih hl, ha, Multiset.filter_add]

/-- Counters that hold the bytes of their parts add up to the bytes of the whole. -/
theorem sum_bytesOf {α : Type*} (l : List α) (f : α → Int) (g : α → Multiset PacketListItem)
    (h : ∀ a ∈ l, f a = bytesOf (g a)) : (l.map f).sum = bytesOf (l.map g).sum := by
  induction l with
  | nil => rfl
  | cons a l ih =>
      obtain ⟨ha, hl⟩ := List.forall_mem_cons.mp h
      rw [List.map_cons, List.sum_cons, List.map_cons, List.sum_cons, ih hl, ha, bytesOf_add]

theorem bytesOf_coe (l : List PacketListItem) : bytesOf ↑l = totalSize l := rfl

end Items

theorem Timeval.NotAfter.refl (t : Timeval) : t.NotAfter t := by
  simp [NotAfter, substractTimesMs]

theorem TrafficStats.Ordered.mono {last last' : Timeval} {ts : TrafficStats}
    (h : TrafficStats.Ordered last ts) (hle : last.NotAfter last') :
    TrafficStats.Ordered last' ts where
  accounts := h.accounts
  settled := h.settled
  inOrder := h.inOrder
  notAfter it hit := (h.notAfter it hit).trans hle

namespace Capture

/-- The node stored under `id` has the packet in its list. -/
def HasPacket (s : Capture) (id : NodeId) (packet : PacketInfo) : Prop :=
  ∃ node, s.allNodes.lookup id = some node ∧ ∃ it ∈ node.nodeStats.pktList, it.info = packet

/-- All statistics are in order up to the current time, the lists hold the packets of the summary,
and a packet of a link is in the lists of both endpoints. -/
structure Balanced (s : Capture) : Prop where
  nodes : ∀ e ∈ s.allNodes.entries, TrafficStats.Ordered s.now e.2.nodeStats
  links : ∀ e ∈ s.allLinks.entries, TrafficStats.Ordered s.now e.2.linkStats
  summary : ∃ stats, s.protosummaryStats = some stats ∧ TrafficStats.Ordered s.now stats
  sent : packetsOf (outgoing (s.allNodes.gather nodeItems)) =
    packetsOf (summaryItems s.protosummaryStats)
  received : packetsOf (incoming (s.allNodes.gather nodeItems)) =
    packetsOf (summaryItems s.protosummaryStats)
  carried : packetsOf (s.allLinks.gather linkItems) = packetsOf (summaryItems s.protosummaryStats)
  endpoints : ∀ e ∈ s.allLinks.entries, ∀ it ∈ e.2.linkStats.pktList,
    s.HasPacket e.1.src it.info ∧ s.HasPacket e.1.dst it.info

/-! ### A packet -/

section Packet

variable {s : Capture} {packet : PacketInfo} (nodeId : NodeId) (direction : PacketDirection)
  (addr : NodeRef)

theorem HasPacket.congr {id id' : NodeId} (h : s.HasPacket id packet)
    (hid : nodeIdCompare id id' = 0) : s.HasPacket id' packet := by
  obtain ⟨node, hfound, hit⟩ := h
  exact ⟨node, (SortedTree.lookup_congr hid).symm.trans hfound, hit⟩

theorem HasPacket.addNodePacket {id : NodeId} {other : PacketInfo} (h : s.HasPacket id other) :
    (s.addNodePacket packet nodeId direction addr).HasPacket id other := by
  obtain ⟨node, hfound, it, hit, hinfo⟩ := h
  by_cases hid : nodeIdCompare nodeId id = 0
  · have hsame : s.allNodes.lookup nodeId = some node :=
      (SortedTree.lookup_congr hid).trans hfound
    refine ⟨_, (SortedTree.lookup_congr (ThreeWay.eq_symm hid)).trans SortedTree.lookup_upsert, it,
      ?_, hinfo⟩
    rw [hsame]
    exact List.mem_append_left _ hit
  · exact ⟨node, (SortedTree.lookup_upsert_of_ne hid).trans hfound, it, hit, hinfo⟩

theorem addNodePacket_hasPacket :
    (s.addNodePacket packet nodeId direction addr).HasPacket nodeId packet :=
  ⟨_, SortedTree.lookup_upsert, ⟨packet, direction⟩,
    List.mem_append_right _ (List.mem_singleton_self _), rfl⟩

theorem addNodePacket_ordered (h : ∀ e ∈ s.allNodes.entries, TrafficStats.Ordered s.now e.2.nodeStats)
    (hcontiguous : packet.protDesc.Contiguous) (hnow : packet.timestamp = s.now) :
    ∀ e ∈ (s.addNodePacket packet nodeId direction addr).allNodes.entries,
      TrafficStats.Ordered s.now e.2.nodeStats := by
  have hcreated : TrafficStats.Ordered s.now (Node.create s.now addr nodeId).nodeStats :=
    TrafficStats.Ordered.init s.now s.now
  have hbase := SortedTree.forall_lookup_getD
    (P := fun node : Node => TrafficStats.Ordered s.now node.nodeStats) h hcreated nodeId
  have hadded := hbase.addPacket s.now s.store hcontiguous (hnow ▸ Timeval.NotAfter.refl _) direction
  rw [hnow] at hadded
  exact SortedTree.forall_upsert (P := fun node : Node => TrafficStats.Ordered s.now node.nodeStats) h
    fun _ => hadded

theorem linksCatalogAddPacket_ordered (linkId : LinkId)
    (h : ∀ e ∈ s.allLinks.entries, TrafficStats.Ordered s.now e.2.linkStats)
    (hcontiguous : packet.protDesc.Contiguous) (hnow : packet.timestamp = s.now) :
    ∀ e ∈ (s.linksCatalogAddPacket linkId packet direction).allLinks.entries,
      TrafficStats.Ordered s.now e.2.linkStats := by
  have hcreated : TrafficStats.Ordered s.now (Link.create s.now linkId).linkStats :=
    TrafficStats.Ordered.init s.now s.now
  have hbase := SortedTree.forall_lookup_getD
    (P := fun link : Link => TrafficStats.Ordered s.now link.linkStats) h hcreated linkId
  have hadded := hbase.addPacket s.now s.store hcontiguous (hnow ▸ Timeval.NotAfter.refl _) direction
  rw [hnow] at hadded
  exact SortedTree.forall_upsert (P := fun link : Link => TrafficStats.Ordered s.now link.linkStats) h
    fun _ => hadded

theorem mem_linksCatalogAddPacket {linkId : LinkId} {e : LinkId × Link} {it : PacketListItem}
    (he : e ∈ (s.linksCatalogAddPacket linkId packet direction).allLinks.entries)
    (hit : it ∈ e.2.linkStats.pktList) :
    (∃ old, (e.1, old) ∈ s.allLinks.entries ∧ it ∈ old.linkStats.pktList) ∨
      (linkIdCompare linkId e.1 = 0 ∧ it.info = packet) := by
  rcases SortedTree.mem_upsert.mp he with ⟨hkey, ⟨old, hmem, hvalue⟩ | ⟨hnone, rfl⟩⟩ | ⟨_, hmem⟩
  · have hfound : s.allLinks.lookup linkId = some old :=
      SortedTree.lookup_eq_some_iff.mpr ⟨e.1, hmem, hkey⟩
    rw [hvalue, hfound] at hit
    rcases List.mem_append.mp hit with hit | hit
    · exact Or.inl ⟨old, hmem, hit⟩
    · rw [List.mem_singleton.mp hit]
      exact Or.inr ⟨hkey, rfl⟩
  · rw [hnone] at hit
    rcases List.mem_append.mp hit with hit | hit
    · exact absurd hit List.not_mem_nil
    · rw [List.mem_singleton.mp hit]
      exact Or.inr ⟨hkey, rfl⟩
  · exact Or.inl ⟨e.2, hmem, hit⟩

end Packet

theorem Balanced.registerPacket {s : Capture} (h : s.Balanced) {packet : PacketInfo}
    (hcontiguous : packet.protDesc.Contiguous) (hnow : packet.timestamp = s.now) (src dst : NodeId)
    (mem : Malloc) : (s.registerPacket packet src dst mem).Balanced := by
  let s₁ := (s.newPacket packet.ref).addNodePacket packet src .outbound mem.srcNode
  let s₂ := s₁.addNodePacket packet dst .inbound mem.dstNode
  let s₃ := s₂.linksCatalogAddPacket (linkOf src dst).1 packet (linkOf src dst).2
  have hnodes : s₂.allNodes.gather nodeItems =
      ⟨packet, .inbound⟩ ::ₘ ⟨packet, .outbound⟩ ::ₘ s.allNodes.gather nodeItems := by
    rw [addNodePacket_nodeItems, addNodePacket_nodeItems]
    rfl
  have hlinks : s₃.allLinks.gather linkItems =
      ⟨packet, (linkOf src dst).2⟩ ::ₘ s.allLinks.gather linkItems := by
    rw [linksCatalogAddPacket_linkItems]
    rfl
  have hsummary : summaryItems (s₃.protocolSummaryAddPacket packet).protosummaryStats =
      ⟨packet, .eitherbound⟩ ::ₘ summaryItems s.protosummaryStats :=
    protocolSummaryAddPacket_items s₃ packet
  have hsrc : s₂.HasPacket src packet :=
    (addNodePacket_hasPacket src .outbound mem.srcNode).addNodePacket dst .inbound mem.dstNode
  have hdst : s₂.HasPacket dst packet := addNodePacket_hasPacket dst .inbound mem.dstNode
  change (s₃.protocolSummaryAddPacket packet).Balanced
  refine
    { nodes := ?_, links := ?_, summary := ?_, sent := ?_, received := ?_, carried := ?_
      endpoints := ?_ }
  · rw [protocolSummaryAddPacket_eq]
    exact addNodePacket_ordered dst .inbound mem.dstNode
      (addNodePacket_ordered src .outbound mem.srcNode h.nodes hcontiguous hnow) hcontiguous hnow
  · rw [protocolSummaryAddPacket_eq]
    exact linksCatalogAddPacket_ordered (linkOf src dst).2 (linkOf src dst).1 h.links hcontiguous hnow
  · obtain ⟨stats, hstats, hordered⟩ := h.summary
    have hstats₃ : s₃.protosummaryStats = some stats := hstats
    rw [protocolSummaryAddPacket_eq, hstats₃, Option.getD_some]
    have hadded := hordered.addPacket s₃.now s₃.store hcontiguous
      (hnow ▸ Timeval.NotAfter.refl _) .eitherbound
    rw [hnow] at hadded
    exact ⟨_, rfl, hadded⟩
  · rw [hsummary, protocolSummaryAddPacket_eq]
    change packetsOf (outgoing (s₂.allNodes.gather nodeItems)) = _
    have hsent := h.sent
    simp only [packetsOf, outgoing] at hsent ⊢
    simp [hnodes, hsent]
  · rw [hsummary, protocolSummaryAddPacket_eq]
    change packetsOf (incoming (s₂.allNodes.gather nodeItems)) = _
    have hreceived := h.received
    simp only [packetsOf, incoming] at hreceived ⊢
    simp [hnodes, hreceived]
  · rw [hsummary, protocolSummaryAddPacket_eq]
    change packetsOf (s₃.allLinks.gather linkItems) = _
    have hcarried := h.carried
    simp only [packetsOf] at hcarried ⊢
    rw [hlinks, Multiset.map_cons, Multiset.map_cons, hcarried]
  · rw [protocolSummaryAddPacket_eq]
    intro e he it hit
    change s₂.HasPacket e.1.src it.info ∧ s₂.HasPacket e.1.dst it.info
    rcases mem_linksCatalogAddPacket (linkOf src dst).2 he hit with ⟨old, hmem, hit⟩ | ⟨hkey, hinfo⟩
    · obtain ⟨hsrcOld, hdstOld⟩ := h.endpoints (e.1, old) hmem it hit
      exact ⟨(hsrcOld.addNodePacket src .outbound mem.srcNode).addNodePacket dst .inbound mem.dstNode,
        (hdstOld.addNodePacket src .outbound mem.srcNode).addNodePacket dst .inbound mem.dstNode⟩
    · rw [hinfo]
      rw [linkIdCompare_eq_zero_iff] at hkey
      unfold linkOf at hkey
      split at hkey
      · exact ⟨hsrc.congr hkey.1, hdst.congr hkey.2⟩
      · exact ⟨hdst.congr hkey.1, hsrc.congr hkey.2⟩

/-! ### A full update -/

/-- All three updates at one reading of the clock. -/
def fullUpdate (s : Capture) (now : Timeval) (pref : Preferences) : Capture :=
  ((({ s with now := now } : Capture).nodesUpdate pref).linksUpdate pref).protocolSummaryUpdateAll pref

section Update

variable {s : Capture} (pref : Preferences)

theorem nodesUpdate_nodeItems
    (h : ∀ e ∈ s.allNodes.entries, TrafficStats.Ordered s.now e.2.nodeStats) :
    (s.nodesUpdate pref).allNodes.gather nodeItems =
      younger s.now pref.averagingTime (s.allNodes.gather nodeItems) := by
  have hswept := SortedTree.sweep_gather (nodeDelete s.now) (fun _ => updatedNode s.now pref)
    (fun _ => nodeExpired s.now pref) (f := nodeItems)
    (nodeUpdate_value s.now pref) (nodeUpdate_obsolete s.now pref)
    (fun k node hexpired => congrArg _ (pktList_of_nodeExpired s.now pref hexpired))
    (s.store, s.newNodes) s.allNodes
  refine hswept.trans ?_
  rw [SortedTree.gather_of_perm (List.Perm.refl _)]
  refine sum_filter _ _ _ _ fun e he => ?_
  refine Eq.trans ?_ (coe_youngerThan s.now pref.averagingTime _)
  exact congrArg _ ((h e he).refresh_pktList_eq s.now _ _ _ _ _)

theorem linksUpdate_linkItems
    (h : ∀ e ∈ s.allLinks.entries, TrafficStats.Ordered s.now e.2.linkStats) :
    (s.linksUpdate pref).allLinks.gather linkItems =
      younger s.now pref.averagingTime (s.allLinks.gather linkItems) := by
  have hswept := SortedTree.sweep_gather (linkDelete s.now) (fun _ => updatedLink s.now pref)
    (fun _ => linkExpired s.now pref) (f := linkItems)
    (updateLink_value s.now pref) (updateLink_obsolete s.now pref)
    (fun k link hexpired => congrArg _ (pktList_of_linkExpired s.now pref hexpired))
    (s.store, s.conversations) s.allLinks
  refine hswept.trans ?_
  rw [SortedTree.gather_of_perm (List.Perm.refl _)]
  refine sum_filter _ _ _ _ fun e he => ?_
  refine Eq.trans ?_ (coe_youngerThan s.now pref.averagingTime _)
  exact congrArg _ ((h e he).refresh_pktList_eq s.now _ _ _ _ _)

theorem HasPacket.nodesUpdate {id : NodeId} {packet : PacketInfo} (h : s.HasPacket id packet)
    (hordered : ∀ e ∈ s.allNodes.entries, TrafficStats.Ordered s.now e.2.nodeStats)
    (hyoung : substractTimesMs s.now packet.timestamp < pref.averagingTime) :
    (s.nodesUpdate pref).HasPacket id packet := by
  obtain ⟨node, hfound, it, hit, rfl⟩ := h
  obtain ⟨k, hmem, hk⟩ := SortedTree.exists_mem_of_lookup hfound
  have hkept : it ∈ (updatedNode s.now pref node).nodeStats.pktList := by
    have hlist : (updatedNode s.now pref node).nodeStats.pktList =
        TrafficStats.youngerThan s.now pref.averagingTime node.nodeStats.pktList :=
      (hordered _ hmem).refresh_pktList_eq s.now _ _ _ _ _
    rw [hlist]
    exact List.mem_filter.mpr ⟨hit, by simpa using hyoung⟩
  have hactive : nodeExpired s.now pref node = false := by
    by_contra hexpired
    rw [pktList_of_nodeExpired s.now pref (by simpa using hexpired)] at hkept
    exact List.not_mem_nil hkept
  exact ⟨updatedNode s.now pref node, SortedTree.lookup_eq_some_iff.mpr
    ⟨k, (mem_nodesCatalogUpdateAll s.now pref).mpr ⟨node, hmem, rfl, hactive⟩, hk⟩, it, hkept, rfl⟩

theorem Balanced.clock (h : s.Balanced) {now : Timeval} (hnow : s.now.NotAfter now) :
    ({ s with now := now } : Capture).Balanced where
  nodes e he := (h.nodes e he).mono hnow
  links e he := (h.links e he).mono hnow
  summary := by
    obtain ⟨stats, hstats, hordered⟩ := h.summary
    exact ⟨stats, hstats, hordered.mono hnow⟩
  sent := h.sent
  received := h.received
  carried := h.carried
  endpoints := h.endpoints

theorem protocolSummaryUpdateAll_eq {stats : TrafficStats}
    (hstats : s.protosummaryStats = some stats) :
    s.protocolSummaryUpdateAll pref =
      { s with
        store := (stats.update s.now s.store pref.averagingTime pref.protoTimeoutTime).2.1
        protosummaryStats :=
          some (stats.update s.now s.store pref.averagingTime pref.protoTimeoutTime).2.2 } := by
  simp [protocolSummaryUpdateAll, hstats]

theorem Balanced.fullUpdate (h : s.Balanced) {now : Timeval} (hnow : s.now.NotAfter now) :
    (s.fullUpdate now pref).Balanced := by
  have hclock := h.clock hnow
  obtain ⟨stats, hstats, hordered⟩ := hclock.summary
  let s₁ := ({ s with now := now } : Capture).nodesUpdate pref
  let s₂ := s₁.linksUpdate pref
  have hnodes : s₁.allNodes.gather nodeItems =
      younger now pref.averagingTime (s.allNodes.gather nodeItems) :=
    nodesUpdate_nodeItems pref hclock.nodes
  have hlinks : s₂.allLinks.gather linkItems =
      younger now pref.averagingTime (s.allLinks.gather linkItems) :=
    linksUpdate_linkItems (s := s₁) pref hclock.links
  have hstats₂ : s₂.protosummaryStats = some stats := hstats
  have hupdated : (stats.update now s₂.store pref.averagingTime pref.protoTimeoutTime).2.2.pktList =
      TrafficStats.youngerThan now pref.averagingTime stats.pktList :=
    hordered.update_pktList_eq now s₂.store _ _
  have hsummary : summaryItems (s₂.protocolSummaryUpdateAll pref).protosummaryStats =
      younger now pref.averagingTime (summaryItems s.protosummaryStats) := by
    rw [protocolSummaryUpdateAll_eq pref hstats₂]
    change (↑(stats.update now s₂.store pref.averagingTime pref.protoTimeoutTime).2.2.pktList :
      Multiset PacketListItem) = _
    rw [hupdated, coe_youngerThan, show s.protosummaryStats = some stats from hstats]
    rfl
  change (s₂.protocolSummaryUpdateAll pref).Balanced
  refine
    { nodes := ?_, links := ?_, summary := ?_, sent := ?_, received := ?_, carried := ?_
      endpoints := ?_ }
  · rw [protocolSummaryUpdateAll_eq pref hstats₂]
    intro e he
    obtain ⟨node, hmem, hvalue, _⟩ := (mem_nodesCatalogUpdateAll now pref).mp he
    rw [hvalue]
    exact (hclock.nodes _ hmem).refresh now _ _ _ _ _
  · rw [protocolSummaryUpdateAll_eq pref hstats₂]
    intro e he
    obtain ⟨link, hmem, hvalue, _⟩ := (mem_linksCatalogUpdateAll now pref).mp he
    rw [hvalue]
    exact (hclock.links _ hmem).refresh now _ _ _ _ _
  · rw [protocolSummaryUpdateAll_eq pref hstats₂]
    exact ⟨_, rfl, hordered.update now _ _ _⟩
  · rw [hsummary, protocolSummaryUpdateAll_eq pref hstats₂]
    change packetsOf (outgoing (s₁.allNodes.gather nodeItems)) = _
    rw [hnodes, younger_outgoing, packetsOf_younger, h.sent, packetsOf_younger]
  · rw [hsummary, protocolSummaryUpdateAll_eq pref hstats₂]
    change packetsOf (incoming (s₁.allNodes.gather nodeItems)) = _
    rw [hnodes, younger_incoming, packetsOf_younger, h.received, packetsOf_younger]
  · rw [hsummary, protocolSummaryUpdateAll_eq pref hstats₂]
    change packetsOf (s₂.allLinks.gather linkItems) = _
    rw [hlinks, packetsOf_younger, h.carried, packetsOf_younger]
  · rw [protocolSummaryUpdateAll_eq pref hstats₂]
    intro e he it hit
    change s₁.HasPacket e.1.src it.info ∧ s₁.HasPacket e.1.dst it.info
    obtain ⟨link, hmem, hvalue, _⟩ := (mem_linksCatalogUpdateAll now pref).mp he
    have hlist : e.2.linkStats.pktList =
        TrafficStats.youngerThan now pref.averagingTime link.linkStats.pktList := by
      rw [hvalue]
      exact (hclock.links _ hmem).refresh_pktList_eq now _ _ _ _ _
    rw [hlist] at hit
    obtain ⟨hitem, hyoung⟩ := List.mem_filter.mp hit
    have hyoung : substractTimesMs now it.info.timestamp < pref.averagingTime := by
      simpa using hyoung
    obtain ⟨hsrc, hdst⟩ := hclock.endpoints _ hmem it hitem
    exact ⟨hsrc.nodesUpdate pref hclock.nodes hyoung, hdst.nodesUpdate pref hclock.nodes hyoung⟩

end Update

/-! ### Runs -/

/-- Runs of packets and full updates, with a clock that does not go back. The preferences may change
from one update to the next. -/
inductive UpdateRun : Capture → Prop
  | start (now : Timeval) : UpdateRun (initial now).startCapture
  | packetAcquired {s s' : Capture} (h : UpdateRun s) (now : Timeval) (hnow : s.now.NotAfter now)
      (env : DecodeEnv) (rawPacket : Nat → UInt8) (rawSize pktSize : Nat) (mem : Malloc)
      (hs' : ({ s with now := now } : Capture).packetAcquired env rawPacket rawSize pktSize mem =
        some s') : UpdateRun s'
  | fullUpdate {s : Capture} (h : UpdateRun s) (now : Timeval) (hnow : s.now.NotAfter now)
      (pref : Preferences) : UpdateRun (s.fullUpdate now pref)

theorem Balanced.packetAcquired {s s' : Capture} (h : s.Balanced) {env : DecodeEnv}
    {rawPacket : Nat → UInt8} {rawSize pktSize : Nat} {mem : Malloc}
    (hs' : s.packetAcquired env rawPacket rawSize pktSize mem = some s') : s'.Balanced := by
  obtain ⟨d, hd, rfl⟩ := packetAcquired_eq_some hs'
  obtain ⟨⟨calls, hfinished⟩, _⟩ := decodePacket_eq_some_iff.mp hd
  have hcontiguous := getPacketProt_contiguous (stackShape_start _ _ _ _) hfinished
  have hdecoded : ({ s with conversations := d.conversations, pphLkentry := d.pphLkentry } :
      Capture).Balanced :=
    ⟨h.nodes, h.links, h.summary, h.sent, h.received, h.carried, h.endpoints⟩
  exact hdecoded.registerPacket hcontiguous rfl _ _ _

theorem UpdateRun.balanced {s : Capture} (h : UpdateRun s) : s.Balanced := by
  induction h with
  | start now =>
      exact
        { nodes := fun _ he => absurd he List.not_mem_nil
          links := fun _ he => absurd he List.not_mem_nil
          summary := ⟨_, rfl, TrafficStats.Ordered.init now now⟩
          sent := rfl
          received := rfl
          carried := rfl
          endpoints := fun _ he => absurd he List.not_mem_nil }
  | packetAcquired _ now hnow env rawPacket rawSize pktSize mem hs' ih =>
      exact (ih.clock hnow).packetAcquired hs'
  | fullUpdate _ now hnow pref ih => exact ih.fullUpdate pref hnow

/-- In a balanced state the counters of nodes, links and summary agree. -/
theorem Balanced.counters {s : Capture} (h : s.Balanced) {summary : TrafficStats}
    (hsummary : s.protosummaryStats = some summary) :
    (s.allLinks.values.map (·.linkStats.stats.averAccu)).sum = summary.stats.averAccu ∧
      (s.allNodes.values.map (·.nodeStats.statsOut.averAccu)).sum = summary.stats.averAccu ∧
      (s.allNodes.values.map (·.nodeStats.statsIn.averAccu)).sum = summary.stats.averAccu := by
  obtain ⟨stats, hstats, hordered⟩ := h.summary
  obtain rfl : stats = summary := Option.some.inj (hstats.symm.trans hsummary)
  have htotal : stats.stats.averAccu = bytesOf (summaryItems s.protosummaryStats) := by
    rw [hordered.accounts.stats, hsummary, ← bytesOf_coe]
    rfl
  have hnode : ∀ node ∈ s.allNodes.values, TrafficStats.Ordered s.now node.nodeStats := by
    intro node hmem
    obtain ⟨e, he, rfl⟩ := List.mem_map.mp hmem
    exact h.nodes e he
  have hlink : ∀ link ∈ s.allLinks.values, TrafficStats.Ordered s.now link.linkStats := by
    intro link hmem
    obtain ⟨e, he, rfl⟩ := List.mem_map.mp hmem
    exact h.links e he
  rw [htotal]
  refine ⟨?_, ?_, ?_⟩
  · rw [← bytesOf_eq_of_packets h.carried]
    exact sum_bytesOf _ _ _ fun link hmem => (hlink link hmem).accounts.stats
  · rw [← bytesOf_eq_of_packets h.sent]
    refine (sum_bytesOf _ _ (fun node => outgoing (nodeItems node)) fun node hmem => ?_).trans ?_
    · exact (hnode node hmem).accounts.statsOut.trans (congrArg bytesOf (Multiset.filter_coe _ _).symm)
    · exact congrArg bytesOf (sum_filter _ _ _ _ fun _ _ => rfl)
  · rw [← bytesOf_eq_of_packets h.received]
    refine (sum_bytesOf _ _ (fun node => incoming (nodeItems node)) fun node hmem => ?_).trans ?_
    · exact (hnode node hmem).accounts.statsIn.trans (congrArg bytesOf (Multiset.filter_coe _ _).symm)
    · exact congrArg bytesOf (sum_filter _ _ _ _ fun _ _ => rfl)

/-- **Traffic is conserved.** Right after a full update of any run the byte counters of all links, the
outbound and the inbound counters of all nodes and the counter of the summary agree, the links hold
exactly the packets of the summary, and both endpoints of a link with packets are known. -/
theorem traffic_conserved {s : Capture} (h : UpdateRun s) {now : Timeval}
    (hnow : s.now.NotAfter now) (pref : Preferences) :
    ∃ summary, (s.fullUpdate now pref).protosummaryStats = some summary ∧
      ((s.fullUpdate now pref).allLinks.values.map (·.linkStats.stats.averAccu)).sum =
        summary.stats.averAccu ∧
      ((s.fullUpdate now pref).allNodes.values.map (·.nodeStats.statsOut.averAccu)).sum =
        summary.stats.averAccu ∧
      ((s.fullUpdate now pref).allNodes.values.map (·.nodeStats.statsIn.averAccu)).sum =
        summary.stats.averAccu ∧
      (((s.fullUpdate now pref).allLinks.values.flatMap (·.linkStats.pktList)).map (·.info)).Perm
        (summary.pktList.map (·.info)) ∧
      ∀ e ∈ (s.fullUpdate now pref).allLinks.entries, e.2.linkStats.pktList ≠ [] →
        ((s.fullUpdate now pref).allNodes.lookup e.1.src).isSome ∧
          ((s.fullUpdate now pref).allNodes.lookup e.1.dst).isSome := by
  have hbalanced := h.balanced.fullUpdate pref hnow
  obtain ⟨summary, hsummary, _⟩ := hbalanced.summary
  obtain ⟨hlinks, hsent, hreceived⟩ := hbalanced.counters hsummary
  refine ⟨summary, hsummary, hlinks, hsent, hreceived, ?_, fun e he hpackets => ?_⟩
  · have hcarried := hbalanced.carried
    rw [hsummary] at hcarried
    have hlists : ((s.fullUpdate now pref).allLinks.gather linkItems) =
        ((s.fullUpdate now pref).allLinks.values.flatMap (·.linkStats.pktList) :
          List PacketListItem) := SortedTree.gather_coe _ _
    rw [hlists] at hcarried
    exact Multiset.coe_eq_coe.mp hcarried
  · obtain ⟨it, hit⟩ := List.exists_mem_of_ne_nil _ hpackets
    obtain ⟨⟨src, hsrc, _⟩, ⟨dst, hdst, _⟩⟩ := hbalanced.endpoints e he it hit
    exact ⟨Option.isSome_iff_exists.mpr ⟨src, hsrc⟩, Option.isSome_iff_exists.mpr ⟨dst, hdst⟩⟩

/-- A capture just started that received an empty frame, of 60 bytes on the wire. -/
def emptyFrameReceived : Option Capture :=
  ({ (initial ⟨10, 0⟩).startCapture with now := ⟨11, 0⟩ } : Capture).packetAcquired
    (DecodeEnv.bare linktypeEthernet .ip) (fun _ => 0) 0 60 ⟨7, 1, 2⟩

/-- The unidentified node sent and received the frame when the update comes a second later. -/
theorem traffic_conserved_empty_frame :
    ∃ s ∈ emptyFrameReceived, ∃ summary,
      (s.fullUpdate ⟨12, 0⟩ ⟨5000, 0, 0, 0, 0, 0, 0⟩).protosummaryStats = some summary ∧
      summary.stats.averAccu = 60 := by
  have hsome : emptyFrameReceived.isSome := by decide +kernel
  obtain ⟨s, hs⟩ := Option.isSome_iff_exists.mp hsome
  have hrun : UpdateRun s := (UpdateRun.start ⟨10, 0⟩).packetAcquired ⟨11, 0⟩
    (show (0 : ℚ) ≤ substractTimesMs ⟨11, 0⟩ ⟨10, 0⟩ by decide +kernel) _ _ _ _ _ hs
  have hnow : s.now.NotAfter ⟨12, 0⟩ := by
    obtain ⟨d, _, rfl⟩ := packetAcquired_eq_some hs
    rw [registerPacket, protocolSummaryAddPacket_eq]
    show (0 : ℚ) ≤ substractTimesMs ⟨12, 0⟩ ⟨11, 0⟩
    decide +kernel
  obtain ⟨summary, hsummary, _, _, hreceived, _⟩ :=
    traffic_conserved hrun hnow ⟨5000, 0, 0, 0, 0, 0, 0⟩
  have hbytes : emptyFrameReceived.map (fun s =>
      ((s.fullUpdate ⟨12, 0⟩ ⟨5000, 0, 0, 0, 0, 0, 0⟩).allNodes.values.map
        (·.nodeStats.statsIn.averAccu)).sum) = some 60 := by decide +kernel
  rw [hs, Option.map_some] at hbytes
  exact ⟨s, hs, summary, hsummary, hreceived.symm.trans (Option.some.inj hbytes)⟩

end Capture

end EtherApe
