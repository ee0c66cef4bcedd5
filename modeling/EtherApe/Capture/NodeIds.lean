import EtherApe.Capture.Orphans
import EtherApe.NodeNames.IdTexts

/-!
# Ids of a capture

Whatever packets are captured, in whatever mode and from whatever link layer, the addresses in the ids of
the nodes are of IPv4 or IPv6, and what the union has no address in is empty. So the nodes of a catalog
can be told by what is written of their ids.
-/

namespace EtherApe

open DecodeState

/-! ### Decoding -/

section Decoding

variable {env : DecodeEnv} {t : Conversations} {d : DecodeState}

theorem stored_setIpv4 (addr : NodeAddr) (src : Nat → UInt8) : (setIpv4 addr src).addr.ip.Stored := by
  rw [setIpv4, NodeAddr.ip_setIp]
  refine Or.inl ⟨rfl, fun i hi => ?_⟩
  simp only [Address.setAddr, Address.setType, Octets.write]
  rw [if_neg (by omega), if_neg (by omega)]
  rfl

theorem stored_setIpv6 (addr : NodeAddr) (src : Nat → UInt8) : (setIpv6 addr src).addr.ip.Stored := by
  rw [setIpv6, NodeAddr.ip_setIp]
  exact Or.inr rfl

theorem NodeId.OfLink.stored {id : NodeId} (h : id.OfLink) : id.Stored := by
  cases h with
  | inl hclear =>
      rw [hclear]
      trivial
  | inr hlink =>
      rw [Stored, hlink.1]
      trivial

/-- What is known of the ids when the addresses are in. -/
structure IdsStored (env : DecodeEnv) (d : DecodeState) : Prop where
  src : d.srcNodeId.Stored
  dst : d.dstNodeId.Stored
  srcAddress : env.mode = .tcp → d.srcNodeId.addr.ip.Stored
  dstAddress : env.mode = .tcp → d.dstNodeId.addr.ip.Stored

theorem stored_tcp {addr : NodeAddr} {host : Address} (h : host.Stored) (port : Nat) :
    NodeId.Stored ⟨.tcp, (addr.setTcp4Host host).setTcp4Port port⟩ := by
  change ((addr.setIp host).setTcp4Port port).ip.Stored
  rwa [NodeAddr.ip_setTcp4Port, NodeAddr.ip_setIp]

theorem IdsStored.transportHeader (h : IdsStored env d) (hsrc : d.globalSrcAddress = d.srcNodeId.addr.ip)
    (hdst : d.globalDstAddress = d.dstNodeId.addr.ip) (name : String) :
    (transportHeader env name d).srcNodeId.Stored ∧ (transportHeader env name d).dstNodeId.Stored := by
  rw [EtherApe.transportHeader, setTcpNodeIds]
  by_cases hmode : env.mode = .tcp
  · have hsrcStored := h.srcAddress hmode
    have hdstStored := h.dstAddress hmode
    rw [← hsrc] at hsrcStored
    rw [← hdst] at hdstStored
    rw [if_pos hmode]
    exact ⟨stored_tcp hsrcStored _, stored_tcp hdstStored _⟩
  · rw [if_neg hmode]
    exact ⟨h.src, h.dst⟩

theorem getTcp_nodeIds (env : DecodeEnv) (d : DecodeState) :
    (getTcp env d).srcNodeId = (transportHeader env "TCP" d).srcNodeId ∧
      (getTcp env d).dstNodeId = (transportHeader env "TCP" d).dstNodeId := by
  rw [getTcp_eq]
  exact (payloadPreserved_nodeIds _ _).getTcpPayload ⟨rfl, rfl⟩

theorem getUdp_nodeIds (env : DecodeEnv) (d : DecodeState) :
    (getUdp env d).srcNodeId = (transportHeader env "UDP" d).srcNodeId ∧
      (getUdp env d).dstNodeId = (transportHeader env "UDP" d).dstNodeId := by
  rw [getUdp_eq]
  exact (payloadPreserved_nodeIds _ _).getUdpPayload ⟨rfl, rfl⟩

theorem IdsStored.getIpProto (h : IdsStored env d) (ipType fragmentOffset : Nat) :
    (getIpProto env ipType fragmentOffset d).srcNodeId.Stored ∧
      (getIpProto env ipType fragmentOffset d).dstNodeId.Stored := by
  have haddresses : IdsStored env (d.setGlobalAddresses d.srcNodeId.addr.ip d.dstNodeId.addr.ip) :=
    ⟨h.src, h.dst, h.srcAddress, h.dstAddress⟩
  unfold EtherApe.getIpProto
  dsimp only
  split
  · split
    · exact ⟨h.src, h.dst⟩
    · rw [(getTcp_nodeIds env _).1, (getTcp_nodeIds env _).2]
      exact haddresses.transportHeader rfl rfl "TCP"
  · split
    · split
      · exact ⟨h.src, h.dst⟩
      · rw [(getUdp_nodeIds env _).1, (getUdp_nodeIds env _).2]
        exact haddresses.transportHeader rfl rfl "UDP"
    · exact ⟨h.src, h.dst⟩

theorem IdsStored.of_ip (hsrcType : d.srcNodeId.nodeType = .ip) (hdstType : d.dstNodeId.nodeType = .ip)
    (hsrc : d.srcNodeId.addr.ip.Stored) (hdst : d.dstNodeId.addr.ip.Stored) : IdsStored env d where
  src := by
    rw [NodeId.Stored, hsrcType]
    exact hsrc
  dst := by
    rw [NodeId.Stored, hdstType]
    exact hdst
  srcAddress _ := hsrc
  dstAddress _ := hdst

theorem Below.idsStored (h : Below t d) : d.srcNodeId.Stored ∧ d.dstNodeId.Stored :=
  ⟨h.src.stored, h.dst.stored⟩

/-- Without addresses of IP the ids are those of the link layer, and the mode has no ports. -/
theorem Below.idsStored_link6 (h : Below t d) (hmode : env.mode = .link6) : IdsStored env d where
  src := h.src.stored
  dst := h.dst.stored
  srcAddress htcp := ApeMode.noConfusion (hmode.symm.trans htcp)
  dstAddress htcp := ApeMode.noConfusion (hmode.symm.trans htcp)

theorem getIp_idsStored (h : Below t d) :
    (getIp env d).srcNodeId.Stored ∧ (getIp env d).dstNodeId.Stored := by
  unfold getIp getIpv4 getIpv6
  dsimp only [readByte, pntohs, readBytes]
  split
  · exact h.idsStored
  · split
    · split
      · exact h.idsStored
      · split
        · apply IdsStored.getIpProto
          exact IdsStored.of_ip rfl rfl (stored_setIpv4 _ _) (stored_setIpv4 _ _)
        next hmode =>
          have hids := h.idsStored_link6 (not_not.mp hmode)
          apply IdsStored.getIpProto
          exact ⟨hids.src, hids.dst, hids.srcAddress, hids.dstAddress⟩
    · split
      · split
        · exact h.idsStored
        · split
          · apply IdsStored.getIpProto
            exact IdsStored.of_ip rfl rfl (stored_setIpv6 _ _) (stored_setIpv6 _ _)
          next hmode =>
            have hids := h.idsStored_link6 (not_not.mp hmode)
            apply IdsStored.getIpProto
            exact ⟨hids.src, hids.dst, hids.srcAddress, hids.dstAddress⟩
      · exact h.idsStored

theorem Hands.idsStored {o : Option Handover} (h : Hands env t o d) :
    d.srcNodeId.Stored ∧ d.dstNodeId.Stored := by
  cases h with
  | ip hat => exact getIp_idsStored hat.toBelow
  | below hbelow => exact hbelow.idsStored

theorem getPacketProt_idsStored {calls : Nat} {bytes : Nat → UInt8} {caplen : Nat}
    {pphLkentry : Option Linktype}
    (h : getPacketProt env calls (decodeProtoStart bytes caplen t pphLkentry) = .finished d) :
    d.srcNodeId.Stored ∧ d.dstNodeId.Stored := by
  obtain ⟨d', rfl, hhands⟩ := getPacketProt_hands h
  obtain ⟨pr, hpr⟩ := copyTopmost_eq d'
  rw [hpr]
  exact hhands.idsStored

end Decoding

/-! ### Runs -/

namespace Capture

variable {s s' : Capture} {past : List (Capture × Event)}

/-- The nodes are stored under their own ids, which packets have brought. -/
def NodesStored (s : Capture) : Prop := ∀ e ∈ s.allNodes.entries, e.2.nodeId = e.1 ∧ e.1.Stored

theorem NodesStored.addNodePacket (h : s.NodesStored) {nodeId : NodeId} (hid : nodeId.Stored)
    (packet : PacketInfo) (direction : PacketDirection) (addr : NodeRef) :
    (s.addNodePacket packet nodeId direction addr).NodesStored := by
  intro e he
  rcases SortedTree.mem_upsert.mp he with ⟨_, ⟨old, hold, hvalue⟩ | ⟨_, heq⟩⟩ | ⟨_, hold⟩
  · rw [hvalue]
    exact h (e.1, old) hold
  · rw [heq]
    exact ⟨rfl, hid⟩
  · exact h e hold

theorem NodesStored.packetAcquired (h : s.NodesStored) {env : DecodeEnv} {rawPacket : Nat → UInt8}
    {rawSize pktSize : Nat} {mem : Malloc}
    (hstep : s.packetAcquired env rawPacket rawSize pktSize mem = some s') : s'.NodesStored := by
  obtain ⟨d, hd, rfl⟩ := packetAcquired_eq_some hstep
  obtain ⟨⟨calls, hfinished⟩, _⟩ := decodePacket_eq_some_iff.mp hd
  obtain ⟨hsrc, hdst⟩ := getPacketProt_idsStored hfinished
  set packet : PacketInfo := ⟨mem.packet, pktSize, s.now, d.pr⟩
  set opened : Capture := { s with conversations := d.conversations, pphLkentry := d.pphLkentry }
  have hopened : (opened.newPacket packet.ref).NodesStored := h
  rw [registerPacket, protocolSummaryAddPacket_eq]
  exact (hopened.addNodePacket hsrc packet .outbound mem.srcNode).addNodePacket hdst packet .inbound
    mem.dstNode

theorem NodesStored.step (h : s.NodesStored) {e : Event} (hstep : s.step e = some s') :
    s'.NodesStored := by
  have hnone {c : Capture} (hempty : c.allNodes = SortedTree.empty) : c.NodesStored := by
    intro e he
    rw [hempty] at he
    exact absurd he List.not_mem_nil
  cases e with
  | clock now =>
      obtain rfl := Option.some.inj hstep
      exact h
  | startCapture =>
      obtain rfl := Option.some.inj hstep
      unfold startCapture
      split
      · exact h
      · split
        · exact hnone rfl
        · exact h
  | pauseCapture =>
      obtain rfl := Option.some.inj hstep
      unfold pauseCapture
      split
      · exact h
      · exact h
  | endOfFile =>
      obtain rfl := Option.some.inj hstep
      unfold endOfFile
      split
      · exact h
      · exact h
  | stopCapture =>
      obtain rfl := Option.some.inj hstep
      unfold stopCapture
      split
      · exact h
      · exact hnone rfl
  | packetAcquired env rawPacket rawSize pktSize mem =>
      simp only [Capture.step] at hstep
      split at hstep
      · exact h.packetAcquired hstep
      · cases hstep
  | nodesUpdate pref =>
      obtain rfl := Option.some.inj hstep
      intro e he
      obtain ⟨node, hnode, hvalue, _⟩ := (mem_nodesCatalogUpdateAll s.now pref).mp he
      rw [hvalue]
      exact h (e.1, node) hnode
  | linksUpdate pref =>
      obtain rfl := Option.some.inj hstep
      exact h
  | summaryUpdate pref =>
      obtain rfl := Option.some.inj hstep
      unfold protocolSummaryUpdateAll
      split
      · exact h
      · exact h

theorem Run.nodesStored (h : Run past s) : s.NodesStored := by
  induction h with
  | initial now => exact fun e he => absurd he List.not_mem_nil
  | step _ e hstep ih => exact ih.step hstep

/-- **Nodes in a dump.** At any time of any run the nodes are stored under their own ids, as packets
have brought them, no two nodes have the same id element, and no two nodes of one type the same id
text. -/
theorem run_id_texts (h : Run past s) : s.NodesStored ∧
    ∀ e ∈ s.allNodes.entries, ∀ e' ∈ s.allNodes.entries,
      (Export.nodeIdXml e.2.nodeId = Export.nodeIdXml e'.2.nodeId → e = e') ∧
        (e.2.nodeId.nodeType = e'.2.nodeId.nodeType →
          nodeIdStr e.2.nodeId = nodeIdStr e'.2.nodeId → e = e') := by
  refine ⟨h.nodesStored, fun e he e' he' => ?_⟩
  obtain ⟨hid, hstored⟩ := h.nodesStored e he
  obtain ⟨hid', hstored'⟩ := h.nodesStored e' he'
  rw [hid, hid']
  refine ⟨fun hxml => ?_, fun htype hstr => ?_⟩
  · exact SortedTree.eq_of_mem_of_cmp he he' (Export.nodeIdXml_inj hstored hstored' hxml)
  · exact SortedTree.eq_of_mem_of_cmp he he' (nodeIdStr_inj hstored hstored' htype hstr)

/-- The two ends of a TCP segment. -/
theorem run_id_texts_segment : ∃ past s, Run past s ∧ s.allNodes.entries.length = 2 ∧
    ∀ e ∈ s.allNodes.entries, ∀ e' ∈ s.allNodes.entries,
      Export.nodeIdXml e.2.nodeId = Export.nodeIdXml e'.2.nodeId → e = e' := by
  have hsteps : ((machine ⟨10, 0⟩).stepAll (initial ⟨10, 0⟩) [.startCapture,
      receive .tcp (tcpPacket [4, 0, 0, 80] []) 40 ⟨1, 1, 2⟩]).map (fun s =>
        s.allNodes.entries.length) = some 2 := by
    decide +kernel
  obtain ⟨s, hs, hlength⟩ := Option.map_eq_some_iff.mp hsteps
  obtain ⟨past, hrun', _⟩ := Machine.Run.start.stepAll hs
  have hrun := Run.of_machine hrun'
  exact ⟨past, s, hrun, hlength, fun e he e' he' => ((run_id_texts hrun).2 e he e' he').1⟩

end Capture

end EtherApe
