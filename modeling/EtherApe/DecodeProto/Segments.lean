import EtherApe.DecodeProto.Layers
import EtherApe.DecodeProto.Replies

/-!
# What IP hands to the transport layer

The same for the network layer: the addresses and the payload that `get_ip` finds at the window it is
called on, and the segment that is in there. With what the link layer hands over this says of a captured
packet which segment it carries, if any, so that what decoding it does to the conversations and to the
node ids is said without the decoder.
-/

namespace EtherApe

open DecodeState

/-- What the switch on the protocol finds behind an IP header. -/
structure IpPayload where
  ipType : Nat
  fragmentOffset : Nat
  srcNodeId : NodeId
  dstNodeId : NodeId
  window : Window

/-- A TCP or UDP segment that is no later fragment. -/
structure Segment where
  isUdp : Bool
  srcAddress : Address
  dstAddress : Address
  srcPort : Nat
  dstPort : Nat
  window : Window

namespace Handover

def ipv4 (o : Handover) (mode : ApeMode) (ipHl : Nat) : IpPayload where
  ipType := (o.window.get 9).toNat
  fragmentOffset := o.window.u16 6 % 0x1000
  srcNodeId :=
    if mode ≠ .link6 then setIpv4 o.srcNodeId.addr fun j => o.window.get (12 + j) else o.srcNodeId
  dstNodeId :=
    if mode ≠ .link6 then setIpv4 o.dstNodeId.addr fun j => o.window.get (16 + j) else o.dstNodeId
  window := o.window.advance ipHl

def ipv6 (o : Handover) (mode : ApeMode) : IpPayload where
  ipType := (o.window.get 6).toNat
  fragmentOffset := 0
  srcNodeId :=
    if mode ≠ .link6 then setIpv6 o.srcNodeId.addr fun j => o.window.get (8 + j) else o.srcNodeId
  dstNodeId :=
    if mode ≠ .link6 then setIpv6 o.dstNodeId.addr fun j => o.window.get (24 + j) else o.dstNodeId
  window := o.window.advance 40

def ip (o : Handover) (mode : ApeMode) : Option IpPayload :=
  if o.window.len < 20 then none
  else if (o.window.get 0).toNat / 16 = 4 then
    if (o.window.get 0).toNat % 16 * 4 < 20 then none
    else some (o.ipv4 mode ((o.window.get 0).toNat % 16 * 4))
  else if (o.window.get 0).toNat / 16 = 6 then
    if o.window.len < 40 then none else some (o.ipv6 mode)
  else none

end Handover

def IpPayload.segment (p : IpPayload) : Option Segment :=
  if p.fragmentOffset ≠ 0 then none
  else if p.ipType = ipProtoTcp then
    some ⟨false, p.srcNodeId.addr.ip, p.dstNodeId.addr.ip, p.window.u16 0, p.window.u16 2,
      p.window.advance ((p.window.get 12).toNat / 16 * 4)⟩
  else if p.ipType = ipProtoUdp then
    some ⟨true, p.srcNodeId.addr.ip, p.dstNodeId.addr.ip, p.window.u16 0, p.window.u16 2,
      p.window.advance 8⟩
  else none

def packetSegment (env : DecodeEnv) (calls : Nat) (bytes : Nat → UInt8) (caplen : Nat) :
    Option Segment :=
  ((packetHandover env calls bytes caplen).bind fun o => o.ip env.mode).bind IpPayload.segment

namespace Segment

def packet (g : Segment) (env : DecodeEnv) : TransportPacket where
  isUdp := g.isUdp
  env := env
  state := ((({ decodeProtoStart (fun _ => 0) 0 Conversations.empty none with
    window := g.window } : DecodeState).setGlobalAddresses g.srcAddress g.dstAddress).setGlobalPorts
      g.srcPort g.dstPort)
  shape := ⟨le_rfl, Nat.le_add_left 1 5, fun _ hi => iff_of_false Bool.false_ne_true (not_lt.mpr hi),
    fun _ _ => rfl⟩

def stores (g : Segment) (env : DecodeEnv) (t : Conversations) : Option Conversation :=
  (g.packet env).stores t

end Segment

/-! ### Decoding -/

/-- The unused end of the union is empty. -/
def NodeId.Padded (id : NodeId) : Prop := ∀ i : Fin 22, id.significant.length ≤ i.val → id.addr i = 0

/-- What decoding does with a segment: it stores a conversation if the segment asks for one, and the ids
have the addresses of the segment. -/
structure Carried (env : DecodeEnv) (t : Conversations) (g : Option Segment) (d : DecodeState) :
    Prop where
  conversations : d.conversations = t.store (g.bind fun g => g.stores env t)
  srcAddress : ∀ g' ∈ g, d.srcNodeId.addr.ip = g'.srcAddress
  dstAddress : ∀ g' ∈ g, d.dstNodeId.addr.ip = g'.dstAddress
  src : d.srcNodeId.Padded
  dst : d.dstNodeId.Padded

theorem TransportPacket.stores_congr {k k' : TransportPacket} {t : Conversations}
    (hudp : k.isUdp = k'.isUdp) (henv : k.env = k'.env) (hwindow : k.state.window = k'.state.window)
    (hsrc : k.state.globalSrcAddress = k'.state.globalSrcAddress)
    (hdst : k.state.globalDstAddress = k'.state.globalDstAddress)
    (hsrcPort : k.state.globalSrcPort = k'.state.globalSrcPort)
    (hdstPort : k.state.globalDstPort = k'.state.globalDstPort) : k.stores t = k'.stores t := by
  have hcall : k.call = k'.call := by rw [call, call, hudp, hwindow]
  have hknown : k.known t = k'.known t := by rw [known, known, hsrc, hdst, hsrcPort, hdstPort]
  have hlabel : k.replyLabel t = k'.replyLabel t := by rw [replyLabel, replyLabel, hdst, hdstPort]
  have hreply : k.IsReply ↔ k'.IsReply := by rw [IsReply, IsReply, hudp, hwindow]
  have hftp : k.ReachesFtp ↔ k'.ReachesFtp := by rw [ReachesFtp, ReachesFtp, hsrcPort, hdstPort]
  have hconv : k.callConversation = k'.callConversation := by
    funext prog
    rw [callConversation, callConversation, hsrc, hsrcPort]
  simp only [stores, hudp, hcall, hconv, hknown, hlabel, hreply, hftp, henv, hwindow, hsrc, hdst]

section Carried

variable {env : DecodeEnv} {t : Conversations} {d : DecodeState}

theorem NodeId.OfLink.padded {id : NodeId} (h : id.OfLink) : id.Padded := by
  intro i hi
  cases h with
  | inl hclear => rw [hclear]; rfl
  | inr hlink =>
      refine hlink.2 i ?_
      rw [significant, hlink.1] at hi
      simpa [Octets.firstBytes_length] using hi

theorem padded_setIp {addr : NodeAddr} {a : Address} (h : ∀ i : Fin 22, 20 ≤ i.val → addr i = 0) :
    NodeId.Padded ⟨.ip, addr.setIp a⟩ := by
  intro i hi
  have hi' : 20 ≤ i.val := by simpa [NodeId.significant, Octets.firstBytes_length] using hi
  rw [← h i hi']
  exact if_neg fun hin => absurd hin.2 (by omega)

theorem NodeId.OfLink.port {id : NodeId} (h : id.OfLink) (i : Fin 22) (hi : 20 ≤ i.val) :
    id.addr i = 0 := by
  cases h with
  | inl hclear => rw [hclear]; rfl
  | inr hlink => exact hlink.2 i (by omega)

theorem padded_tcp (addr : NodeAddr) : NodeId.Padded ⟨.tcp, addr⟩ := by
  intro i hi
  have hi' : 22 ≤ i.val := by simpa [NodeId.significant, Octets.firstBytes_length] using hi
  omega

theorem setTcpNodeIds_addresses (env : DecodeEnv) (hsrc : d.globalSrcAddress = d.srcNodeId.addr.ip)
    (hdst : d.globalDstAddress = d.dstNodeId.addr.ip) :
    (setTcpNodeIds env d).srcNodeId.addr.ip = d.globalSrcAddress ∧
      (setTcpNodeIds env d).dstNodeId.addr.ip = d.globalDstAddress := by
  unfold setTcpNodeIds
  split
  · exact ⟨by simp [NodeAddr.setTcp4Host], by simp [NodeAddr.setTcp4Host]⟩
  · exact ⟨hsrc.symm, hdst.symm⟩

theorem setTcpNodeIds_padded (env : DecodeEnv) (hsrc : d.srcNodeId.Padded)
    (hdst : d.dstNodeId.Padded) :
    (setTcpNodeIds env d).srcNodeId.Padded ∧ (setTcpNodeIds env d).dstNodeId.Padded := by
  unfold setTcpNodeIds
  split
  · exact ⟨padded_tcp _, padded_tcp _⟩
  · exact ⟨hsrc, hdst⟩

theorem payloadPreserved_nodeIds (src dst : NodeId) :
    PayloadPreserved fun d => d.srcNodeId = src ∧ d.dstNodeId = dst where
  decodeProtoAdd h := h
  setConversations h := h
  touch h := h

theorem carried_decode {k : TransportPacket} {d' : DecodeState} {isUdp : Bool} {hdrLen : Nat}
    (name : String) (hdecode : d' = k.decode d.conversations) (hudp : k.isUdp = isUdp)
    (hbehind : k.Behind env d hdrLen)
    (hids : d'.srcNodeId = (transportHeader env name d).srcNodeId ∧
      d'.dstNodeId = (transportHeader env name d).dstNodeId)
    (hsrc : d.globalSrcAddress = d.srcNodeId.addr.ip)
    (hdst : d.globalDstAddress = d.dstNodeId.addr.ip) (hsrcPadded : d.srcNodeId.Padded)
    (hdstPadded : d.dstNodeId.Padded) :
    Carried env d.conversations (some ⟨isUdp, d.globalSrcAddress, d.globalDstAddress,
      d.window.u16 0, d.window.u16 2, d.window.advance hdrLen⟩) d' := by
  obtain ⟨hsrcIp, hdstIp⟩ := setTcpNodeIds_addresses env
    (d := (((d.decodeProtoAdd name).touch 0 2).touch 2 2).setGlobalPorts (d.window.u16 0)
      (d.window.u16 2)) hsrc hdst
  obtain ⟨hsrcIds, hdstIds⟩ := setTcpNodeIds_padded env
    (d := (((d.decodeProtoAdd name).touch 0 2).touch 2 2).setGlobalPorts (d.window.u16 0)
      (d.window.u16 2)) hsrcPadded hdstPadded
  rw [← transportHeader] at hsrcIp hdstIp hsrcIds hdstIds
  refine ⟨?_, ?_, ?_, hids.1 ▸ hsrcIds, hids.2 ▸ hdstIds⟩
  · rw [hdecode, TransportPacket.decode_conversations, Option.bind_some, Segment.stores]
    congr 1
    exact TransportPacket.stores_congr hudp hbehind.env hbehind.window hbehind.srcAddress
      hbehind.dstAddress hbehind.srcPort hbehind.dstPort
  · intro g hg
    obtain rfl := Option.some.inj hg
    exact hids.1 ▸ hsrcIp
  · intro g hg
    obtain rfl := Option.some.inj hg
    exact hids.2 ▸ hdstIp

theorem carried_none (ht : d.conversations = t) (hsrc : d.srcNodeId.Padded)
    (hdst : d.dstNodeId.Padded) : Carried env t none d :=
  ⟨ht, fun _ hg => absurd hg (by simp), fun _ hg => absurd hg (by simp), hsrc, hdst⟩

theorem carried_getIpProto (h : StackShape d) {p : IpPayload} (hsrc : d.srcNodeId = p.srcNodeId)
    (hdst : d.dstNodeId = p.dstNodeId) (hwindow : d.window = p.window)
    (hsrcPadded : d.srcNodeId.Padded) (hdstPadded : d.dstNodeId.Padded) :
    Carried env d.conversations p.segment (getIpProto env p.ipType p.fragmentOffset d) := by
  have hshape : StackShape (d.setGlobalAddresses d.srcNodeId.addr.ip d.dstNodeId.addr.ip) :=
    preserved_stackShape.setGlobalAddresses h
  unfold getIpProto IpPayload.segment
  dsimp only
  rw [← hsrc, ← hdst, ← hwindow]
  by_cases htcp : p.ipType = ipProtoTcp
  · rw [if_pos htcp, if_pos htcp]
    split
    · exact carried_none rfl hsrcPadded hdstPadded
    · obtain ⟨k, hdecode, hudp, hbehind⟩ := getTcp_eq_decode env hshape
      refine carried_decode "TCP" hdecode hudp hbehind ?_ rfl rfl hsrcPadded hdstPadded
      rw [getTcp_eq]
      exact (payloadPreserved_nodeIds _ _).getTcpPayload ⟨rfl, rfl⟩
  · rw [if_neg htcp, if_neg htcp]
    by_cases hudp : p.ipType = ipProtoUdp
    · rw [if_pos hudp, if_pos hudp]
      split
      · exact carried_none rfl hsrcPadded hdstPadded
      · obtain ⟨k, hdecode, hudp, hbehind⟩ := getUdp_eq_decode env hshape
        refine carried_decode "UDP" hdecode hudp hbehind ?_ rfl rfl hsrcPadded hdstPadded
        rw [getUdp_eq]
        exact (payloadPreserved_nodeIds _ _).getUdpPayload ⟨rfl, rfl⟩
    · rw [if_neg hudp, if_neg hudp, ite_self]
      exact carried_none rfl hsrcPadded hdstPadded

variable {o : Handover}

theorem At.handover_eq (h : At t o d) : o = ⟨o.names, d.srcNodeId, d.dstNodeId, d.window⟩ := by
  rw [h.src_eq, h.dst_eq, h.window_eq]

theorem At.getIpv4 (h : At t o d) (ipHl : Nat) :
    Carried env t (o.ipv4 env.mode ipHl).segment (getIpv4 env ipHl d) := by
  have hshape : StackShape (((d.decodeProtoAdd "IP").touch 9 1).touch 6 2) :=
    preserved_stackShape.touch (preserved_stackShape.touch (h.shape.decodeProtoAdd "IP"))
  rw [h.handover_eq, ← h.conversations]
  unfold EtherApe.getIpv4
  dsimp only [readByte, pntohs, readBytes]
  split
  next hmode =>
    have hids : StackShape ((((((((d.decodeProtoAdd "IP").touch 9 1).touch 6 2).touch 16
        4).setDstNodeId (setIpv4 d.dstNodeId.addr fun j => d.window.get (16 + j))).touch 12
        4).setSrcNodeId (setIpv4 d.srcNodeId.addr fun j => d.window.get (12 + j))).addOffset ipHl) :=
      preserved_stackShape.addOffset (preserved_stackShape.setSrcNodeId (preserved_stackShape.touch
        (preserved_stackShape.setDstNodeId (preserved_stackShape.touch hshape))))
    refine carried_getIpProto (p := Handover.ipv4 ⟨o.names, d.srcNodeId, d.dstNodeId, d.window⟩
      env.mode ipHl) hids (if_pos hmode).symm (if_pos hmode).symm rfl ?_ ?_
    · exact padded_setIp h.src.port
    · exact padded_setIp h.dst.port
  next hmode =>
    have hids : StackShape ((((d.decodeProtoAdd "IP").touch 9 1).touch 6 2).addOffset ipHl) :=
      preserved_stackShape.addOffset hshape
    refine carried_getIpProto (p := Handover.ipv4 ⟨o.names, d.srcNodeId, d.dstNodeId, d.window⟩
      env.mode ipHl) hids (if_neg hmode).symm (if_neg hmode).symm rfl ?_ ?_
    · exact h.src.padded
    · exact h.dst.padded

theorem At.getIpv6 (h : At t o d) : Carried env t (o.ipv6 env.mode).segment (getIpv6 env d) := by
  have hshape : StackShape ((d.decodeProtoAdd "IPV6").touch 6 1) :=
    preserved_stackShape.touch (h.shape.decodeProtoAdd "IPV6")
  rw [h.handover_eq, ← h.conversations]
  unfold EtherApe.getIpv6
  dsimp only [readByte, readBytes]
  split
  next hmode =>
    have hids : StackShape (((((((d.decodeProtoAdd "IPV6").touch 6 1).touch 24
        16).setDstNodeId (setIpv6 d.dstNodeId.addr fun j => d.window.get (24 + j))).touch 8
        16).setSrcNodeId (setIpv6 d.srcNodeId.addr fun j => d.window.get (8 + j))).addOffset 40) :=
      preserved_stackShape.addOffset (preserved_stackShape.setSrcNodeId (preserved_stackShape.touch
        (preserved_stackShape.setDstNodeId (preserved_stackShape.touch hshape))))
    refine carried_getIpProto (p := Handover.ipv6 ⟨o.names, d.srcNodeId, d.dstNodeId, d.window⟩
      env.mode) hids (if_pos hmode).symm (if_pos hmode).symm rfl ?_ ?_
    · exact padded_setIp h.src.port
    · exact padded_setIp h.dst.port
  next hmode =>
    have hids : StackShape (((d.decodeProtoAdd "IPV6").touch 6 1).addOffset 40) :=
      preserved_stackShape.addOffset hshape
    refine carried_getIpProto (p := Handover.ipv6 ⟨o.names, d.srcNodeId, d.dstNodeId, d.window⟩
      env.mode) hids (if_neg hmode).symm (if_neg hmode).symm rfl ?_ ?_
    · exact h.src.padded
    · exact h.dst.padded

theorem Below.carried (h : Below t d) : Carried env t none d :=
  carried_none h.conversations h.src.padded h.dst.padded

theorem At.getIp (h : At t o d) :
    Carried env t ((o.ip env.mode).bind IpPayload.segment) (getIp env d) := by
  unfold EtherApe.getIp Handover.ip
  simp only [readByte, touch_window, ← h.window_eq]
  split
  · exact h.toBelow.carried
  · split
    · split
      · exact ((h.touch 0 1).touch 0 1).toBelow.carried
      · exact ((h.touch 0 1).touch 0 1).getIpv4 _
    · split
      · split
        · exact (h.touch 0 1).toBelow.carried
        · exact (h.touch 0 1).getIpv6
      · exact (h.touch 0 1).toBelow.carried

theorem Hands.carried {o : Option Handover} (h : Hands env t o d) :
    Carried env t ((o.bind fun o => o.ip env.mode).bind IpPayload.segment) d := by
  cases h with
  | ip h => exact h.getIp
  | below h => exact h.carried

/-- **Segments.** What decoding a captured packet does to the conversations, and which addresses its
ids have, is that of the segment that the packet carries. -/
theorem getPacketProt_carried {calls : Nat} {bytes : Nat → UInt8} {caplen : Nat}
    {pphLkentry : Option Linktype}
    (h : getPacketProt env calls (decodeProtoStart bytes caplen t pphLkentry) = .finished d) :
    Carried env t (packetSegment env calls bytes caplen) d := by
  obtain ⟨d', rfl, hhands⟩ := getPacketProt_hands h
  have hcarried := hhands.carried
  obtain ⟨pr, hpr⟩ := copyTopmost_eq d'
  rw [hpr]
  exact ⟨hcarried.conversations, hcarried.srcAddress, hcarried.dstAddress, hcarried.src,
    hcarried.dst⟩

end Carried

end EtherApe
