import EtherApe.DecodeProto.Framing
import EtherApe.DecodeProto.Preserved
import EtherApe.DecodeProto.Ppi
import Mathlib.Data.Fin.VecNotation
import Mathlib.Data.List.GetD
import Mathlib.Tactic.IntervalCases

/-!
# Endpoints of a decoded frame

Decoding a captured Ethernet II frame gives back the endpoints it was framed with, whatever layers
wrote to the node ids on the way.
-/

namespace EtherApe

open DecodeState

/-! ### Writing node ids -/

section NodeIds

variable {w : Window} {i : Nat}

theorem getD_ofFn {n : Nat} (a : Octets n) (k : Nat) :
    (List.ofFn a).getD k 0 = if h : k < n then a ⟨k, h⟩ else 0 := by
  by_cases h : k < n
  · rw [dif_pos h, List.getD_eq_getElem _ _ (by simpa using h), List.getElem_ofFn]
  · rw [dif_neg h, List.getD_eq_default _ _ (by simpa using h)]

theorem get_of_hasBytes_ofFn {n : Nat} {a : Octets n} (h : w.hasBytes i (List.ofFn a)) {j : Nat}
    (hj : j < n) : w.get (i + j) = a ⟨j, hj⟩ := by
  rw [Window.get_of_hasBytes h (by simpa using hj), List.getElem_ofFn]

theorem link6Id_eq {mac : Octets 6} (h : w.hasBytes i (List.ofFn mac)) :
    (⟨.link6, NodeId.clear.addr.setEth fun j => w.get (i + j)⟩ : NodeId) = link6Id mac := by
  unfold link6Id nodeIdOf
  congr 1
  funext k
  rw [getD_ofFn, NodeAddr.setEth, Octets.write]
  by_cases hk : k.val < 6
  · rw [if_pos ⟨Nat.zero_le _, by omega⟩, dif_pos hk, Nat.sub_zero, get_of_hasBytes_ofFn h hk]
  · rw [if_neg (by omega), dif_neg hk]
    rfl

theorem ipId_ip (a : Address) : (ipId a).addr.ip = a := by
  funext k
  show (List.ofFn a).getD k.val 0 = a k
  rw [getD_ofFn, dif_pos k.isLt]

/-- What `get_ip` leaves of the union: the address, and zeros in the bytes of the port. -/
theorem setIp_eq {addr : NodeAddr} (hport : ∀ k : Fin 22, 20 ≤ k.val → addr k = 0) (a : Address) :
    (⟨.ip, addr.setIp a⟩ : NodeId) = ipId a := by
  unfold ipId nodeIdOf
  congr 1
  funext k
  rw [getD_ofFn, NodeAddr.setIp, Octets.write]
  by_cases hk : k.val < 20
  · rw [if_pos ⟨Nat.zero_le _, by omega⟩, dif_pos hk, Nat.sub_zero, Octets.bytesFrom]
    simp [hk]
  · rw [if_neg (by omega), dif_neg hk, hport k (by omega)]

theorem address_eq {a : Address} {family : UInt8} {addr : List UInt8}
    (hfamily : ∀ k : Fin 20, k.val < 4 → a k = if k.val = 0 then family else 0)
    (haddr : ∀ k : Fin 20, 4 ≤ k.val → a k = addr.getD (k.val - 4) 0) :
    a = IpHeader.address family addr := by
  funext k
  unfold IpHeader.address
  by_cases hk : k.val < 4
  · rw [hfamily k hk]
    obtain ⟨k, hk'⟩ := k
    dsimp only at hk
    interval_cases k <;> rfl
  · rw [haddr k (not_lt.mp hk), List.getD_append_right _ _ _ _ (by simpa using hk)]
    rfl

theorem setType_apply (a : Address) (family : Nat) (k : Fin 20) :
    a.setType family k = if k.val < 4 then UInt8.ofNat (family / 256 ^ k.val) else a k := by
  simp [Address.setType, Octets.write]

theorem setAddr_apply (a : Address) (len : Nat) (src : Nat → UInt8) (k : Fin 20) :
    a.setAddr len src k = if 4 ≤ k.val ∧ k.val < 4 + len then src (k.val - 4) else a k := rfl

theorem setIpv4_eq {addr : NodeAddr} (hport : ∀ k : Fin 22, 20 ≤ k.val → addr k = 0)
    {a : Octets 4} (h : w.hasBytes i (List.ofFn a)) :
    setIpv4 addr (fun j => w.get (i + j)) = ipId (IpHeader.address 2 (List.ofFn a)) := by
  rw [setIpv4, setIp_eq hport]
  congr 1
  refine address_eq (fun k hk => ?_) fun k hk => ?_
  · rw [setAddr_apply, if_neg (by omega), setType_apply, if_pos hk]
    obtain ⟨k, hk'⟩ := k
    dsimp only at hk
    interval_cases k <;> simp [afInet]
  · rw [setAddr_apply, getD_ofFn]
    by_cases hlt : k.val < 8
    · rw [if_pos ⟨hk, by omega⟩, dif_pos (by omega), get_of_hasBytes_ofFn h]
    · rw [if_neg (by omega), dif_neg (by omega), setType_apply, if_neg (by omega)]
      rfl

theorem setIpv6_eq {addr : NodeAddr} (hport : ∀ k : Fin 22, 20 ≤ k.val → addr k = 0)
    {a : Octets 16} (h : w.hasBytes i (List.ofFn a)) :
    setIpv6 addr (fun j => w.get (i + j)) = ipId (IpHeader.address 10 (List.ofFn a)) := by
  rw [setIpv6, setIp_eq hport]
  congr 1
  refine address_eq (fun k hk => ?_) fun k hk => ?_
  · rw [setAddr_apply, if_neg (by omega), setType_apply, if_pos hk]
    obtain ⟨k, hk'⟩ := k
    dsimp only at hk
    interval_cases k <;> simp [afInet6]
  · have hlt := k.isLt
    rw [setAddr_apply, getD_ofFn, if_pos ⟨hk, by omega⟩, dif_pos (by omega), get_of_hasBytes_ofFn h]

theorem tcpId_eq (a : Address) (port : Nat) :
    (⟨.tcp, ((ipId a).addr.setTcp4Host a).setTcp4Port port⟩ : NodeId) = tcpId a port := by
  unfold tcpId nodeIdOf
  congr 1
  funext k
  rw [NodeAddr.setTcp4Port, Octets.write]
  by_cases hk : k.val < 20
  · rw [if_neg (by omega), List.getD_append _ _ _ _ (by simpa using hk), getD_ofFn, dif_pos hk,
      NodeAddr.setTcp4Host, NodeAddr.setIp, Octets.write, if_pos ⟨Nat.zero_le _, by omega⟩,
      Nat.sub_zero, Octets.bytesFrom]
    simp [hk]
  · have hlt := k.isLt
    rw [if_pos ⟨not_lt.mp hk, by omega⟩, List.getD_append_right _ _ _ _ (by simpa using hk)]
    obtain ⟨k, hk'⟩ := k
    dsimp only at hk hlt ⊢
    interval_cases k <;> simp

end NodeIds

/-! ### The layers -/

/-- The endpoints a decoder has found. -/
structure Endpoints (src dst : NodeId) (srcPort dstPort : Nat) (d : DecodeState) : Prop where
  srcNodeId : d.srcNodeId = src
  dstNodeId : d.dstNodeId = dst
  globalSrcPort : d.globalSrcPort = srcPort
  globalDstPort : d.globalDstPort = dstPort

theorem payloadPreserved_endpoints (src dst : NodeId) (srcPort dstPort : Nat) :
    PayloadPreserved (Endpoints src dst srcPort dstPort) where
  decodeProtoAdd h := ⟨h.srcNodeId, h.dstNodeId, h.globalSrcPort, h.globalDstPort⟩
  setConversations h := ⟨h.srcNodeId, h.dstNodeId, h.globalSrcPort, h.globalDstPort⟩
  touch h := ⟨h.srcNodeId, h.dstNodeId, h.globalSrcPort, h.globalDstPort⟩

/-- The id the transport layer makes of an id of the layer below. -/
def transportId (mode : ApeMode) (id : NodeId) (address : Address) (port : Nat) : NodeId :=
  if mode = .tcp then ⟨.tcp, (id.addr.setTcp4Host address).setTcp4Port port⟩ else id

section Layers

variable {env : DecodeEnv} {d : DecodeState} {srcPort dstPort : Nat}

theorem setTcpNodeIds_endpoints (hsrc : d.globalSrcPort = srcPort) (hdst : d.globalDstPort = dstPort) :
    Endpoints (transportId env.mode d.srcNodeId d.globalSrcAddress srcPort)
      (transportId env.mode d.dstNodeId d.globalDstAddress dstPort) srcPort dstPort
      (setTcpNodeIds env d) := by
  unfold setTcpNodeIds transportId
  by_cases htcp : env.mode = .tcp
  · simp only [if_pos htcp]
    exact ⟨by rw [← hsrc]; rfl, by rw [← hdst]; rfl, hsrc, hdst⟩
  · simp only [if_neg htcp]
    exact ⟨rfl, rfl, hsrc, hdst⟩

theorem getTcp_endpoints (hsrc : d.window.u16 0 = srcPort) (hdst : d.window.u16 2 = dstPort) :
    Endpoints (transportId env.mode d.srcNodeId d.globalSrcAddress srcPort)
      (transportId env.mode d.dstNodeId d.globalDstAddress dstPort) srcPort dstPort
      (getTcp env d) := by
  have hids := @setTcpNodeIds_endpoints env ((((d.decodeProtoAdd "TCP").touch 0 2).touch 2
    2).setGlobalPorts (d.window.u16 0) (d.window.u16 2)) srcPort dstPort hsrc hdst
  apply (payloadPreserved_endpoints _ _ _ _).getTcpPayload
  exact ⟨hids.srcNodeId, hids.dstNodeId, hids.globalSrcPort, hids.globalDstPort⟩

theorem getUdp_endpoints (hsrc : d.window.u16 0 = srcPort) (hdst : d.window.u16 2 = dstPort) :
    Endpoints (transportId env.mode d.srcNodeId d.globalSrcAddress srcPort)
      (transportId env.mode d.dstNodeId d.globalDstAddress dstPort) srcPort dstPort
      (getUdp env d) := by
  have hids := @setTcpNodeIds_endpoints env ((((d.decodeProtoAdd "UDP").touch 0 2).touch 2
    2).setGlobalPorts (d.window.u16 0) (d.window.u16 2)) srcPort dstPort hsrc hdst
  apply (payloadPreserved_endpoints _ _ _ _).getUdpPayload
  exact ⟨hids.srcNodeId, hids.dstNodeId, hids.globalSrcPort, hids.globalDstPort⟩

theorem getIpProto_endpoints {ipType : Nat} {w : Window} {src dst : NodeId}
    (htype : ipType = ipProtoTcp ∨ ipType = ipProtoUdp) (hwindow : d.window = w)
    (hsrcId : d.srcNodeId = src) (hdstId : d.dstNodeId = dst) (hsrc : w.u16 0 = srcPort)
    (hdst : w.u16 2 = dstPort) :
    Endpoints (transportId env.mode src src.addr.ip srcPort)
      (transportId env.mode dst dst.addr.ip dstPort) srcPort dstPort (getIpProto env ipType 0 d) := by
  have hudp : ipProtoUdp ≠ ipProtoTcp := by decide
  subst hwindow hsrcId hdstId
  set d' := d.setGlobalAddresses d.srcNodeId.addr.ip d.dstNodeId.addr.ip
  rcases htype with rfl | rfl
  · have htcp : getIpProto env ipProtoTcp 0 d = getTcp env d' := by
      rw [getIpProto, if_pos rfl, if_neg (not_not.mpr rfl)]
    rw [htcp]
    exact @getTcp_endpoints env d' _ _ hsrc hdst
  · have hudp : getIpProto env ipProtoUdp 0 d = getUdp env d' := by
      rw [getIpProto, if_neg hudp, if_pos rfl, if_neg (not_not.mpr rfl)]
    rw [hudp]
    exact @getUdp_endpoints env d' _ _ hsrc hdst

/-- The id the IP layer makes of an id of the link layer. -/
def networkId (mode : ApeMode) (id : NodeId) (address : Address) : NodeId :=
  if mode ≠ .link6 then ipId address else id

/-- The id the layers up to the transport make of an id of the link layer. -/
def endpointId (mode : ApeMode) (id : NodeId) (address : Address) (port : Nat) : NodeId :=
  transportId mode (networkId mode id address) (networkId mode id address).addr.ip port

/-- The part of the union behind an address is zero. -/
def PortClear (id : NodeId) : Prop := ∀ k : Fin 22, 20 ≤ k.val → id.addr k = 0

theorem TransportRest.protocol_cases (t : TransportRest) :
    t.protocol = ipProtoTcp ∨ t.protocol = ipProtoUdp := by
  cases t with
  | tcp => exact Or.inl rfl
  | udp => exact Or.inr rfl

theorem TransportRest.toNat_protocol (t : TransportRest) :
    (UInt8.ofNat t.protocol).toNat = t.protocol := by
  cases t <;> rfl

theorem be16_u16 {w : Window} {i n : Nat} (hn : n < 65536) (h : w.hasBytes i (be16 n)) :
    w.u16 i = n := by
  rw [Window.u16_of_hasBytes h, UInt8.toNat_ofNat', UInt8.toNat_ofNat']
  omega

theorem Ipv4Header.fields {w : Window} {h : Ipv4Header} {protocol : Nat}
    (hw : w.hasBytes 0 (h.bytes protocol)) :
    w.get 0 = UInt8.ofNat (0x45 + h.optionWords.val) ∧
      w.hasBytes 6 [UInt8.ofNat (32 * h.flags.val), 0] ∧ w.get 9 = UInt8.ofNat protocol ∧
      w.hasBytes 12 (List.ofFn h.src) ∧ w.hasBytes 16 (List.ofFn h.dst) := by
  simp only [Ipv4Header.bytes, Window.hasBytes_append, Window.hasBytes_cons, List.length_append,
    List.length_cons, List.length_nil, List.length_ofFn] at hw
  obtain ⟨⟨⟨⟨⟨⟨⟨⟨hfirst, _⟩, _⟩, _⟩, hflags, hzero, _, hprotocol, _⟩, _⟩, hsrc⟩, hdst⟩, _⟩ := hw
  refine ⟨hfirst, ?_, hprotocol, hsrc, hdst⟩
  exact Window.hasBytes_cons.mpr ⟨hflags, Window.hasBytes_cons.mpr ⟨hzero, rfl⟩⟩

theorem Ipv6Header.fields {w : Window} {h : Ipv6Header} {nextHeader : Nat}
    (hw : w.hasBytes 0 (h.bytes nextHeader)) :
    w.get 0 = UInt8.ofNat (0x60 + h.trafficClassHigh.val) ∧ w.get 6 = UInt8.ofNat nextHeader ∧
      w.hasBytes 8 (List.ofFn h.src) ∧ w.hasBytes 24 (List.ofFn h.dst) := by
  simp only [Ipv6Header.bytes, Window.hasBytes_append, Window.hasBytes_cons, List.length_append,
    List.length_cons, List.length_nil, List.length_ofFn] at hw
  obtain ⟨⟨⟨⟨⟨⟨hfirst, _⟩, _⟩, _⟩, hnext, _⟩, hsrc⟩, hdst⟩ := hw
  exact ⟨hfirst, hnext, hsrc, hdst⟩

theorem Ipv4Header.bytes_length (h : Ipv4Header) (protocol : Nat) :
    (h.bytes protocol).length = 20 + 4 * h.optionWords.val := by
  simp only [Ipv4Header.bytes, List.length_append, List.length_cons, List.length_nil,
    List.length_ofFn]

theorem Ipv6Header.bytes_length (h : Ipv6Header) (nextHeader : Nat) :
    (h.bytes nextHeader).length = 40 := by
  simp only [Ipv6Header.bytes, List.length_append, List.length_cons, List.length_nil,
    List.length_ofFn]

theorem ports_of_hasBytes {w : Window} {n : Nat} {srcPort dstPort : Fin 65536} (hn : n ≤ w.len)
    (h : w.hasBytes n (be16 srcPort.val ++ be16 dstPort.val)) :
    (w.advance n).u16 0 = srcPort.val ∧ (w.advance n).u16 2 = dstPort.val := by
  obtain ⟨hsrc, hdst⟩ := Window.hasBytes_append.mp h
  have hsrc' : (w.advance n).hasBytes 0 (be16 srcPort.val) := by rwa [Window.hasBytes_advance hn]
  have hdst' : (w.advance n).hasBytes 2 (be16 dstPort.val) := by rwa [Window.hasBytes_advance hn]
  exact ⟨be16_u16 srcPort.isLt hsrc', be16_u16 dstPort.isLt hdst'⟩

section Network

variable {w : Window} {ip : IpHeader} {transport : TransportRest} {sport dport : Fin 65536}

theorem getIpv4_endpoints {h : Ipv4Header} (hip : d.window.hasBytes 0 (h.bytes transport.protocol))
    (hports : d.window.hasBytes (20 + 4 * h.optionWords.val) (be16 sport.val ++ be16 dport.val))
    (hlen : 20 + 4 * h.optionWords.val ≤ d.window.len)
    (hsrc : PortClear d.srcNodeId) (hdst : PortClear d.dstNodeId) :
    Endpoints (endpointId env.mode d.srcNodeId (IpHeader.v4 h).src sport.val)
      (endpointId env.mode d.dstNodeId (IpHeader.v4 h).dst dport.val) sport.val dport.val
      (getIpv4 env (20 + 4 * h.optionWords.val) d) := by
  obtain ⟨_, hflags, hprotocol, hsrcBytes, hdstBytes⟩ := Ipv4Header.fields hip
  obtain ⟨hsport, hdport⟩ := ports_of_hasBytes hlen hports
  have hfragment : d.window.u16 6 % 0x1000 = 0 := by
    rw [Window.u16_of_hasBytes hflags, UInt8.toNat_ofNat', UInt8.toNat_zero]
    omega
  have htype : (d.window.get 9).toNat = transport.protocol := by
    rw [hprotocol, transport.toNat_protocol]
  unfold getIpv4 endpointId networkId
  dsimp only [readByte, pntohs, readBytes]
  simp only [decodeProtoAdd_window, touch_window, setDstNodeId_window, hfragment, htype]
  by_cases hmode : env.mode ≠ .link6
  · simp only [if_pos hmode]
    exact getIpProto_endpoints transport.protocol_cases rfl (setIpv4_eq hsrc hsrcBytes)
      (setIpv4_eq hdst hdstBytes) hsport hdport
  · simp only [if_neg hmode]
    exact getIpProto_endpoints transport.protocol_cases rfl rfl rfl hsport hdport

theorem getIpv6_endpoints {h : Ipv6Header} (hip : d.window.hasBytes 0 (h.bytes transport.protocol))
    (hports : d.window.hasBytes 40 (be16 sport.val ++ be16 dport.val)) (hlen : 40 ≤ d.window.len)
    (hsrc : PortClear d.srcNodeId) (hdst : PortClear d.dstNodeId) :
    Endpoints (endpointId env.mode d.srcNodeId (IpHeader.v6 h).src sport.val)
      (endpointId env.mode d.dstNodeId (IpHeader.v6 h).dst dport.val) sport.val dport.val
      (getIpv6 env d) := by
  obtain ⟨_, hnext, hsrcBytes, hdstBytes⟩ := Ipv6Header.fields hip
  obtain ⟨hsport, hdport⟩ := ports_of_hasBytes hlen hports
  have htype : (d.window.get 6).toNat = transport.protocol := by
    rw [hnext, transport.toNat_protocol]
  unfold getIpv6 endpointId networkId
  dsimp only [readByte, readBytes]
  simp only [decodeProtoAdd_window, touch_window, setDstNodeId_window, htype]
  by_cases hmode : env.mode ≠ .link6
  · simp only [if_pos hmode]
    exact getIpProto_endpoints transport.protocol_cases rfl (setIpv6_eq hsrc hsrcBytes)
      (setIpv6_eq hdst hdstBytes) hsport hdport
  · simp only [if_neg hmode]
    exact getIpProto_endpoints transport.protocol_cases rfl rfl rfl hsport hdport

theorem getIp_endpoints (hip : d.window.hasBytes 0 (ip.bytes transport.protocol))
    (hports : d.window.hasBytes (ip.bytes transport.protocol).length
      (be16 sport.val ++ be16 dport.val))
    (hlen : (ip.bytes transport.protocol).length ≤ d.window.len)
    (hsrc : PortClear d.srcNodeId) (hdst : PortClear d.dstNodeId) :
    Endpoints (endpointId env.mode d.srcNodeId ip.src sport.val)
      (endpointId env.mode d.dstNodeId ip.dst dport.val) sport.val dport.val (getIp env d) := by
  cases ip with
  | v4 h =>
      have hlength : ((IpHeader.v4 h).bytes transport.protocol).length =
          20 + 4 * h.optionWords.val := h.bytes_length _
      rw [hlength] at hports hlen
      obtain ⟨hfirst, _⟩ := Ipv4Header.fields hip
      have hwords := h.optionWords.isLt
      have hbyte : (d.window.get 0).toNat = 0x45 + h.optionWords.val := by
        rw [hfirst, UInt8.toNat_ofNat']
        omega
      have hv4 : getIp env d =
          getIpv4 env (20 + 4 * h.optionWords.val) ((d.touch 0 1).touch 0 1) := by
        have hhl : ((d.touch 0 1).window.get 0).toNat % 16 * 4 = 20 + 4 * h.optionWords.val := by
          rw [touch_window, hbyte]
          omega
        unfold getIp
        dsimp only [readByte]
        rw [hbyte, if_neg (by omega), if_pos (by omega), hhl, if_neg (by omega)]
      rw [hv4]
      exact getIpv4_endpoints (d := (d.touch 0 1).touch 0 1) hip hports hlen hsrc hdst
  | v6 h =>
      have hlength : ((IpHeader.v6 h).bytes transport.protocol).length = 40 := h.bytes_length _
      rw [hlength] at hports hlen
      obtain ⟨hfirst, _⟩ := Ipv6Header.fields hip
      have hclass := h.trafficClassHigh.isLt
      have hbyte : (d.window.get 0).toNat = 0x60 + h.trafficClassHigh.val := by
        rw [hfirst, UInt8.toNat_ofNat']
        omega
      have hv6 : getIp env d = getIpv6 env (d.touch 0 1) := by
        unfold getIp
        dsimp only [readByte]
        rw [hbyte, if_neg (by omega), if_neg (by omega), if_pos (by omega), if_neg]
        rw [touch_window]
        omega
      rw [hv6]
      exact getIpv6_endpoints (d := d.touch 0 1) hip hports hlen hsrc hdst

end Network

section Link

variable {f : EthFrame}

theorem portClear_link6Id (mac : Octets 6) : PortClear (link6Id mac) := by
  intro k hk
  show (List.ofFn mac).getD k.val 0 = 0
  rw [getD_ofFn, dif_neg (by omega)]

theorem getEthTypeAt_endpoints {sizeOffset : Nat}
    (hdstMac : d.window.hasBytes 0 (List.ofFn f.dstMac))
    (hsrcMac : d.window.hasBytes 6 (List.ofFn f.srcMac))
    (hip : d.window.hasBytes (sizeOffset + 2) (f.ip.bytes f.transport.protocol))
    (hports : d.window.hasBytes (sizeOffset + 2 + (f.ip.bytes f.transport.protocol).length)
      (be16 f.srcPort.val ++ be16 f.dstPort.val))
    (hlen : sizeOffset + 2 + (f.ip.bytes f.transport.protocol).length ≤ d.window.len)
    (hsrc : d.srcNodeId = NodeId.clear) (hdst : d.dstNodeId = NodeId.clear) :
    Endpoints (endpointId env.mode (link6Id f.srcMac) f.ip.src f.srcPort.val)
      (endpointId env.mode (link6Id f.dstMac) f.ip.dst f.dstPort.val) f.srcPort.val f.dstPort.val
      (getEthTypeAt env sizeOffset f.ip.ethertype d) := by
  set d' := (((setLink6NodeIds 0 6 d).addOffset (sizeOffset + 2)).decodeProtoAdd "ETH_II") with hd'
  have hII : getEthTypeAt env sizeOffset f.ip.ethertype d = getIp env d' := by
    unfold getEthTypeAt
    cases f.ip <;> rfl
  have hsrcId : d'.srcNodeId = link6Id f.srcMac := by
    rw [← link6Id_eq hsrcMac, ← hsrc]
    rfl
  have hdstId : d'.dstNodeId = link6Id f.dstMac := by
    rw [← link6Id_eq hdstMac, ← hdst]
    rfl
  have hoffset : sizeOffset + 2 ≤ d.window.len := by omega
  rw [hII, ← hsrcId, ← hdstId]
  apply getIp_endpoints
  · show (d.window.advance (sizeOffset + 2)).hasBytes 0 _
    rwa [Window.hasBytes_advance hoffset]
  · show (d.window.advance (sizeOffset + 2)).hasBytes _ _
    rwa [Window.hasBytes_advance hoffset]
  · show _ ≤ (d.window.advance (sizeOffset + 2)).len
    rw [Window.advance_len]
    omega
  · rw [hsrcId]
    exact portClear_link6Id _
  · rw [hdstId]
    exact portClear_link6Id _

theorem be16_length (n : Nat) : (be16 n).length = 2 := rfl

theorem EthFrame.fields {w : Window} (hw : w.hasBytes 0 f.headers) :
    w.hasBytes 0 (List.ofFn f.dstMac) ∧ w.hasBytes 6 (List.ofFn f.srcMac) ∧
      w.hasBytes 12 (EthFrame.tagBytes f.tag) ∧
      w.hasBytes (12 + (EthFrame.tagBytes f.tag).length) (be16 f.ip.ethertype) ∧
      w.hasBytes (12 + (EthFrame.tagBytes f.tag).length + 2) (f.ip.bytes f.transport.protocol) ∧
      w.hasBytes (12 + (EthFrame.tagBytes f.tag).length + 2 +
        (f.ip.bytes f.transport.protocol).length) (be16 f.srcPort.val ++ be16 f.dstPort.val) := by
  rw [EthFrame.headers, EthFrame.transportHeader, Window.hasBytes_append, Window.hasBytes_append,
    Window.hasBytes_append, Window.hasBytes_append, Window.hasBytes_append,
    Window.hasBytes_append] at hw
  simp only [List.length_append, List.length_ofFn, be16_length, Nat.zero_add] at hw
  obtain ⟨⟨⟨⟨⟨hdstMac, hsrcMac⟩, htag⟩, htype⟩, hip⟩, hports, _⟩ := hw
  exact ⟨hdstMac, hsrcMac, htag, htype, hip, hports⟩

theorem EthFrame.headers_length (f : EthFrame) :
    12 + (EthFrame.tagBytes f.tag).length + 2 + (f.ip.bytes f.transport.protocol).length ≤
      f.headers.length := by
  simp only [EthFrame.headers, List.length_append, List.length_ofFn, be16_length]
  omega

theorem IpHeader.bytes_length_ge (ip : IpHeader) (protocol : Nat) :
    20 ≤ (ip.bytes protocol).length := by
  cases ip with
  | v4 h =>
      have hlength := h.bytes_length protocol
      rw [IpHeader.bytes, hlength]
      omega
  | v6 h =>
      rw [IpHeader.bytes, h.bytes_length]
      decide

theorem IpHeader.ethertype_lt (ip : IpHeader) : ip.ethertype < 65536 := by
  cases ip <;> simp [IpHeader.ethertype]

theorem IpHeader.ethertype_ne_vlan (ip : IpHeader) : ip.ethertype ≠ ethertypeVlan := by
  cases ip <;> simp [IpHeader.ethertype, ethertypeVlan]

theorem getEthType_endpoints (hframe : d.window.hasBytes 0 f.headers)
    (hlen : f.headers.length ≤ d.window.len) (hsrc : d.srcNodeId = NodeId.clear)
    (hdst : d.dstNodeId = NodeId.clear) :
    Endpoints (endpointId env.mode (link6Id f.srcMac) f.ip.src f.srcPort.val)
      (endpointId env.mode (link6Id f.dstMac) f.ip.dst f.dstPort.val) f.srcPort.val f.dstPort.val
      (getEthType env d) := by
  obtain ⟨hdstMac, hsrcMac, htag, htype, hip, hports⟩ := EthFrame.fields hframe
  have hheaders := f.headers_length
  have hiplen := f.ip.bytes_length_ge f.transport.protocol
  have hetype := be16_u16 f.ip.ethertype_lt htype
  have hlong : ¬d.window.len < 20 := by omega
  unfold getEthType
  dsimp only [pntohs]
  rw [if_neg hlong]
  cases hcase : f.tag with
  | none =>
      simp only [hcase, EthFrame.tagBytes, List.length_nil, Nat.add_zero] at hetype hip hports hheaders
      rw [hetype, if_neg f.ip.ethertype_ne_vlan]
      exact getEthTypeAt_endpoints (d := d.touch 12 2) hdstMac hsrcMac hip hports (by
        rw [touch_window]
        omega) hsrc hdst
  | some tci =>
      simp only [hcase, EthFrame.tagBytes, List.length_append, be16_length, List.length_ofFn]
        at hetype hip hports hheaders htag
      have hvlan : d.window.u16 12 = ethertypeVlan :=
        be16_u16 (by decide) (Window.hasBytes_append.mp htag).1
      rw [if_pos hvlan]
      set d' := if env.debugEnabled then ((d.touch 12 2).decodeProtoAdd "802.1Q").touch 14 2
        else (d.touch 12 2).decodeProtoAdd "802.1Q" with hd'
      have hdebug : d'.window = d.window ∧ d'.srcNodeId = d.srcNodeId ∧
          d'.dstNodeId = d.dstNodeId := by
        rw [hd']
        split <;> exact ⟨rfl, rfl, rfl⟩
      obtain ⟨hwindow, hsrcId, hdstId⟩ := hdebug
      rw [hwindow, hetype]
      have htouch : (d'.touch 16 2).window = d.window := hwindow
      apply getEthTypeAt_endpoints
      · rwa [htouch]
      · rwa [htouch]
      · rwa [htouch]
      · rwa [htouch]
      · rw [htouch]
        omega
      · exact hsrcId.trans hsrc
      · exact hdstId.trans hdst

end Link

end Layers

/-! ### Whole frames -/

theorem EthFrame.CapturedAs.hasBytes {f : EthFrame} {payload : List UInt8} {bytes : Nat → UInt8}
    {caplen : Nat} (h : f.CapturedAs payload bytes caplen) :
    (Window.whole bytes caplen).hasBytes 0 f.headers := by
  apply Window.hasBytes_of_get
  intro j hj
  have hbyte := h.bytes_eq j (hj.trans_le h.headers_le)
  rw [List.getElem?_append_left hj, List.getElem?_eq_getElem hj] at hbyte
  show bytes (0 + (0 + j)) = f.headers[j]
  rw [Nat.zero_add, Nat.zero_add]
  exact (Option.some.inj hbyte).symm

theorem Endpoints.copyTopmost {src dst : NodeId} {srcPort dstPort : Nat} {d : DecodeState}
    (h : Endpoints src dst srcPort dstPort d) : Endpoints src dst srcPort dstPort (copyTopmost d) := by
  unfold EtherApe.copyTopmost
  split
  · exact ⟨h.srcNodeId, h.dstNodeId, h.globalSrcPort, h.globalDstPort⟩
  · exact h

/-- Decoding on an Ethernet device inverts framing: the node ids of each mode and the ports are the
ones the frame was built from. -/
theorem getPacketProt_endpoints {f : EthFrame} {payload : List UInt8} {bytes : Nat → UInt8}
    {caplen : Nat} (hcaptured : f.CapturedAs payload bytes caplen) {env : DecodeEnv}
    (hdlt : env.lkentry.val.dltLinktype = dltEn10mb) (calls : Nat) (conversations : Conversations)
    (pphLkentry : Option Linktype) :
    ∃ d, getPacketProt env calls (decodeProtoStart bytes caplen conversations pphLkentry) =
        .finished d ∧
      (env.mode = .link6 → d.srcNodeId = link6Id f.srcMac ∧ d.dstNodeId = link6Id f.dstMac) ∧
      (env.mode = .ip → d.srcNodeId = ipId f.ip.src ∧ d.dstNodeId = ipId f.ip.dst) ∧
      (env.mode = .tcp → d.srcNodeId = tcpId f.ip.src f.srcPort.val ∧
        d.dstNodeId = tcpId f.ip.dst f.dstPort.val) ∧
      d.globalSrcPort = f.srcPort.val ∧ d.globalDstPort = f.dstPort.val := by
  set start := decodeProtoStart bytes caplen conversations pphLkentry
  have hlkentry : env.lkentry = linktypeAt 0 := dltLinktype_injective hdlt
  have hends := (@getEthType_endpoints env start f hcaptured.hasBytes hcaptured.headers_le rfl
    rfl).copyTopmost
  refine ⟨EtherApe.copyTopmost (getEthType env start), ?_, ?_, ?_, ?_, hends.globalSrcPort,
    hends.globalDstPort⟩
  · rw [getPacketProt, hlkentry]
    rfl
  · intro hmode
    rw [hends.srcNodeId, hends.dstNodeId, hmode]
    exact ⟨rfl, rfl⟩
  · intro hmode
    rw [hends.srcNodeId, hends.dstNodeId, hmode]
    exact ⟨rfl, rfl⟩
  · intro hmode
    rw [hends.srcNodeId, hends.dstNodeId, hmode, ← tcpId_eq, ← tcpId_eq]
    simp only [endpointId, transportId, networkId, ipId_ip, if_pos, ne_eq, reduceCtorEq,
      not_false_eq_true, and_self]

/-- A tagged UDP packet with four bytes of IPv4 options. -/
def sampleFrame : EthFrame where
  dstMac := ![2, 0, 0, 0, 0, 1]
  srcMac := ![2, 0, 0, 0, 0, 2]
  tag := some ![0, 7]
  ip := .v4 ⟨0, ![0, 32], ![0, 1], 2, 64, ![0, 0], ![10, 0, 0, 1], ![10, 0, 0, 2], 1, ![1, 1, 1, 0]⟩
  srcPort := 40000
  dstPort := 53
  transport := .udp ![0, 8, 0, 0]

theorem getPacketProt_endpoints_sampleFrame :
    ∃ d, getPacketProt (DecodeEnv.bare linktypeEthernet .tcp) 0 (decodeProtoStart
        (fun i => sampleFrame.headers.getD i 0) 50 Conversations.empty none) = .finished d ∧
      d.srcNodeId = tcpId (IpHeader.address 2 [10, 0, 0, 1]) 40000 ∧ d.globalDstPort = 53 := by
  have hcaptured : sampleFrame.CapturedAs [] (fun i => sampleFrame.headers.getD i 0) 50 := by
    refine ⟨?_, ?_, ?_⟩ <;> decide
  obtain ⟨d, hdecoded, _, _, htcp, _, hport⟩ := getPacketProt_endpoints hcaptured
    (show (DecodeEnv.bare linktypeEthernet .tcp).lkentry.val.dltLinktype = dltEn10mb from rfl) 0
    Conversations.empty none
  exact ⟨d, hdecoded, (htcp rfl).1, hport⟩

end EtherApe
