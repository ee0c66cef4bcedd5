import EtherApe.DecodeProto.Reads
import EtherApe.DecodeProto.Endpoints
import EtherApe.DecodeProto.Stack
import EtherApe.DecodeProto.NodeTypes

/-!
# SNAP and Ethernet II framing

A packet that is framed in 802.3 with a SNAP header is decoded like the same packet in an Ethernet II
frame. Both come to `get_eth_II` with the same bytes before them and one name on the stack, and from
there the decoders go alike as long as they read captured bytes only.
-/

namespace EtherApe

open DecodeState

theorem Octets.write_congr {n : Nat} {a : Octets n} {off len : Nat} {src src' : Nat → UInt8}
    (h : ∀ i < len, src' i = src i) : a.write off len src' = a.write off len src := by
  funext i
  unfold Octets.write
  split
  · next hi => exact h _ (by omega)
  · rfl

theorem ite_rel {α : Type*} {R : α → α → Prop} {c c' : Prop} [Decidable c] [Decidable c']
    {x y x' y' : α} (hc : c' ↔ c) (h : c → R x x') (h' : ¬c → R y y') :
    R (if c then x else y) (if c' then x' else y') := by
  by_cases hpos : c
  · rw [if_pos hpos, if_pos (hc.mpr hpos)]
    exact h hpos
  · rw [if_neg hpos, if_neg (mt hc.mp hpos)]
    exact h' hpos

theorem DecodeState.decodeProtoAdd_protonames (d : DecodeState) (name : String) (i : Level) :
    (d.decodeProtoAdd name).pr.protonames i =
      if d.curLevel ≤ stackSize ∧ i.val = d.curLevel then some name else d.pr.protonames i := by
  rw [decodeProtoAdd_pr, ite_and]
  split <;> rfl

/-! ### States that go alike -/

/-- Two states that differ in the name of the framing, in where their windows are, and in what is
beyond the ends of the windows. -/
structure Alike (d d' : DecodeState) : Prop where
  len : d'.window.len = d.window.len
  get : ∀ i < d.window.len, d'.window.get i = d.window.get i
  framing : d.pr.protonames 1 = some "ETH_II"
  framing' : d'.pr.protonames 1 = some "802.3"
  names : ∀ i : Level, i ≠ 1 → d'.pr.protonames i = d.pr.protonames i
  above : 1 < d.curLevel
  curLevel : d'.curLevel = d.curLevel
  src : d'.srcNodeId = d.srcNodeId
  dst : d'.dstNodeId = d.dstNodeId
  srcAddress : d'.globalSrcAddress = d.globalSrcAddress
  dstAddress : d'.globalDstAddress = d.globalDstAddress
  srcPort : d'.globalSrcPort = d.globalSrcPort
  dstPort : d'.globalDstPort = d.globalDstPort
  conversations : d'.conversations = d.conversations
  crashed : d'.crashed = d.crashed

namespace Alike

variable {d d' : DecodeState}

theorem u16 (h : Alike d d') {i : Nat} (hi : i + 2 ≤ d.window.len) :
    d'.window.u16 i = d.window.u16 i := by
  rw [Window.u16, Window.u16, h.get i (by omega), h.get (i + 1) (by omega)]

theorem u16le (h : Alike d d') {i : Nat} (hi : i + 2 ≤ d.window.len) :
    d'.window.u16le i = d.window.u16le i := by
  rw [Window.u16le, Window.u16le, h.get i (by omega), h.get (i + 1) (by omega)]

theorem u32 (h : Alike d d') {i : Nat} (hi : i + 4 ≤ d.window.len) :
    d'.window.u32 i = d.window.u32 i := by
  rw [Window.u32, Window.u32, h.u16 (by omega), h.u16 (by omega)]

theorem hasBytes (h : Alike d d') {i : Nat} {bs : List UInt8} (hi : i + bs.length ≤ d.window.len) :
    d'.window.hasBytes i bs = d.window.hasBytes i bs := by
  induction bs generalizing i with
  | nil => rfl
  | cons b bs ih =>
      rw [List.length_cons] at hi
      rw [Window.hasBytes, Window.hasBytes, h.get i (by omega), ih (by omega)]

/-! ### Operations -/

theorem decodeProtoAdd (h : Alike d d') (name : String) :
    Alike (d.decodeProtoAdd name) (d'.decodeProtoAdd name) := by
  have habove := h.above
  have hframing : (1 : Level).val ≠ d.curLevel := habove.ne
  refine { h with framing := ?_, framing' := ?_, names := ?_, above := ?_, curLevel := ?_ }
  · rw [decodeProtoAdd_protonames, if_neg fun hi => hframing hi.2, h.framing]
  · rw [decodeProtoAdd_protonames, h.curLevel, if_neg fun hi => hframing hi.2, h.framing']
  · intro i hi
    rw [decodeProtoAdd_protonames, decodeProtoAdd_protonames, h.curLevel, h.names i hi]
  · rw [decodeProtoAdd_curLevel]
    split
    · exact habove.trans (Nat.lt_succ_self _)
    · exact habove
  · rw [decodeProtoAdd_curLevel, decodeProtoAdd_curLevel, h.curLevel]

theorem decodeProtoAddCase (h : Alike d d') (label : Option String) :
    Alike (d.decodeProtoAddCase label) (d'.decodeProtoAddCase label) := by
  cases label with
  | none => exact h
  | some name => exact h.decodeProtoAdd name

theorem touch (h : Alike d d') (i n i' n' : Nat) : Alike (d.touch i n) (d'.touch i' n') :=
  { h with }

theorem addOffset (h : Alike d d') (n : Nat) : Alike (d.addOffset n) (d'.addOffset n) := by
  have hlen : (d'.window.advance n).len = (d.window.advance n).len := by
    rw [Window.advance_len, Window.advance_len, h.len]
  refine { h with len := hlen, get := fun i hi => ?_ }
  rw [addOffset_window, Window.advance_len] at hi
  rw [addOffset_window, addOffset_window, Window.advance_get _ (by rw [h.len]; omega),
    Window.advance_get _ (by omega), h.get _ (by omega)]

theorem gAssert (h : Alike d d') (holds : Bool) : Alike (d.gAssert holds) (d'.gAssert holds) :=
  { h with crashed := by rw [gAssert_crashed, gAssert_crashed, h.crashed] }

theorem setSrcNodeId (h : Alike d d') (id : NodeId) :
    Alike (d.setSrcNodeId id) (d'.setSrcNodeId id) :=
  { h with src := rfl }

theorem setDstNodeId (h : Alike d d') (id : NodeId) :
    Alike (d.setDstNodeId id) (d'.setDstNodeId id) :=
  { h with dst := rfl }

theorem setGlobalAddresses (h : Alike d d') (src dst : Address) :
    Alike (d.setGlobalAddresses src dst) (d'.setGlobalAddresses src dst) :=
  { h with srcAddress := rfl, dstAddress := rfl }

theorem setGlobalPorts (h : Alike d d') (src dst : Nat) :
    Alike (d.setGlobalPorts src dst) (d'.setGlobalPorts src dst) :=
  { h with srcPort := rfl, dstPort := rfl }

theorem setConversations (h : Alike d d') (t : Conversations) :
    Alike (d.setConversations t) (d'.setConversations t) :=
  { h with conversations := rfl }

theorem matchBytes (h : Alike d d') (i : Nat) (bs : List UInt8)
    (hi : i + bs.length ≤ d.window.len) :
    (d'.matchBytes i bs).1 = (d.matchBytes i bs).1 ∧
      Alike (d.matchBytes i bs).2 (d'.matchBytes i bs).2 := by
  refine ⟨by rw [matchBytes_fst, matchBytes_fst, h.hasBytes hi], ?_⟩
  obtain ⟨reads, heq⟩ := matchBytes_snd d i bs
  obtain ⟨reads', heq'⟩ := matchBytes_snd d' i bs
  rw [heq, heq']
  exact { h with }

/-! ### Above the transport layer -/

theorem addService (h : Alike d d') (groupUnk : Bool) (servicesFind : Nat → Option PortService)
    (unknown transport : String) (srcPort dstPort : Nat) :
    Alike (addService groupUnk servicesFind unknown transport srcPort dstPort d)
      (addService groupUnk servicesFind unknown transport srcPort dstPort d') := by
  unfold EtherApe.addService
  dsimp only
  refine ite_rel Iff.rfl (fun _ => ?_) fun _ => ?_
  · refine ite_rel Iff.rfl (fun _ => h.decodeProtoAdd _) fun _ => ?_
    exact ite_rel Iff.rfl (fun _ => h.decodeProtoAdd _) fun _ => h.decodeProtoAdd _
  · cases chosenService (servicesFind srcPort) (servicesFind dstPort) srcPort
      (choosePort srcPort dstPort) with
    | none => exact h.gAssert false
    | some service => exact h.decodeProtoAdd service.name

theorem getNetbiosSsn (h : Alike d d') (hlen : 0 < d.window.len) :
    Alike (getNetbiosSsn d) (getNetbiosSsn d') := by
  have hread := (h.decodeProtoAdd "NETBIOS-SSN").touch 0 1 0 1
  refine ite_rel ?_ (fun _ => hread.decodeProtoAdd "SMB") fun _ => hread
  show (d'.window.get 0).toNat = 0 ↔ (d.window.get 0).toNat = 0
  rw [h.get 0 hlen]

theorem getNetbiosDgm (h : Alike d d') (hlen : 0 < d.window.len) :
    Alike (getNetbiosDgm d) (getNetbiosDgm d') := by
  have hread := (h.decodeProtoAdd "NETBIOS-DGM").touch 0 1 0 1
  refine ite_rel ?_ (fun _ => hread.decodeProtoAdd "SMB") fun _ => hread
  show (d'.window.get 0).toNat = 0x10 ∨ (d'.window.get 0).toNat = 0x11 ∨
    (d'.window.get 0).toNat = 0x12 ↔ _
  rw [h.get 0 hlen]
  rfl

theorem getFtp (h : Alike d d') (env : DecodeEnv) : Alike (getFtp env d) (getFtp env d') := by
  have hname := h.decodeProtoAdd "FTP"
  unfold EtherApe.getFtp
  dsimp only [readBytes]
  refine ite_rel (by rw [hname.len]) (fun _ => hname) fun hshort => ?_
  obtain ⟨hpassive, hmatch⟩ := hname.matchBytes 0 [50, 50, 55] (not_lt.mp hshort)
  rw [hpassive]
  refine ite_rel Iff.rfl (fun _ => hmatch) fun _ => ?_
  have hmesg : (List.range (((d'.decodeProtoAdd "FTP").matchBytes 0 [50, 50, 55]).2.window.len)).map
        (fun j => ((d'.decodeProtoAdd "FTP").matchBytes 0 [50, 50, 55]).2.window.get (0 + j)) =
      (List.range (((d.decodeProtoAdd "FTP").matchBytes 0 [50, 50, 55]).2.window.len)).map
        fun j => ((d.decodeProtoAdd "FTP").matchBytes 0 [50, 50, 55]).2.window.get (0 + j) := by
    rw [hmatch.len]
    refine List.map_congr_left fun j hj => ?_
    rw [Nat.zero_add, hmatch.get j (List.mem_range.mp hj)]
  rw [hmesg]
  have hread := hmatch.touch 0 (((d.decodeProtoAdd "FTP").matchBytes 0 [50, 50, 55]).2.window.len) 0
    (((d'.decodeProtoAdd "FTP").matchBytes 0 [50, 50, 55]).2.window.len)
  split
  · exact hread
  · rw [hread.conversations, hread.srcAddress, hread.dstAddress]
    exact hread.setConversations _

/-- Two results of `get_rpc` go alike. -/
def Results (r r' : Bool × DecodeState) : Prop := r'.1 = r.1 ∧ Alike r.2 r'.2

theorem getRpcReply (h : Alike d d') : Results (getRpcReply d) (getRpcReply d') := by
  unfold EtherApe.getRpcReply
  rw [h.conversations, h.dstAddress, h.dstPort]
  cases d.conversations.findConversation d.globalDstAddress d.globalDstAddress d.globalDstPort 0 with
  | none => exact ⟨rfl, h⟩
  | some rpcProt => exact ⟨rfl, (h.decodeProtoAdd _).decodeProtoAdd _⟩

theorem addRpcConversation (h : Alike d d') (rpcProt : String) :
    Alike (addRpcConversation rpcProt d) (addRpcConversation rpcProt d') := by
  unfold EtherApe.addRpcConversation
  rw [h.conversations, h.srcAddress, h.srcPort]
  cases d.conversations.findConversation d.globalSrcAddress d.globalSrcAddress d.globalSrcPort 0 with
  | none => exact h.setConversations _
  | some data => exact h

theorem getRpcCall (h : Alike d d') {rpcstart : Nat} (hlen : rpcstart + 16 ≤ d.window.len) :
    Results (getRpcCall rpcstart d) (getRpcCall rpcstart d') := by
  have hver := h.touch (rpcstart + 8) 4 (rpcstart + 8) 4
  have hprogram := hver.touch (rpcstart + 12) 4 (rpcstart + 12) 4
  unfold EtherApe.getRpcCall
  dsimp only [pntohl]
  rw [touch_window, touch_window, h.u32 (by omega), h.u32 (by omega)]
  refine ite_rel Iff.rfl (fun _ => ⟨rfl, hver⟩) fun _ => ?_
  cases rpcProgramLabel (d.window.u32 (rpcstart + 12)) with
  | none => exact ⟨rfl, hprogram⟩
  | some rpcProt =>
      exact ⟨rfl, ((hprogram.addRpcConversation rpcProt).decodeProtoAdd _).decodeProtoAdd _⟩

theorem getRpc (h : Alike d d') (isUdp : Bool) : Results (getRpc isUdp d) (getRpc isUdp d') := by
  have hstart : (if isUdp then 0 else 4) ≤ 4 := by split <;> omega
  unfold EtherApe.getRpc
  dsimp only [pntohl]
  generalize (if isUdp then 0 else 4) = rpcstart at hstart ⊢
  refine ite_rel (by rw [h.len]) (fun _ => ⟨rfl, h⟩) fun hshort => ?_
  have hlen : rpcstart + 16 ≤ d.window.len := by omega
  have htype := h.touch (rpcstart + 4) 4 (rpcstart + 4) 4
  rw [h.u32 (by omega)]
  refine ite_rel Iff.rfl (fun _ => htype.getRpcReply) fun _ => ?_
  exact ite_rel Iff.rfl (fun _ => htype.getRpcCall hlen) fun _ => ⟨rfl, htype⟩

/-! ### Transport layer -/

theorem setTcpNodeIds (h : Alike d d') (env : DecodeEnv) :
    Alike (setTcpNodeIds env d) (setTcpNodeIds env d') := by
  unfold EtherApe.setTcpNodeIds
  refine ite_rel Iff.rfl (fun _ => ?_) fun _ => h
  have hdst := (h.gAssert (decide (d.dstNodeId.nodeType = .ip))).setDstNodeId ⟨.tcp,
    (d.dstNodeId.addr.setTcp4Host d.globalDstAddress).setTcp4Port d.globalDstPort⟩
  dsimp only
  simp only [gAssert_dstNodeId, gAssert_globalDstAddress, gAssert_globalDstPort,
    gAssert_srcNodeId, gAssert_globalSrcAddress, gAssert_globalSrcPort, setDstNodeId_srcNodeId,
    setDstNodeId_globalSrcAddress, setDstNodeId_globalSrcPort, h.src, h.dst, h.srcAddress,
    h.dstAddress, h.srcPort, h.dstPort]
  exact (hdst.gAssert _).setSrcNodeId _

theorem getTcpPayload (h : Alike d d') (env : DecodeEnv) {srcPort dstPort : Nat}
    (hssn : d.conversations.findConversation d.globalSrcAddress d.globalDstAddress srcPort dstPort =
      none → srcPort = tcpNetbiosSsn ∨ dstPort = tcpNetbiosSsn → 0 < d.window.len) :
    Alike (getTcpPayload env srcPort dstPort d) (getTcpPayload env srcPort dstPort d') := by
  unfold EtherApe.getTcpPayload
  rw [h.conversations, h.srcAddress, h.dstAddress]
  cases hfind : d.conversations.findConversation d.globalSrcAddress d.globalDstAddress srcPort
      dstPort with
  | some str => exact h.decodeProtoAdd str
  | none =>
      obtain ⟨hisRpc, hrpc⟩ := h.getRpc false
      dsimp only
      rw [hisRpc]
      refine ite_rel Iff.rfl (fun _ => hrpc) fun _ => ?_
      refine ite_rel Iff.rfl (fun hports => ?_) fun _ => ?_
      · refine hrpc.getNetbiosSsn ?_
        rw [(getRpc_spec false d).2.1]
        exact hssn hfind hports
      · exact ite_rel Iff.rfl (fun _ => hrpc.getFtp env) fun _ => hrpc.addService _ _ _ _ _ _

theorem getUdpPayload (h : Alike d d') (env : DecodeEnv) {srcPort dstPort : Nat}
    (hns : srcPort = udpNetbiosNs ∨ dstPort = udpNetbiosNs → 0 < d.window.len) :
    Alike (getUdpPayload env srcPort dstPort d) (getUdpPayload env srcPort dstPort d') := by
  obtain ⟨hisRpc, hrpc⟩ := h.getRpc true
  unfold EtherApe.getUdpPayload
  dsimp only
  rw [hisRpc]
  refine ite_rel Iff.rfl (fun _ => hrpc) fun _ => ?_
  refine ite_rel Iff.rfl (fun hports => ?_) fun _ => hrpc.addService _ _ _ _ _ _
  refine hrpc.getNetbiosDgm ?_
  rw [(getRpc_spec true d).2.1]
  exact hns hports

theorem getTcp (h : Alike d d') (env : DecodeEnv)
    (hfits : tcpFits d.conversations d.globalSrcAddress d.globalDstAddress d.window) :
    Alike (getTcp env d) (getTcp env d') := by
  obtain ⟨hlen, hssn⟩ := hfits
  have hports := ((((h.decodeProtoAdd "TCP").touch 0 2 0 2).touch 2 2 2 2).setGlobalPorts
    (d.window.u16 0) (d.window.u16 2)).setTcpNodeIds env
  have hheader := (hports.touch 12 1 12 1).addOffset ((d.window.get 12).toNat / 16 * 4)
  unfold EtherApe.getTcp
  dsimp only [pntohs, readByte]
  simp only [touch_window, decodeProtoAdd_window, setTcpNodeIds_window, setGlobalPorts_window]
  rw [h.u16 (by omega), h.u16 (by omega), h.get 12 hlen]
  refine hheader.getTcpPayload env ?_
  simp only [addOffset_window, addOffset_conversations, addOffset_globalSrcAddress,
    addOffset_globalDstAddress, touch_window, touch_conversations, touch_globalSrcAddress,
    touch_globalDstAddress, setTcpNodeIds_window, setTcpNodeIds_conversations,
    setTcpNodeIds_globalSrcAddress, setTcpNodeIds_globalDstAddress, setGlobalPorts_window,
    setGlobalPorts_conversations, setGlobalPorts_globalSrcAddress, setGlobalPorts_globalDstAddress,
    decodeProtoAdd_window, decodeProtoAdd_conversations, decodeProtoAdd_globalSrcAddress,
    decodeProtoAdd_globalDstAddress, Window.advance_len, Nat.sub_pos_iff_lt]
  exact hssn

theorem getUdp (h : Alike d d') (env : DecodeEnv) (hfits : udpFits d.window) :
    Alike (getUdp env d) (getUdp env d') := by
  obtain ⟨hlen, hns⟩ := hfits
  have hports := ((((h.decodeProtoAdd "UDP").touch 0 2 0 2).touch 2 2 2 2).setGlobalPorts
    (d.window.u16 0) (d.window.u16 2)).setTcpNodeIds env
  unfold EtherApe.getUdp
  dsimp only [pntohs]
  simp only [touch_window, decodeProtoAdd_window]
  rw [h.u16 (by omega), h.u16 (by omega)]
  refine (hports.addOffset 8).getUdpPayload env ?_
  simp only [addOffset_window, setTcpNodeIds_window, setGlobalPorts_window, touch_window,
    decodeProtoAdd_window, Window.advance_len, Nat.sub_pos_iff_lt]
  exact hns

/-! ### Network layer -/

theorem setIpv4_eq (h : Alike d d') (addr : NodeAddr) {i : Nat} (hi : i + 4 ≤ d.window.len) :
    setIpv4 addr (fun j => d'.window.get (i + j)) = setIpv4 addr fun j => d.window.get (i + j) := by
  rw [setIpv4, setIpv4, Address.setAddr, Address.setAddr,
    Octets.write_congr fun j hj => h.get (i + j) (by omega)]

theorem setIpv6_eq (h : Alike d d') (addr : NodeAddr) {i : Nat} (hi : i + 16 ≤ d.window.len) :
    setIpv6 addr (fun j => d'.window.get (i + j)) = setIpv6 addr fun j => d.window.get (i + j) := by
  rw [setIpv6, setIpv6, Address.setAddr, Address.setAddr,
    Octets.write_congr fun j hj => h.get (i + j) (by omega)]

theorem getIpProto (h : Alike d d') (env : DecodeEnv) {ipType fragmentOffset : Nat}
    (hfits : ipProtoFits d.conversations d.srcNodeId.addr.ip d.dstNodeId.addr.ip ipType
      fragmentOffset d.window) :
    Alike (getIpProto env ipType fragmentOffset d) (getIpProto env ipType fragmentOffset d') := by
  have haddresses := h.setGlobalAddresses d.srcNodeId.addr.ip d.dstNodeId.addr.ip
  unfold EtherApe.getIpProto
  dsimp only
  rw [h.src, h.dst]
  refine ite_rel Iff.rfl (fun htcp => ?_) fun _ => ?_
  · refine ite_rel Iff.rfl (fun _ => haddresses.decodeProtoAdd _) fun hfragment => ?_
    exact haddresses.getTcp env ((hfits (not_not.mp hfragment)).1 htcp)
  · refine ite_rel Iff.rfl (fun hudp => ?_) fun _ => haddresses.decodeProtoAdd _
    refine ite_rel Iff.rfl (fun _ => haddresses.decodeProtoAdd _) fun hfragment => ?_
    exact haddresses.getUdp env ((hfits (not_not.mp hfragment)).2 hudp)

theorem getIpv4 (h : Alike d d') (env : DecodeEnv) {ipHl : Nat} (hlen : 20 ≤ d.window.len)
    (hfits : ipProtoFits d.conversations
      (ipv4Address env.mode d.srcNodeId.addr fun j => d.window.get (12 + j))
      (ipv4Address env.mode d.dstNodeId.addr fun j => d.window.get (16 + j)) (d.window.get 9).toNat
      (d.window.u16 6 % 0x1000) (d.window.advance ipHl)) :
    Alike (getIpv4 env ipHl d) (getIpv4 env ipHl d') := by
  have hheader := ((h.decodeProtoAdd "IP").touch 9 1 9 1).touch 6 2 6 2
  unfold EtherApe.getIpv4
  dsimp only [readByte, pntohs, readBytes]
  simp only [touch_window, decodeProtoAdd_window]
  rw [h.get 9 (by omega), h.u16 (by omega)]
  unfold ipv4Address at hfits
  refine ite_rel Iff.rfl (fun hmode => ?_) fun hmode => ?_
  · rw [if_pos hmode, if_pos hmode] at hfits
    simp only [touch_dstNodeId, decodeProtoAdd_dstNodeId, setDstNodeId_window, setDstNodeId_srcNodeId,
      touch_srcNodeId, decodeProtoAdd_srcNodeId, touch_window, decodeProtoAdd_window]
    rw [h.dst, h.src, h.setIpv4_eq _ (by omega), h.setIpv4_eq _ (by omega)]
    exact (((((hheader.touch 16 4 16 4).setDstNodeId _).touch 12 4 12 4).setSrcNodeId _).addOffset
      ipHl).getIpProto env hfits
  · rw [if_neg hmode, if_neg hmode] at hfits
    exact (hheader.addOffset ipHl).getIpProto env hfits

theorem getIpv6 (h : Alike d d') (env : DecodeEnv) (hlen : 40 ≤ d.window.len)
    (hfits : ipProtoFits d.conversations
      (ipv6Address env.mode d.srcNodeId.addr fun j => d.window.get (8 + j))
      (ipv6Address env.mode d.dstNodeId.addr fun j => d.window.get (24 + j)) (d.window.get 6).toNat
      0 (d.window.advance 40)) :
    Alike (getIpv6 env d) (getIpv6 env d') := by
  have hheader := (h.decodeProtoAdd "IPV6").touch 6 1 6 1
  unfold EtherApe.getIpv6
  dsimp only [readByte, readBytes]
  simp only [touch_window, decodeProtoAdd_window]
  rw [h.get 6 (by omega)]
  unfold ipv6Address at hfits
  refine ite_rel Iff.rfl (fun hmode => ?_) fun hmode => ?_
  · rw [if_pos hmode, if_pos hmode] at hfits
    simp only [touch_dstNodeId, decodeProtoAdd_dstNodeId, setDstNodeId_window, setDstNodeId_srcNodeId,
      touch_srcNodeId, decodeProtoAdd_srcNodeId, touch_window, decodeProtoAdd_window]
    rw [h.dst, h.src, h.setIpv6_eq _ (by omega), h.setIpv6_eq _ (by omega)]
    exact (((((hheader.touch 24 16 24 16).setDstNodeId _).touch 8 16 8 16).setSrcNodeId _).addOffset
      40).getIpProto env hfits
  · rw [if_neg hmode, if_neg hmode] at hfits
    exact (hheader.addOffset 40).getIpProto env hfits

theorem getIp (h : Alike d d') (env : DecodeEnv)
    (hfits : ipFits d.conversations env.mode d.srcNodeId.addr d.dstNodeId.addr d.window) :
    Alike (getIp env d) (getIp env d') := by
  have hversion := h.touch 0 1 0 1
  unfold EtherApe.getIp
  dsimp only [readByte]
  refine ite_rel (by rw [h.len]) (fun _ => h) fun hshort => ?_
  have hlen : 20 ≤ d.window.len := not_lt.mp hshort
  obtain ⟨hv4, hv6⟩ := hfits hlen
  rw [touch_window, touch_window, h.get 0 (by omega), h.len]
  refine ite_rel Iff.rfl (fun h4 => ?_) fun _ => ?_
  · refine ite_rel Iff.rfl (fun _ => hversion.touch 0 1 0 1) fun hhl => ?_
    exact (hversion.touch 0 1 0 1).getIpv4 env hlen (hv4 h4 (not_lt.mp hhl))
  · refine ite_rel Iff.rfl (fun h6 => ?_) fun _ => hversion
    refine ite_rel Iff.rfl (fun _ => hversion) fun hlen6 => ?_
    exact hversion.getIpv6 env (not_lt.mp hlen6) (hv6 h6 (not_lt.mp hlen6))

theorem getIpx (h : Alike d d') : Alike (getIpx d) (getIpx d') := by
  have hchecksum := h.touch 0 2 0 2
  have hread := ((((hchecksum.decodeProtoAdd "IPX").touch 16 2 16 2).touch 28 2 28 2).touch 5 1 5
    1).touch 2 2 2 2
  unfold EtherApe.getIpx
  dsimp only [readU16, pntohs, readByte]
  refine ite_rel (by rw [h.len]) (fun _ => h) fun hshort => ?_
  simp only [touch_window, decodeProtoAdd_window]
  rw [h.u16le (by omega), h.u16 (by omega), h.u16 (by omega), h.get 5 (by omega)]
  refine ite_rel Iff.rfl (fun _ => hchecksum) fun _ => ?_
  have htype := hread.decodeProtoAddCase (ipxTypeLabels.lookup (d.window.get 5).toNat)
  exact ite_rel Iff.rfl (fun _ => htype) fun _ => htype.decodeProtoAddCase _

theorem getEthII (h : Alike d d') (env : DecodeEnv) (etype : Nat)
    (hfits : ethIIFits d.conversations env.mode d.srcNodeId.addr d.dstNodeId.addr etype d.window) :
    Alike (getEthII env etype d) (getEthII env etype d') := by
  unfold EtherApe.getEthII
  refine ite_rel Iff.rfl (fun hip => h.getIp env (hfits hip)) fun _ => ?_
  exact ite_rel Iff.rfl (fun _ => h.getIpx) fun _ => h.decodeProtoAddCase _

end Alike

/-! ### The two framings -/

/-- A packet with its MACs and its type. The destination is not the multicast address of ISL. -/
structure TypedPacket where
  dstMac : Octets 6
  srcMac : Octets 6
  etype : Fin 65536
  payload : List UInt8
  not_isl : ¬[0x01, 0x00, 0x0C, 0x00, 0x00] <+: List.ofFn dstMac
  etype_gt : 1500 < etype.val
  untagged : etype.val ≠ ethertypeVlan
  payload_ge : 6 ≤ payload.length

/-- What a frame of 802.3 has besides: its length field, and the control byte and the OUI of SNAP. -/
structure SnapHeader where
  length : Fin 1501
  control : UInt8
  oui : Octets 3

namespace TypedPacket

variable (p : TypedPacket) (s : SnapHeader)

def macs : List UInt8 := List.ofFn p.dstMac ++ List.ofFn p.srcMac

def ethIIFrame : List UInt8 := p.macs ++ be16 p.etype.val ++ p.payload

def snapFrame : List UInt8 :=
  p.macs ++ be16 s.length.val ++ [0xAA, 0xAA, s.control] ++ List.ofFn s.oui ++ be16 p.etype.val ++
    p.payload

theorem ethIIFrame_length : p.ethIIFrame.length = 14 + p.payload.length := by
  simp only [ethIIFrame, macs, List.length_append, List.length_ofFn, be16_length]

theorem snapFrame_length : (p.snapFrame s).length = 22 + p.payload.length := by
  simp only [snapFrame, macs, List.length_append, List.length_ofFn, be16_length, List.length_cons,
    List.length_nil]

variable {p s} {w : Window}

theorem ethIIFrame_fields (h : w.hasBytes 0 p.ethIIFrame) :
    w.hasBytes 0 p.macs ∧ w.u16 12 = p.etype.val ∧ w.hasBytes 14 p.payload := by
  rw [ethIIFrame, Window.hasBytes_append, Window.hasBytes_append] at h
  simp only [macs, List.length_append, List.length_ofFn, be16_length, Nat.zero_add] at h
  obtain ⟨⟨hmacs, htype⟩, hpayload⟩ := h
  exact ⟨hmacs, be16_u16 p.etype.isLt htype, hpayload⟩

theorem snapFrame_fields (h : w.hasBytes 0 (p.snapFrame s)) :
    w.hasBytes 0 p.macs ∧ w.u16 12 = s.length.val ∧ w.get 14 = 0xAA ∧ w.get 15 = 0xAA ∧
      w.u16 20 = p.etype.val ∧ w.hasBytes 22 p.payload := by
  rw [snapFrame, Window.hasBytes_append, Window.hasBytes_append, Window.hasBytes_append,
    Window.hasBytes_append, Window.hasBytes_append] at h
  simp only [macs, List.length_append, List.length_ofFn, be16_length, List.length_cons,
    List.length_nil, Nat.zero_add] at h
  obtain ⟨⟨⟨⟨⟨hmacs, hlength⟩, hsaps⟩, _⟩, htype⟩, hpayload⟩ := h
  obtain ⟨hdsap, hssap⟩ := Window.hasBytes_cons.mp hsaps
  exact ⟨hmacs, be16_u16 (s.length.isLt.trans (by decide)) hlength, hdsap,
    (Window.hasBytes_cons.mp hssap).1, be16_u16 p.etype.isLt htype, hpayload⟩

theorem not_isl_of_macs (h : w.hasBytes 0 p.macs) :
    ¬w.hasBytes 0 [0x01, 0x00, 0x0C, 0x00, 0x00] := by
  intro hisl
  refine p.not_isl (Window.prefix_of_hasBytes hisl (Window.hasBytes_append.mp h).1 ?_)
  rw [List.length_ofFn]
  decide

end TypedPacket

/-- The stacks are the same but for the entry of the framing, which is also the topmost when there is
no name above it. -/
structure Reframed (pr pr' : PacketProtos) : Prop where
  framing : pr.protonames 1 = some "ETH_II" ∧ pr'.protonames 1 = some "802.3"
  above : ∀ i : Level, 1 < i → pr'.protonames i = pr.protonames i
  topmost : (∃ i : Level, 1 < i ∧ pr.protonames i ≠ none) →
    pr'.protonames 0 = pr.protonames 0
  alone : (∀ i : Level, 1 < i → pr.protonames i = none) →
    pr.protonames 0 = some "ETH_II" ∧ pr'.protonames 0 = some "802.3"

/-- The topmost name is that of the highest level above the first, or else the first. -/
theorem copyTopmost_zero {d : DecodeState} {name : String}
    (hname : d.pr.protonames 1 = some name) :
    (copyTopmost d).pr.protonames 0 =
      (([5, 4, 3, 2] : List Level).findSome? d.pr.protonames).or (some name) := by
  have hscan : (List.finRange stackSize).reverse.findSome? (fun i => d.pr.protonames i.succ) =
      (([5, 4, 3, 2] : List Level).findSome? d.pr.protonames).or (some name) := by
    show ([5, 4, 3, 2] ++ [1] : List Level).findSome? d.pr.protonames = _
    rw [List.findSome?_append, List.findSome?_singleton, hname]
  unfold copyTopmost
  rw [hscan]
  cases ([5, 4, 3, 2] : List Level).findSome? d.pr.protonames with
  | none => rfl
  | some top => rfl

theorem Alike.reframed {d d' : DecodeState} (h : Alike d d') :
    Reframed (copyTopmost d).pr (copyTopmost d').pr := by
  have habove : ∀ i : Level, 1 < i → 0 < i ∧ i ≠ 1 := by decide
  have hmem : ∀ i : Level, 1 < i ↔ i ∈ ([5, 4, 3, 2] : List Level) := by decide
  have hscan : ([5, 4, 3, 2] : List Level).findSome? d'.pr.protonames =
      ([5, 4, 3, 2] : List Level).findSome? d.pr.protonames := by
    simp only [List.findSome?, h.names 5 (by decide), h.names 4 (by decide), h.names 3 (by decide),
      h.names 2 (by decide)]
  have hnames : ∀ i : Level, 1 < i →
      (copyTopmost d).pr.protonames i = d.pr.protonames i := fun i hi =>
    copyTopmost_protonames d (habove i hi).1
  refine ⟨?_, ?_, ?_, ?_⟩
  · rw [copyTopmost_protonames d Fin.zero_lt_one, copyTopmost_protonames d' Fin.zero_lt_one]
    exact ⟨h.framing, h.framing'⟩
  · intro i hi
    rw [hnames i hi, copyTopmost_protonames d' (habove i hi).1, h.names i (habove i hi).2]
  · intro ⟨i, hi, hnamed⟩
    rw [hnames i hi] at hnamed
    rw [copyTopmost_zero h.framing, copyTopmost_zero h.framing', hscan]
    cases htop : ([5, 4, 3, 2] : List Level).findSome? d.pr.protonames with
    | none => exact absurd (List.findSome?_eq_none_iff.mp htop i ((hmem i).mp hi)) hnamed
    | some top => rfl
  · intro hnone
    have htop : ([5, 4, 3, 2] : List Level).findSome? d.pr.protonames = none := by
      rw [List.findSome?_eq_none_iff]
      intro i hi
      rw [← hnames i ((hmem i).mpr hi)]
      exact hnone i ((hmem i).mpr hi)
    rw [copyTopmost_zero h.framing, copyTopmost_zero h.framing', hscan, htop]
    exact ⟨rfl, rfl⟩

/-! ### Decoding -/

section Decoding

variable {env : DecodeEnv} {p : TypedPacket} {s : SnapHeader} {d d' : DecodeState}

/-- The state in which an Ethernet II frame comes to `get_eth_II`. -/
def ethIIEntered (d : DecodeState) : DecodeState :=
  ((setLink6NodeIds 0 6 d).addOffset 14).decodeProtoAdd "ETH_II"

/-- The state after the comparisons that tell a frame of 802.3 from a raw one and from one of ISL. -/
def compared (d : DecodeState) : DecodeState :=
  (((d.touch 12 2).matchBytes 14 [0xff, 0xff]).2.matchBytes 0 [0x01, 0x00, 0x0C, 0x00, 0x00]).2

theorem compared_eq (d : DecodeState) : ∃ reads, compared d = { d with reads := reads } := by
  obtain ⟨reads, hraw⟩ := matchBytes_snd (d.touch 12 2) 14 [0xff, 0xff]
  obtain ⟨reads', hisl⟩ := matchBytes_snd ((d.touch 12 2).matchBytes 14 [0xff, 0xff]).2 0
    [0x01, 0x00, 0x0C, 0x00, 0x00]
  refine ⟨reads', hisl.trans ?_⟩
  rw [hraw]
  rfl

@[simp] theorem compared_window (d : DecodeState) : (compared d).window = d.window := by
  obtain ⟨reads, h⟩ := compared_eq d
  rw [h]

/-- The state in which a frame of 802.3 comes to `get_eth_II` through its SNAP header. -/
def snapEntered (d : DecodeState) : DecodeState :=
  ((((((setLink6NodeIds 0 6 d).addOffset 14).decodeProtoAdd "802.3").touch 0 1).touch 1 1).touch 6
    2).addOffset 8

theorem getEthType_ethII (hframe : d.window.hasBytes 0 p.ethIIFrame) (hlen : 20 ≤ d.window.len) :
    getEthType env d = getEthII env p.etype.val (ethIIEntered (d.touch 12 2)) := by
  obtain ⟨_, htype, _⟩ := TypedPacket.ethIIFrame_fields hframe
  unfold getEthType getEthTypeAt
  dsimp only [pntohs]
  rw [if_neg (not_lt.mpr hlen), htype, if_neg p.untagged, if_neg (not_le.mpr p.etype_gt)]
  rfl

theorem getLlc_snap {etype : Nat} (hlen : 8 ≤ d.window.len) (hdsap : d.window.get 0 = 0xAA)
    (hssap : d.window.get 1 = 0xAA) (htype : d.window.u16 6 = etype) :
    getLlc env d = getEthII env etype ((((d.touch 0 1).touch 1 1).touch 6 2).addOffset 8) := by
  unfold getLlc
  dsimp only [readByte, pntohs]
  simp only [touch_window]
  rw [if_neg (by omega), hdsap, hssap, htype]
  rfl

theorem getEthType_snap (hframe : d.window.hasBytes 0 (p.snapFrame s)) (hlen : 22 ≤ d.window.len) :
    getEthType env d = getEthII env p.etype.val (snapEntered (compared d)) := by
  obtain ⟨hmacs, hlength, hdsap, hssap, htype, _⟩ := TypedPacket.snapFrame_fields hframe
  have hnotVlan : s.length.val ≠ ethertypeVlan := (s.length.isLt.trans (by decide)).ne
  have hnotRaw : ¬((d.touch 12 2).matchBytes 14 [0xff, 0xff]).1 := by
    rw [matchBytes_fst, touch_window, Window.hasBytes_cons, hdsap]
    exact fun h => absurd h.1 (by decide)
  have hnotIsl : ¬(((d.touch 12 2).matchBytes 14 [0xff, 0xff]).2.matchBytes 0
      [0x01, 0x00, 0x0C, 0x00, 0x00]).1 := by
    rw [matchBytes_fst, matchBytes_window]
    exact TypedPacket.not_isl_of_macs hmacs
  have hwindow : (((setLink6NodeIds 0 6 (compared d)).addOffset 14).decodeProtoAdd "802.3").window =
      d.window.advance 14 := by
    rw [decodeProtoAdd_window, addOffset_window, setLink6NodeIds_window, compared_window]
  unfold getEthType getEthTypeAt
  dsimp only [pntohs]
  rw [if_neg (show ¬d.window.len < 20 by omega), hlength, if_neg hnotVlan,
    if_pos (Nat.lt_succ_iff.mp s.length.isLt), if_neg hnotIsl, if_neg hnotRaw]
  show getLlc env (((setLink6NodeIds 0 6 (compared d)).addOffset 14).decodeProtoAdd "802.3") = _
  apply getLlc_snap
  · rw [hwindow, Window.advance_len]
    omega
  · rw [hwindow, Window.advance_get _ (by omega), hdsap]
  · rw [hwindow, Window.advance_get _ (by omega), hssap]
  · rw [hwindow, Window.u16, Window.advance_get _ (by omega), Window.advance_get _ (by omega)]
    exact htype

theorem setEth_congr {w w' : Window} {i : Nat} {mac : Octets 6} (addr : NodeAddr)
    (h : w.hasBytes i (List.ofFn mac)) (h' : w'.hasBytes i (List.ofFn mac)) :
    (addr.setEth fun j => w'.get (i + j)) = addr.setEth fun j => w.get (i + j) := by
  refine Octets.write_congr fun j hj => ?_
  have hj' : j < (List.ofFn mac).length := by rwa [List.length_ofFn]
  rw [Window.get_of_hasBytes h hj', Window.get_of_hasBytes h' hj']

theorem alike_entered {bytes bytes' : Nat → UInt8} {n : Nat} (hn : p.payload.length = n)
    (hframe : (Window.whole bytes (14 + n)).hasBytes 0 p.ethIIFrame)
    (hframe' : (Window.whole bytes' (22 + n)).hasBytes 0 (p.snapFrame s)) (t : Conversations)
    (pphLkentry pphLkentry' : Option Linktype) :
    Alike (ethIIEntered ((decodeProtoStart bytes (14 + n) t pphLkentry).touch 12 2))
      (snapEntered (compared (decodeProtoStart bytes' (22 + n) t pphLkentry'))) := by
  obtain ⟨hmacs, _, hpayload⟩ := TypedPacket.ethIIFrame_fields hframe
  obtain ⟨hmacs', _, _, _, _, hpayload'⟩ := TypedPacket.snapFrame_fields hframe'
  obtain ⟨hdst, hsrc⟩ := Window.hasBytes_append.mp hmacs
  obtain ⟨hdst', hsrc'⟩ := Window.hasBytes_append.mp hmacs'
  rw [List.length_ofFn] at hsrc hsrc'
  obtain ⟨reads, hcompared⟩ := compared_eq (decodeProtoStart bytes' (22 + n) t pphLkentry')
  rw [hcompared]
  constructor
  case len =>
    show (((Window.whole bytes' (22 + n)).advance 14).advance 8).len =
      ((Window.whole bytes (14 + n)).advance 14).len
    rw [Window.advance_len, Window.advance_len, Window.advance_len]
    show 22 + n - 14 - 8 = 14 + n - 14
    omega
  case get =>
    intro i hi
    replace hi : i < n := by
      have hlen : i < ((Window.whole bytes (14 + n)).advance 14).len := hi
      rw [Window.advance_len] at hlen
      exact Nat.lt_of_lt_of_eq hlen (Nat.add_sub_cancel_left 14 n)
    have hi' : i < p.payload.length := hn ▸ hi
    have hlen : ((Window.whole bytes' (22 + n)).advance 14).len = 8 + n := by
      rw [Window.advance_len]
      show 22 + n - 14 = 8 + n
      omega
    show (((Window.whole bytes' (22 + n)).advance 14).advance 8).get i =
      ((Window.whole bytes (14 + n)).advance 14).get i
    rw [Window.advance_get _ (by omega), Window.advance_get _ (show 14 ≤ 22 + n by omega),
      Window.advance_get _ (show 14 ≤ 14 + n by omega), Window.get_of_hasBytes hpayload hi',
      ← Nat.add_assoc, Window.get_of_hasBytes hpayload' hi']
  case framing => rfl
  case framing' => rfl
  case names =>
    intro i hi
    have hlevel : i.val ≠ 1 := fun h => hi (Fin.ext h)
    show (if i.val = 1 then some "802.3" else none) = if i.val = 1 then some "ETH_II" else none
    rw [if_neg hlevel, if_neg hlevel]
  case above => exact one_lt_two
  case src => exact congrArg (NodeId.mk .link6) (setEth_congr _ hsrc hsrc')
  case dst => exact congrArg (NodeId.mk .link6) (setEth_congr _ hdst hdst')
  all_goals rfl

/-- A packet in an Ethernet II frame and the same packet behind a SNAP header are decoded alike as long
as only captured bytes are read. -/
theorem getPacketProt_snap (hdlt : env.lkentry.val.dltLinktype = dltEn10mb) (calls : Nat)
    (p : TypedPacket) (s : SnapHeader) {bytes bytes' : Nat → UInt8}
    (hbytes : (Window.whole bytes p.ethIIFrame.length).hasBytes 0 p.ethIIFrame)
    (hbytes' : (Window.whole bytes' (p.snapFrame s).length).hasBytes 0 (p.snapFrame s))
    (t : Conversations) (pphLkentry pphLkentry' : Option Linktype) :
    ∃ d d', getPacketProt env calls (decodeProtoStart bytes p.ethIIFrame.length t pphLkentry) =
        .finished d ∧
      getPacketProt env calls (decodeProtoStart bytes' (p.snapFrame s).length t pphLkentry') =
        .finished d' ∧
      (d.ReadsOk → d'.srcNodeId = d.srcNodeId ∧ d'.dstNodeId = d.dstNodeId ∧
        d'.globalSrcPort = d.globalSrcPort ∧ d'.globalDstPort = d.globalDstPort ∧
        d'.conversations = d.conversations ∧ Reframed d.pr d'.pr) := by
  have hlkentry : env.lkentry = linktypeAt 0 := dltLinktype_injective hdlt
  have hpayload := p.payload_ge
  rw [p.ethIIFrame_length] at hbytes ⊢
  rw [p.snapFrame_length] at hbytes' ⊢
  refine ⟨_, _, by rw [getPacketProt, hlkentry]; rfl, by rw [getPacketProt, hlkentry]; rfl, ?_⟩
  intro hreads
  have hentered := alike_entered rfl hbytes hbytes' t pphLkentry pphLkentry'
  have hethII := @getEthType_ethII env p (decodeProtoStart bytes (14 + p.payload.length) t pphLkentry)
    hbytes (by show 20 ≤ 14 + p.payload.length; omega)
  have hsnap := @getEthType_snap env p s
    (decodeProtoStart bytes' (22 + p.payload.length) t pphLkentry') hbytes'
    (by show 22 ≤ 22 + p.payload.length; omega)
  rw [hethII] at hreads ⊢
  rw [hsnap]
  have halike := hentered.getEthII env p.etype.val
    (readsOk_getEthII.mp (readsOk_copyTopmost.mp hreads)).2
  obtain ⟨pr, hpr⟩ := copyTopmost_eq (getEthII env p.etype.val
    (ethIIEntered ((decodeProtoStart bytes (14 + p.payload.length) t pphLkentry).touch 12 2)))
  obtain ⟨pr', hpr'⟩ := copyTopmost_eq (getEthII env p.etype.val
    (snapEntered (compared (decodeProtoStart bytes' (22 + p.payload.length) t pphLkentry'))))
  refine ⟨?_, ?_, ?_, ?_, ?_, halike.reframed⟩
  · rw [hpr, hpr']
    exact halike.src
  · rw [hpr, hpr']
    exact halike.dst
  · rw [hpr, hpr']
    exact halike.srcPort
  · rw [hpr, hpr']
    exact halike.dstPort
  · rw [hpr, hpr']
    exact halike.conversations

end Decoding

/-- The UDP packet of `sampleFrame`, whose type says that it is IP. -/
def samplePacket : TypedPacket where
  dstMac := sampleFrame.dstMac
  srcMac := sampleFrame.srcMac
  etype := ⟨0x0800, by decide⟩
  payload := sampleFrame.ip.bytes 17 ++ sampleFrame.transportHeader
  not_isl := by decide
  etype_gt := by decide
  untagged := by decide
  payload_ge := by decide

def sampleSnapHeader : SnapHeader := ⟨40, 3, ![0, 0, 0]⟩

/-- The ports of a UDP packet are decoded behind a SNAP header too. -/
theorem getPacketProt_snap_samplePacket :
    ∃ d, getPacketProt (DecodeEnv.bare linktypeEthernet .tcp) 0 (decodeProtoStart
        (fun i => (samplePacket.snapFrame sampleSnapHeader).getD i 0)
        (samplePacket.snapFrame sampleSnapHeader).length Conversations.empty none) = .finished d ∧
      d.globalDstPort = 53 ∧ d.pr.protonames 1 = some "802.3" := by
  obtain ⟨d, d', hd, hd', hsame⟩ := @getPacketProt_snap (DecodeEnv.bare linktypeEthernet .tcp) rfl 0
    samplePacket sampleSnapHeader (fun i => samplePacket.ethIIFrame.getD i 0)
    (fun i => (samplePacket.snapFrame sampleSnapHeader).getD i 0) (by decide +kernel)
    (by decide +kernel) Conversations.empty none none
  obtain rfl := Outcome.finished.inj hd
  obtain ⟨_, _, _, hport, _, hstack⟩ := hsame (by
    unfold DecodeState.ReadsOk
    decide +kernel)
  refine ⟨d', hd', hport.trans (by decide +kernel), hstack.framing.2⟩

end EtherApe
