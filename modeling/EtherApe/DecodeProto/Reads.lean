import EtherApe.DecodeProto.Ppi
import EtherApe.DecodeProto.Preserved

/-!
# Reads of the decoder

Which captures the decoders read only inside the window they are at. For every decoder the reads it
adds are in place exactly when a condition on the window holds, and the conditions compose along the
calls.
-/

namespace EtherApe

/-- Every read so far was inside its window and the capture. -/
def DecodeState.ReadsOk (d : DecodeState) : Prop := ∀ a ∈ d.reads, a.Within d.window.size

namespace DecodeState

section Primitives

variable {d : DecodeState} {i n : Nat}

theorem readsOk_iff_of_eq {e : DecodeState} (hreads : e.reads = d.reads)
    (hsize : e.window.size = d.window.size) : e.ReadsOk ↔ d.ReadsOk := by
  rw [ReadsOk, ReadsOk, hreads, hsize]

@[simp] theorem readsOk_decodeProtoAdd {name : String} :
    (d.decodeProtoAdd name).ReadsOk ↔ d.ReadsOk := Iff.rfl

@[simp] theorem readsOk_decodeProtoAddCase {label : Option String} :
    (d.decodeProtoAddCase label).ReadsOk ↔ d.ReadsOk := by
  cases label <;> rfl

@[simp] theorem readsOk_addOffset : (d.addOffset n).ReadsOk ↔ d.ReadsOk :=
  readsOk_iff_of_eq rfl (Window.advance_size _ _)

@[simp] theorem readsOk_gAssert {holds : Bool} : (d.gAssert holds).ReadsOk ↔ d.ReadsOk := Iff.rfl

@[simp] theorem readsOk_setSrcNodeId {id : NodeId} : (d.setSrcNodeId id).ReadsOk ↔ d.ReadsOk := Iff.rfl

@[simp] theorem readsOk_setDstNodeId {id : NodeId} : (d.setDstNodeId id).ReadsOk ↔ d.ReadsOk := Iff.rfl

@[simp] theorem readsOk_setGlobalAddresses {src dst : Address} :
    (d.setGlobalAddresses src dst).ReadsOk ↔ d.ReadsOk := Iff.rfl

@[simp] theorem readsOk_setGlobalPorts {src dst : Nat} :
    (d.setGlobalPorts src dst).ReadsOk ↔ d.ReadsOk := Iff.rfl

@[simp] theorem readsOk_setConversations {conversations : Conversations} :
    (d.setConversations conversations).ReadsOk ↔ d.ReadsOk := Iff.rfl

@[simp] theorem readsOk_setPphLkentry {entry : Option Linktype} :
    (d.setPphLkentry entry).ReadsOk ↔ d.ReadsOk := Iff.rfl

/-- A read is in place exactly when the window reaches past its last byte. -/
theorem readsOk_touch (hn : 0 < n) : (d.touch i n).ReadsOk ↔ d.ReadsOk ∧ i + n ≤ d.window.len := by
  rw [← Window.accesses_within (i := i) hn, ReadsOk, ReadsOk]
  simp only [touch, List.forall_mem_append]

@[simp] theorem readsOk_touch_of_le (h : i + n ≤ d.window.len) :
    (d.touch i n).ReadsOk ↔ d.ReadsOk := by
  rcases Nat.eq_zero_or_pos n with rfl | hn
  · simp [ReadsOk, touch, Window.accesses]
  · rw [readsOk_touch hn, and_iff_left h]

theorem readsOk_matchBytes {bs : List UInt8} (h : i + bs.length ≤ d.window.len) :
    (d.matchBytes i bs).2.ReadsOk ↔ d.ReadsOk := by
  induction bs generalizing d i with
  | nil => rfl
  | cons b bs ih =>
      rw [List.length_cons] at h
      rw [matchBytes]
      split
      · rw [ih (by rw [touch_window]; omega), readsOk_touch_of_le (by omega)]
      · rw [readsOk_touch_of_le (by omega)]

end Primitives

end DecodeState

open DecodeState

/-! ### Above the transport layer -/

section Upper

variable {d : DecodeState}

theorem readsOk_ite {c : Prop} [Decidable c] {e e' : DecodeState} (h : e.ReadsOk ↔ d.ReadsOk)
    (h' : e'.ReadsOk ↔ d.ReadsOk) : (if c then e else e').ReadsOk ↔ d.ReadsOk := by
  split
  · exact h
  · exact h'

theorem readsOk_addService {groupUnk : Bool} {servicesFind : Nat → Option PortService}
    {unknown transport : String} {srcPort dstPort : Nat} :
    (addService groupUnk servicesFind unknown transport srcPort dstPort d).ReadsOk ↔ d.ReadsOk := by
  unfold addService
  dsimp only
  split
  · exact readsOk_ite readsOk_decodeProtoAdd
      (readsOk_ite readsOk_decodeProtoAdd readsOk_decodeProtoAdd)
  · split
    · exact readsOk_decodeProtoAdd
    · exact readsOk_gAssert

theorem readsOk_getNetbios : (getNetbios d).ReadsOk ↔ d.ReadsOk := by
  unfold getNetbios
  dsimp only [readU16]
  split
  · rfl
  · have hread : (d.touch 0 2).ReadsOk ↔ d.ReadsOk := readsOk_touch_of_le (by omega)
    exact readsOk_ite (readsOk_decodeProtoAdd.trans hread) hread

/-- `get_netbios_ssn` reads a byte without a look at the length. -/
theorem readsOk_getNetbiosSsn : (getNetbiosSsn d).ReadsOk ↔ d.ReadsOk ∧ 0 < d.window.len := by
  have hread : ((d.decodeProtoAdd "NETBIOS-SSN").touch 0 1).ReadsOk ↔
      d.ReadsOk ∧ 0 < d.window.len := readsOk_touch one_pos
  rw [← hread]
  exact readsOk_ite readsOk_decodeProtoAdd Iff.rfl

theorem readsOk_getNetbiosDgm : (getNetbiosDgm d).ReadsOk ↔ d.ReadsOk ∧ 0 < d.window.len := by
  have hread : ((d.decodeProtoAdd "NETBIOS-DGM").touch 0 1).ReadsOk ↔
      d.ReadsOk ∧ 0 < d.window.len := readsOk_touch one_pos
  rw [← hread]
  exact readsOk_ite readsOk_decodeProtoAdd Iff.rfl

theorem readsOk_getFtp {env : DecodeEnv} : (getFtp env d).ReadsOk ↔ d.ReadsOk := by
  unfold getFtp
  dsimp only [readBytes]
  split
  · rfl
  next hlong =>
    have hmatch : ((d.decodeProtoAdd "FTP").matchBytes 0 [50, 50, 55]).2.ReadsOk ↔ d.ReadsOk :=
      readsOk_matchBytes (not_lt.mp hlong)
    generalize ((d.decodeProtoAdd "FTP").matchBytes 0 [50, 50, 55]).2 = d' at hmatch
    have hread : (d'.touch 0 d'.window.len).ReadsOk ↔ d.ReadsOk :=
      (readsOk_touch_of_le (Nat.zero_add _).le).trans hmatch
    split
    · exact hmatch
    · split
      · exact hread
      · exact hread

theorem getRpcReply_spec :
    ((getRpcReply d).2.ReadsOk ↔ d.ReadsOk) ∧ (getRpcReply d).2.window = d.window := by
  unfold getRpcReply
  split <;> simp

theorem addRpcConversation_spec (rpcProt : String) :
    ((addRpcConversation rpcProt d).ReadsOk ↔ d.ReadsOk) ∧
      (addRpcConversation rpcProt d).window = d.window := by
  unfold addRpcConversation
  split <;> simp

theorem getRpcCall_spec {rpcstart : Nat} (h : rpcstart + 16 ≤ d.window.len) :
    ((getRpcCall rpcstart d).2.ReadsOk ↔ d.ReadsOk) ∧
      (getRpcCall rpcstart d).2.window = d.window := by
  have hver : (d.touch (rpcstart + 8) 4).ReadsOk ↔ d.ReadsOk := readsOk_touch_of_le (by omega)
  have hprogram : ((d.touch (rpcstart + 8) 4).touch (rpcstart + 12) 4).ReadsOk ↔ d.ReadsOk :=
    (readsOk_touch_of_le (by rw [touch_window]; omega)).trans hver
  unfold getRpcCall
  dsimp only [pntohl]
  split
  · exact ⟨hver, rfl⟩
  · split
    · exact ⟨hprogram, rfl⟩
    · next rpcProt _ =>
      obtain ⟨hreads, hwindow⟩ := addRpcConversation_spec (d :=
        (d.touch (rpcstart + 8) 4).touch (rpcstart + 12) 4) rpcProt
      exact ⟨hreads.trans hprogram, hwindow⟩

/-- `get_rpc` looks at captured bytes only, stays where it is, and accepts no short packet. -/
theorem getRpc_spec (isUdp : Bool) (d : DecodeState) :
    ((getRpc isUdp d).2.ReadsOk ↔ d.ReadsOk) ∧ (getRpc isUdp d).2.window = d.window ∧
      ((getRpc isUdp d).1 = true → 24 ≤ d.window.len) := by
  have hstart : (if isUdp then 0 else 4) ≤ 4 := by split <;> omega
  unfold getRpc
  dsimp only [pntohl]
  generalize (if isUdp then 0 else 4) = rpcstart at hstart ⊢
  split
  next hshort => simp
  next hlong =>
    have hlen : 24 ≤ d.window.len := not_lt.mp hlong
    have htype : (d.touch (rpcstart + 4) 4).ReadsOk ↔ d.ReadsOk := readsOk_touch_of_le (by omega)
    split
    · obtain ⟨hreads, hwindow⟩ := getRpcReply_spec (d := d.touch (rpcstart + 4) 4)
      exact ⟨hreads.trans htype, hwindow, fun _ => hlen⟩
    · split
      · obtain ⟨hreads, hwindow⟩ := getRpcCall_spec (d := d.touch (rpcstart + 4) 4)
          (show rpcstart + 16 ≤ d.window.len by omega)
        exact ⟨hreads.trans htype, hwindow, fun _ => hlen⟩
      · exact ⟨htype, rfl, fun _ => hlen⟩

end Upper

/-! ### Transport layer -/

/-- `get_tcp` needs the 13 bytes it reads ports and header length from, and a session service that is
not part of a conversation needs a byte after the header. -/
def tcpFits (conversations : Conversations) (src dst : Address) (w : Window) : Prop :=
  13 ≤ w.len ∧
    (conversations.findConversation src dst (w.u16 0) (w.u16 2) = none →
      w.u16 0 = tcpNetbiosSsn ∨ w.u16 2 = tcpNetbiosSsn → (w.get 12).toNat / 16 * 4 < w.len)

/-- `get_udp` needs the 4 bytes it reads ports from, and a datagram service a byte after the header. -/
def udpFits (w : Window) : Prop :=
  4 ≤ w.len ∧ (w.u16 0 = udpNetbiosNs ∨ w.u16 2 = udpNetbiosNs → 8 < w.len)

section Transport

variable {d : DecodeState} {env : DecodeEnv}

@[simp] theorem readsOk_setTcpNodeIds : (setTcpNodeIds env d).ReadsOk ↔ d.ReadsOk := by
  unfold setTcpNodeIds
  exact readsOk_ite (by simp) Iff.rfl

theorem readsOk_getTcpPayload {srcPort dstPort : Nat} :
    (getTcpPayload env srcPort dstPort d).ReadsOk ↔ d.ReadsOk ∧
      (d.conversations.findConversation d.globalSrcAddress d.globalDstAddress srcPort dstPort = none →
        srcPort = tcpNetbiosSsn ∨ dstPort = tcpNetbiosSsn → 0 < d.window.len) := by
  obtain ⟨hreads, hwindow, hrpc⟩ := getRpc_spec false d
  unfold getTcpPayload
  split
  next str hfind => simp [hfind]
  next hfind =>
    dsimp only
    split
    next hisRpc =>
      have hlen := hrpc hisRpc
      exact hreads.trans (and_iff_left fun _ _ => by omega).symm
    · split
      next hssn =>
        rw [readsOk_getNetbiosSsn, hreads, hwindow]
        exact and_congr_right fun _ => ⟨fun h _ _ => h, fun h => h hfind hssn⟩
      next hssn =>
        have hrest : d.ReadsOk ↔ d.ReadsOk ∧
            (d.conversations.findConversation d.globalSrcAddress d.globalDstAddress srcPort dstPort =
              none → srcPort = tcpNetbiosSsn ∨ dstPort = tcpNetbiosSsn → 0 < d.window.len) :=
          (and_iff_left fun _ h => absurd h hssn).symm
        exact (readsOk_ite readsOk_getFtp readsOk_addService).trans (hreads.trans hrest)

theorem readsOk_getTcp : (getTcp env d).ReadsOk ↔
    d.ReadsOk ∧ tcpFits d.conversations d.globalSrcAddress d.globalDstAddress d.window := by
  unfold getTcp tcpFits
  dsimp only [pntohs, readByte]
  rw [readsOk_getTcpPayload, readsOk_addOffset, readsOk_touch one_pos, readsOk_setTcpNodeIds,
    readsOk_setGlobalPorts, readsOk_touch two_pos, readsOk_touch two_pos, readsOk_decodeProtoAdd]
  simp only [addOffset_window, addOffset_conversations, addOffset_globalSrcAddress,
    addOffset_globalDstAddress, touch_window, touch_conversations, touch_globalSrcAddress,
    touch_globalDstAddress, setTcpNodeIds_window, setTcpNodeIds_conversations,
    setTcpNodeIds_globalSrcAddress, setTcpNodeIds_globalDstAddress, setGlobalPorts_window,
    setGlobalPorts_conversations, setGlobalPorts_globalSrcAddress, setGlobalPorts_globalDstAddress,
    decodeProtoAdd_window, decodeProtoAdd_conversations, decodeProtoAdd_globalSrcAddress,
    decodeProtoAdd_globalDstAddress, Window.advance_len, Nat.sub_pos_iff_lt]
  constructor
  · rintro ⟨⟨⟨⟨hd, _⟩, _⟩, hlen⟩, hssn⟩
    exact ⟨hd, hlen, hssn⟩
  · rintro ⟨hd, hlen, hssn⟩
    exact ⟨⟨⟨⟨hd, by omega⟩, by omega⟩, hlen⟩, hssn⟩

theorem readsOk_getUdpPayload {srcPort dstPort : Nat} :
    (getUdpPayload env srcPort dstPort d).ReadsOk ↔ d.ReadsOk ∧
      (srcPort = udpNetbiosNs ∨ dstPort = udpNetbiosNs → 0 < d.window.len) := by
  obtain ⟨hreads, hwindow, hrpc⟩ := getRpc_spec true d
  unfold getUdpPayload
  dsimp only
  split
  next hisRpc =>
    have hlen := hrpc hisRpc
    exact hreads.trans (and_iff_left fun _ => by omega).symm
  · split
    next hns =>
      rw [readsOk_getNetbiosDgm, hreads, hwindow]
      exact and_congr_right fun _ => ⟨fun h _ => h, fun h => h hns⟩
    next hns =>
      exact readsOk_addService.trans (hreads.trans (and_iff_left fun h => absurd h hns).symm)

theorem readsOk_getUdp : (getUdp env d).ReadsOk ↔ d.ReadsOk ∧ udpFits d.window := by
  unfold getUdp udpFits
  dsimp only [pntohs]
  rw [readsOk_getUdpPayload, readsOk_addOffset, readsOk_setTcpNodeIds, readsOk_setGlobalPorts,
    readsOk_touch two_pos, readsOk_touch two_pos, readsOk_decodeProtoAdd]
  simp only [addOffset_window, setTcpNodeIds_window, setGlobalPorts_window, touch_window,
    decodeProtoAdd_window, Window.advance_len, Nat.sub_pos_iff_lt]
  constructor
  · rintro ⟨⟨⟨hd, _⟩, hlen⟩, hns⟩
    exact ⟨hd, hlen, hns⟩
  · rintro ⟨hd, hlen, hns⟩
    exact ⟨⟨⟨hd, by omega⟩, hlen⟩, hns⟩

end Transport

/-! ### Network layer -/

/-- What the transport layer needs; a fragment is not decoded further. -/
def ipProtoFits (conversations : Conversations) (src dst : Address) (ipType fragmentOffset : Nat)
    (w : Window) : Prop :=
  fragmentOffset = 0 →
    (ipType = ipProtoTcp → tcpFits conversations src dst w) ∧ (ipType = ipProtoUdp → udpFits w)

def ipv4Address (mode : ApeMode) (addr : NodeAddr) (src : Nat → UInt8) : Address :=
  if mode ≠ .link6 then (setIpv4 addr src).addr.ip else addr.ip

def ipv6Address (mode : ApeMode) (addr : NodeAddr) (src : Nat → UInt8) : Address :=
  if mode ≠ .link6 then (setIpv6 addr src).addr.ip else addr.ip

/-- `get_ip` itself reads nothing it has not checked for. -/
def ipFits (conversations : Conversations) (mode : ApeMode) (src dst : NodeAddr) (w : Window) : Prop :=
  20 ≤ w.len →
    ((w.get 0).toNat / 16 = 4 → 20 ≤ (w.get 0).toNat % 16 * 4 →
      ipProtoFits conversations (ipv4Address mode src fun j => w.get (12 + j))
        (ipv4Address mode dst fun j => w.get (16 + j)) (w.get 9).toNat (w.u16 6 % 0x1000)
        (w.advance ((w.get 0).toNat % 16 * 4))) ∧
    ((w.get 0).toNat / 16 = 6 → 40 ≤ w.len →
      ipProtoFits conversations (ipv6Address mode src fun j => w.get (8 + j))
        (ipv6Address mode dst fun j => w.get (24 + j)) (w.get 6).toNat 0 (w.advance 40))

section Network

variable {d : DecodeState} {env : DecodeEnv}

theorem readsOk_getIpProto {ipType fragmentOffset : Nat} :
    (getIpProto env ipType fragmentOffset d).ReadsOk ↔ d.ReadsOk ∧
      ipProtoFits d.conversations d.srcNodeId.addr.ip d.dstNodeId.addr.ip ipType fragmentOffset
        d.window := by
  have hudp : ipProtoUdp ≠ ipProtoTcp := by decide
  unfold getIpProto ipProtoFits
  dsimp only
  split
  next htcp =>
    subst htcp
    split
    next hfragment => simp [hfragment]
    next hfragment =>
      rw [readsOk_getTcp, readsOk_setGlobalAddresses]
      simp [not_not.mp hfragment, hudp.symm]
  next htcp =>
    split
    next hudp =>
      subst hudp
      split
      next hfragment => simp [hfragment]
      next hfragment =>
        rw [readsOk_getUdp, readsOk_setGlobalAddresses]
        simp [not_not.mp hfragment, htcp]
    next hudp => simp [htcp, hudp]

theorem readsOk_getIpv4 {ipHl : Nat} (hlen : 20 ≤ d.window.len) :
    (getIpv4 env ipHl d).ReadsOk ↔ d.ReadsOk ∧
      ipProtoFits d.conversations (ipv4Address env.mode d.srcNodeId.addr fun j => d.window.get (12 + j))
        (ipv4Address env.mode d.dstNodeId.addr fun j => d.window.get (16 + j)) (d.window.get 9).toNat
        (d.window.u16 6 % 0x1000) (d.window.advance ipHl) := by
  have hheader : (((d.decodeProtoAdd "IP").touch 9 1).touch 6 2).ReadsOk ↔ d.ReadsOk := by
    rw [readsOk_touch_of_le, readsOk_touch_of_le, readsOk_decodeProtoAdd]
    · show 9 + 1 ≤ d.window.len
      omega
    · show 6 + 2 ≤ d.window.len
      omega
  unfold getIpv4 ipv4Address
  dsimp only [readByte, pntohs, readBytes]
  split
  · rw [readsOk_getIpProto, readsOk_addOffset, readsOk_setSrcNodeId, readsOk_touch_of_le,
      readsOk_setDstNodeId, readsOk_touch_of_le, hheader]
    · simp
    · show 16 + 4 ≤ d.window.len
      omega
    · show 12 + 4 ≤ d.window.len
      omega
  · rw [readsOk_getIpProto, readsOk_addOffset, hheader]
    simp

theorem readsOk_getIpv6 (hlen : 40 ≤ d.window.len) :
    (getIpv6 env d).ReadsOk ↔ d.ReadsOk ∧
      ipProtoFits d.conversations (ipv6Address env.mode d.srcNodeId.addr fun j => d.window.get (8 + j))
        (ipv6Address env.mode d.dstNodeId.addr fun j => d.window.get (24 + j)) (d.window.get 6).toNat
        0 (d.window.advance 40) := by
  have hheader : ((d.decodeProtoAdd "IPV6").touch 6 1).ReadsOk ↔ d.ReadsOk :=
    readsOk_touch_of_le (show 6 + 1 ≤ d.window.len by omega)
  unfold getIpv6 ipv6Address
  dsimp only [readByte, readBytes]
  split
  · rw [readsOk_getIpProto, readsOk_addOffset, readsOk_setSrcNodeId, readsOk_touch_of_le,
      readsOk_setDstNodeId, readsOk_touch_of_le, hheader]
    · simp
    · show 24 + 16 ≤ d.window.len
      omega
    · show 8 + 16 ≤ d.window.len
      omega
  · rw [readsOk_getIpProto, readsOk_addOffset, hheader]
    simp

theorem readsOk_getIp : (getIp env d).ReadsOk ↔
    d.ReadsOk ∧ ipFits d.conversations env.mode d.srcNodeId.addr d.dstNodeId.addr d.window := by
  unfold getIp ipFits
  dsimp only [readByte]
  split
  next hshort => simp [not_le.mpr hshort]
  next hlong =>
    have hlen : 20 ≤ d.window.len := not_lt.mp hlong
    have hversion : (d.touch 0 1).ReadsOk ↔ d.ReadsOk := readsOk_touch_of_le (by omega)
    have hhl : ((d.touch 0 1).touch 0 1).ReadsOk ↔ d.ReadsOk := by
      rw [readsOk_touch_of_le, hversion]
      exact le_trans (by decide) hlen
    split
    next hv4 =>
      split
      next hlt =>
        rw [touch_window] at hlt
        simp [hhl, hv4, not_le.mpr hlt]
      next hge =>
        have hhl' : 20 ≤ (d.window.get 0).toNat % 16 * 4 := not_lt.mp hge
        rw [readsOk_getIpv4 (d := (d.touch 0 1).touch 0 1) hlen, hhl]
        simp [hlen, hv4, hhl']
    next hv4 =>
      split
      next hv6 =>
        split
        next hlt =>
          rw [touch_window] at hlt
          simp [hversion, hv6, not_le.mpr hlt]
        next hge =>
          have hlen' : 40 ≤ d.window.len := not_lt.mp hge
          rw [readsOk_getIpv6 (d := d.touch 0 1) hlen', hversion]
          simp [hlen, hv6, hlen']
      next hv6 => simp [hversion, hv4, hv6]

theorem readsOk_getIpx : (getIpx d).ReadsOk ↔ d.ReadsOk := by
  unfold getIpx
  dsimp only [readU16, pntohs, readByte]
  split
  · rfl
  next hlong =>
    have hlen : 30 ≤ d.window.len := not_lt.mp hlong
    have hchecksum : (d.touch 0 2).ReadsOk ↔ d.ReadsOk := readsOk_touch_of_le (by omega)
    split
    · exact hchecksum
    · have hread : ((((((d.touch 0 2).decodeProtoAdd "IPX").touch 16 2).touch 28 2).touch 5 1).touch
          2 2).ReadsOk ↔ d.ReadsOk := by
        rw [readsOk_touch_of_le, readsOk_touch_of_le, readsOk_touch_of_le, readsOk_touch_of_le,
          readsOk_decodeProtoAdd, hchecksum]
        all_goals exact le_trans (by decide) hlen
      exact readsOk_ite (readsOk_decodeProtoAddCase.trans hread)
        (readsOk_decodeProtoAddCase.trans (readsOk_decodeProtoAddCase.trans hread))

end Network

/-! ### Link layer -/

section Fits

variable (conversations : Conversations) (mode : ApeMode)

def ethIIFits (src dst : NodeAddr) (etype : Nat) (w : Window) : Prop :=
  etype = ethertypeIp ∨ etype = ethertypeIpv6 → ipFits conversations mode src dst w

/-- `get_llc` checks for 4 bytes, but a SNAP header has 8. -/
def llcFits (src dst : NodeAddr) (w : Window) : Prop :=
  4 ≤ w.len →
    ((w.get 0).toNat = sapSnap ∧ (w.get 1).toNat = sapSnap →
      8 ≤ w.len ∧ ethIIFits conversations mode src dst (w.u16 6) (w.advance 8)) ∧
    (¬((w.get 0).toNat = sapSnap ∧ (w.get 1).toNat = sapSnap) →
      xdlcIsInformation (w.get 2).toNat → (w.get 0).toNat = sapIp →
        ipFits conversations mode src dst (w.advance 3))

def macAddr (addr : NodeAddr) (w : Window) (offset : Nat) : NodeAddr :=
  addr.setEth fun j => w.get (offset + j)

def ethTypeAtFits (src dst : NodeAddr) (sizeOffset ethsize : Nat) (w : Window) : Prop :=
  (ethsize ≤ 1500 → ¬w.hasBytes (sizeOffset + 2) [0xff, 0xff] →
    ¬w.hasBytes 0 [0x01, 0x00, 0x0C, 0x00, 0x00] →
      llcFits conversations mode (macAddr src w 6) (macAddr dst w 0) (w.advance (sizeOffset + 2))) ∧
  (1500 < ethsize →
    ethIIFits conversations mode (macAddr src w 6) (macAddr dst w 0) ethsize
      (w.advance (sizeOffset + 2)))

def ethTypeFits (src dst : NodeAddr) (w : Window) : Prop :=
  20 ≤ w.len →
    (w.u16 12 = ethertypeVlan → ethTypeAtFits conversations mode src dst 16 (w.u16 16) w) ∧
    (w.u16 12 ≠ ethertypeVlan → ethTypeAtFits conversations mode src dst 12 (w.u16 12) w)

def fddiTypeFits (src dst : NodeAddr) (w : Window) : Prop :=
  21 ≤ w.len → w.hasBytes 19 [0x08, 0x00] →
    ipFits conversations mode (macAddr src w 7) (macAddr dst w 1) (w.advance 21)

def ieee8025TypeFits (src dst : NodeAddr) (w : Window) : Prop :=
  22 ≤ w.len → w.hasBytes 20 [0x08, 0x00] →
    ipFits conversations mode (macAddr src w 8) (macAddr dst w 2) (w.advance 22)

/-- `get_linux_sll` reads the type at the end of its 16 bytes without a look at the length. -/
def linuxSllFits (src dst : NodeAddr) (w : Window) : Prop :=
  16 ≤ w.len ∧ ethIIFits conversations mode src dst (w.u16 14) (w.advance 16)

/-- Only an unencrypted data frame is decoded further. -/
def wlanFrameFits (src dst : NodeAddr) (type subtype wep : Nat) (w : Window) : Prop :=
  type = 2 → wep = 0 →
    llcFits conversations mode src dst (if subtype = 8 then w.advance 2 else w)

def wlanAddrsFits (src dst : NodeAddr) (type subtype fromtods wep : Nat) (w : Window) : Prop :=
  wlanDstofs fromtods + 6 ≤ w.len → wlanSrcofs fromtods + 6 ≤ w.len →
    wlanFrameFits conversations mode (macAddr src w (wlanSrcofs fromtods))
      (macAddr dst w (wlanDstofs fromtods)) type subtype wep
      (w.advance (if fromtods ≠ 3 then 24 else 30))

def wlanFits (src dst : NodeAddr) (w : Window) : Prop :=
  10 ≤ w.len →
    wlanAddrsFits conversations mode src dst ((w.get 0).toNat / 4 % 4) ((w.get 0).toNat / 16)
      ((w.get 1).toNat % 4) ((w.get 1).toNat / 64 % 2) w

def radiotapFits (src dst : NodeAddr) (w : Window) : Prop :=
  32 ≤ w.len → wlanFits conversations mode src dst (w.advance (w.u16le 2))

end Fits

section Link

variable {d : DecodeState} {env : DecodeEnv}

theorem readsOk_getEthII {etype : Nat} : (getEthII env etype d).ReadsOk ↔
    d.ReadsOk ∧
      ethIIFits d.conversations env.mode d.srcNodeId.addr d.dstNodeId.addr etype d.window := by
  unfold getEthII ethIIFits
  split
  next hip =>
    rw [readsOk_getIp]
    simp [hip]
  next hip =>
    exact (readsOk_ite readsOk_getIpx readsOk_decodeProtoAddCase).trans
      (and_iff_left fun h => absurd h hip).symm

theorem readsOk_getLlcSap {dsap : Nat} : (getLlcSap env dsap d).ReadsOk ↔
    d.ReadsOk ∧ (dsap = sapIp →
      ipFits d.conversations env.mode d.srcNodeId.addr d.dstNodeId.addr d.window) := by
  unfold getLlcSap
  split
  next hip =>
    rw [readsOk_getIp]
    simp [hip]
  next hip =>
    have hlabel : (getNetbios (d.decodeProtoAdd "NETBIOS")).ReadsOk ↔ d.ReadsOk :=
      readsOk_getNetbios.trans readsOk_decodeProtoAdd
    exact (readsOk_ite readsOk_getIpx (readsOk_ite hlabel readsOk_decodeProtoAddCase)).trans
      (and_iff_left fun h => absurd h hip).symm

theorem readsOk_getLlc : (getLlc env d).ReadsOk ↔
    d.ReadsOk ∧ llcFits d.conversations env.mode d.srcNodeId.addr d.dstNodeId.addr d.window := by
  unfold getLlc llcFits
  dsimp only [readByte, pntohs]
  split
  next hshort => simp [not_le.mpr hshort]
  next hlong =>
    have hlen : 4 ≤ d.window.len := not_lt.mp hlong
    have hsaps : ((d.touch 0 1).touch 1 1).ReadsOk ↔ d.ReadsOk := by
      rw [readsOk_touch_of_le, readsOk_touch_of_le]
      · exact le_trans (by decide) hlen
      · exact le_trans (by decide) hlen
    split
    next hsnap =>
      rw [touch_window] at hsnap
      rw [readsOk_getEthII, readsOk_addOffset, readsOk_touch two_pos, hsaps]
      simp [hsnap, hlen, and_assoc]
    next hsnap =>
      rw [touch_window] at hsnap
      have hcontrol : ((((d.touch 0 1).touch 1 1).decodeProtoAdd "LLC").touch 2 1).ReadsOk ↔
          d.ReadsOk := by
        rw [readsOk_touch_of_le, readsOk_decodeProtoAdd, hsaps]
        exact le_trans (by decide) hlen
      split
      next hcommand =>
        have hcommand' : ¬xdlcIsInformation (d.window.get 2).toNat := hcommand
        simp only [hcontrol, hcommand', hsnap, false_implies, implies_true, and_true]
      next hinfo =>
        have hinfo' : xdlcIsInformation (d.window.get 2).toNat := not_not.mp hinfo
        rw [readsOk_getLlcSap, readsOk_addOffset, hcontrol]
        simp only [addOffset_window, addOffset_conversations, addOffset_srcNodeId,
          addOffset_dstNodeId, touch_window, touch_conversations, touch_srcNodeId, touch_dstNodeId,
          decodeProtoAdd_window, decodeProtoAdd_conversations, decodeProtoAdd_srcNodeId,
          decodeProtoAdd_dstNodeId, hlen, hsnap, hinfo', false_implies, not_false_eq_true,
          forall_const, true_and]

section SetLink6NodeIds

variable (dstofs srcofs : Nat)

@[simp] theorem setLink6NodeIds_conversations :
    (setLink6NodeIds dstofs srcofs d).conversations = d.conversations := rfl

@[simp] theorem setLink6NodeIds_srcNodeId : (setLink6NodeIds dstofs srcofs d).srcNodeId =
    ⟨.link6, macAddr d.srcNodeId.addr d.window srcofs⟩ := rfl

@[simp] theorem setLink6NodeIds_dstNodeId : (setLink6NodeIds dstofs srcofs d).dstNodeId =
    ⟨.link6, macAddr d.dstNodeId.addr d.window dstofs⟩ := rfl

theorem readsOk_setLink6NodeIds {dstofs srcofs : Nat} (hdst : dstofs + 6 ≤ d.window.len)
    (hsrc : srcofs + 6 ≤ d.window.len) :
    (setLink6NodeIds dstofs srcofs d).ReadsOk ↔ d.ReadsOk := by
  unfold setLink6NodeIds
  dsimp only [readBytes]
  rw [readsOk_setSrcNodeId, readsOk_touch_of_le, readsOk_setDstNodeId, readsOk_touch_of_le]
  · exact hdst
  · exact hsrc

end SetLink6NodeIds

theorem readsOk_getEthTypeAt {sizeOffset ethsize : Nat} (hsize : sizeOffset ≤ 16)
    (hlen : 20 ≤ d.window.len) : (getEthTypeAt env sizeOffset ethsize d).ReadsOk ↔
      d.ReadsOk ∧ ethTypeAtFits d.conversations env.mode d.srcNodeId.addr d.dstNodeId.addr sizeOffset
        ethsize d.window := by
  unfold getEthTypeAt ethTypeAtFits
  dsimp only
  split
  next hsmall =>
    have hlarge : ¬1500 < ethsize := not_lt.mpr hsmall
    set d' := ((d.matchBytes (sizeOffset + 2) [0xff, 0xff]).2.matchBytes 0
      [0x01, 0x00, 0x0C, 0x00, 0x00]).2 with hd'
    have hmatch : d'.ReadsOk ↔ d.ReadsOk := by
      rw [hd', readsOk_matchBytes, readsOk_matchBytes]
      · show sizeOffset + 2 + 2 ≤ d.window.len
        omega
      · rw [matchBytes_window]
        show 0 + 5 ≤ d.window.len
        omega
    have hwindow : d'.window = d.window := by simp [hd']
    have hmacs : (setLink6NodeIds 0 6 d').ReadsOk ↔ d.ReadsOk := by
      rw [readsOk_setLink6NodeIds, hmatch]
      · rw [hwindow]
        omega
      · rw [hwindow]
        omega
    rw [matchBytes_fst, matchBytes_fst, matchBytes_window]
    split
    next hisl => simp [hmatch, hisl, hlarge]
    next hisl =>
      split
      next hraw => simp [hmacs, hraw, hlarge]
      next hraw =>
        rw [readsOk_getLlc, readsOk_decodeProtoAdd, readsOk_addOffset, hmacs]
        simp [hsmall, hlarge, hisl, hraw, hd']
  next hlarge =>
    have hmacs : (setLink6NodeIds 0 6 d).ReadsOk ↔ d.ReadsOk :=
      readsOk_setLink6NodeIds (by omega) (by omega)
    rw [readsOk_getEthII, readsOk_decodeProtoAdd, readsOk_addOffset, hmacs]
    simp [hlarge, not_le.mp hlarge]

theorem readsOk_getEthType : (getEthType env d).ReadsOk ↔
    d.ReadsOk ∧ ethTypeFits d.conversations env.mode d.srcNodeId.addr d.dstNodeId.addr d.window := by
  unfold getEthType ethTypeFits
  dsimp only [pntohs]
  split
  next hshort => simp [not_le.mpr hshort]
  next hlong =>
    have hlen : 20 ≤ d.window.len := not_lt.mp hlong
    have hsize : (d.touch 12 2).ReadsOk ↔ d.ReadsOk := readsOk_touch_of_le (by omega)
    split
    next hvlan =>
      set d' := if env.debugEnabled then ((d.touch 12 2).decodeProtoAdd "802.1Q").touch 14 2
        else (d.touch 12 2).decodeProtoAdd "802.1Q" with hd'
      have hdebug : (d'.ReadsOk ↔ d.ReadsOk) ∧ d'.window = d.window ∧
          d'.conversations = d.conversations ∧ d'.srcNodeId = d.srcNodeId ∧
          d'.dstNodeId = d.dstNodeId := by
        rw [hd']
        split
        · refine ⟨?_, rfl, rfl, rfl, rfl⟩
          rw [readsOk_touch_of_le, readsOk_decodeProtoAdd, hsize]
          exact le_trans (by decide) hlen
        · exact ⟨hsize, rfl, rfl, rfl, rfl⟩
      obtain ⟨hreads, hwindow, hconversations, hsrc, hdst⟩ := hdebug
      have htag : (d'.touch 16 2).ReadsOk ↔ d.ReadsOk := by
        rw [readsOk_touch_of_le, hreads]
        rw [hwindow]
        omega
      rw [readsOk_getEthTypeAt le_rfl (by rwa [touch_window, hwindow]), htag]
      simp [hlen, hvlan, hwindow, hconversations, hsrc, hdst]
    next hvlan =>
      rw [readsOk_getEthTypeAt (by omega) (by rwa [touch_window]), hsize]
      simp [hlen, hvlan]

theorem readsOk_getFddiType : (getFddiType env d).ReadsOk ↔
    d.ReadsOk ∧ fddiTypeFits d.conversations env.mode d.srcNodeId.addr d.dstNodeId.addr d.window := by
  unfold getFddiType fddiTypeFits
  dsimp only
  split
  next hshort =>
    have hlen : ¬21 ≤ d.window.len := fun h => absurd (show d.window.len < 14 from hshort) (by omega)
    simp [hlen]
  next hlong =>
    have hlen : 14 ≤ d.window.len := not_lt.mp hlong
    have hmacs : (setLink6NodeIds 1 7 ((d.decodeProtoAdd "FDDI").decodeProtoAdd "LLC")).ReadsOk ↔
        d.ReadsOk := by
      rw [readsOk_setLink6NodeIds, readsOk_decodeProtoAdd, readsOk_decodeProtoAdd]
      · exact le_trans (by decide) hlen
      · exact le_trans (by decide) hlen
    split
    next hshort =>
      have hlen' : ¬21 ≤ d.window.len := not_le.mpr hshort
      simp [hmacs, hlen']
    next hlong =>
      have hlen' : 21 ≤ d.window.len := not_lt.mp hlong
      have hmatch : ((setLink6NodeIds 1 7 ((d.decodeProtoAdd "FDDI").decodeProtoAdd "LLC")).matchBytes
          19 [0x08, 0x00]).2.ReadsOk ↔ d.ReadsOk := (readsOk_matchBytes hlen').trans hmacs
      rw [matchBytes_fst]
      split
      next hip =>
        rw [setLink6NodeIds_window, decodeProtoAdd_window, decodeProtoAdd_window] at hip
        rw [readsOk_getIp, readsOk_addOffset, hmatch]
        simp [hlen', hip]
      next hip =>
        rw [setLink6NodeIds_window, decodeProtoAdd_window, decodeProtoAdd_window] at hip
        simp [hmatch, hip]

theorem readsOk_getIeee8025Type : (getIeee8025Type env d).ReadsOk ↔
    d.ReadsOk ∧
      ieee8025TypeFits d.conversations env.mode d.srcNodeId.addr d.dstNodeId.addr d.window := by
  unfold getIeee8025Type ieee8025TypeFits
  dsimp only
  split
  next hshort =>
    have hlen : ¬22 ≤ d.window.len := fun h => absurd (show d.window.len < 15 from hshort) (by omega)
    simp [hlen]
  next hlong =>
    have hlen : 15 ≤ d.window.len := not_lt.mp hlong
    have hmacs : (setLink6NodeIds 2 8 (d.decodeProtoAdd "Token Ring")).ReadsOk ↔ d.ReadsOk := by
      rw [readsOk_setLink6NodeIds, readsOk_decodeProtoAdd]
      · exact le_trans (by decide) hlen
      · exact le_trans (by decide) hlen
    split
    next hshort =>
      have hlen' : ¬22 ≤ d.window.len := not_le.mpr hshort
      simp [hmacs, hlen']
    next hlong =>
      have hlen' : 22 ≤ d.window.len := not_lt.mp hlong
      have hmatch : (((setLink6NodeIds 2 8 (d.decodeProtoAdd "Token Ring")).decodeProtoAdd
          "LLC").matchBytes 20 [0x08, 0x00]).2.ReadsOk ↔ d.ReadsOk :=
        (readsOk_matchBytes hlen').trans (readsOk_decodeProtoAdd.trans hmacs)
      rw [matchBytes_fst]
      split
      next hip =>
        rw [decodeProtoAdd_window, setLink6NodeIds_window, decodeProtoAdd_window] at hip
        rw [readsOk_getIp, readsOk_addOffset, hmatch]
        simp [hlen', hip]
      next hip =>
        rw [decodeProtoAdd_window, setLink6NodeIds_window, decodeProtoAdd_window] at hip
        simp [hmatch, hip]

theorem readsOk_getLoop : (getLoop env d).ReadsOk ↔ d.ReadsOk ∧
    ipFits d.conversations env.mode d.srcNodeId.addr d.dstNodeId.addr (d.window.advance 4) := by
  unfold getLoop
  rw [readsOk_getIp]
  simp

theorem readsOk_getLinuxSll : (getLinuxSll env d).ReadsOk ↔
    d.ReadsOk ∧ linuxSllFits d.conversations env.mode d.srcNodeId.addr d.dstNodeId.addr d.window := by
  unfold getLinuxSll linuxSllFits
  dsimp only [pntohs]
  rw [readsOk_getEthII, readsOk_addOffset, readsOk_touch two_pos]
  simp [and_assoc]

theorem readsOk_getWlanCtrl {subtype srcofs : Nat} :
    (getWlanCtrl subtype srcofs d).ReadsOk ↔ d.ReadsOk := by
  unfold getWlanCtrl
  dsimp only [readBytes]
  split
  · split
    · rfl
    next hlong =>
      rw [readsOk_decodeProtoAdd, readsOk_addOffset, readsOk_setSrcNodeId,
        readsOk_touch_of_le (not_lt.mp hlong)]
  · exact readsOk_decodeProtoAdd.trans readsOk_addOffset

theorem readsOk_getWlanFrame {type subtype wep : Nat} :
    (getWlanFrame env type subtype wep d).ReadsOk ↔ d.ReadsOk ∧
      wlanFrameFits d.conversations env.mode d.srcNodeId.addr d.dstNodeId.addr type subtype wep
        d.window := by
  unfold getWlanFrame wlanFrameFits
  split
  next hdata =>
    split
    next hwep =>
      rw [readsOk_getLlc]
      split <;> simp [hdata, hwep]
    next hwep => simp [hwep]
  next hdata =>
    exact (readsOk_ite readsOk_decodeProtoAdd Iff.rfl).trans
      (and_iff_left fun h => absurd h hdata).symm

theorem readsOk_getWlanAddrs {type subtype fromtods wep : Nat} :
    (getWlanAddrs env type subtype fromtods wep d).ReadsOk ↔ d.ReadsOk ∧
      wlanAddrsFits d.conversations env.mode d.srcNodeId.addr d.dstNodeId.addr type subtype fromtods
        wep d.window := by
  unfold getWlanAddrs wlanAddrsFits
  dsimp only [readBytes]
  split
  next hshort => simp [not_le.mpr hshort]
  next hlong =>
    have hdst : wlanDstofs fromtods + 6 ≤ d.window.len := not_lt.mp hlong
    split
    next hctrl =>
      rw [readsOk_getWlanCtrl, readsOk_setDstNodeId, readsOk_touch_of_le hdst]
      simp [wlanFrameFits, hctrl]
    next hctrl =>
      split
      next hshort =>
        rw [setDstNodeId_window, touch_window] at hshort
        rw [readsOk_setDstNodeId, readsOk_touch_of_le hdst]
        simp [not_le.mpr hshort]
      next hlong =>
        have hsrc : wlanSrcofs fromtods + 6 ≤ d.window.len := not_lt.mp hlong
        rw [readsOk_getWlanFrame, readsOk_addOffset, readsOk_setSrcNodeId,
          readsOk_touch_of_le (by simpa using hsrc), readsOk_setDstNodeId, readsOk_touch_of_le hdst]
        simp [hdst, hsrc, macAddr]

theorem readsOk_getWlan : (getWlan env d).ReadsOk ↔
    d.ReadsOk ∧ wlanFits d.conversations env.mode d.srcNodeId.addr d.dstNodeId.addr d.window := by
  unfold getWlan wlanFits
  dsimp only [readByte]
  split
  next hshort =>
    rw [decodeProtoAdd_window] at hshort
    simp [not_le.mpr hshort]
  next hlong =>
    have hlen : 10 ≤ d.window.len := not_lt.mp hlong
    rw [readsOk_getWlanAddrs, readsOk_touch_of_le, readsOk_touch_of_le, readsOk_touch_of_le,
      readsOk_touch_of_le]
    · simp [hlen]
    all_goals exact le_trans (by decide) hlen

theorem readsOk_getRadiotap : (getRadiotap env d).ReadsOk ↔
    d.ReadsOk ∧ radiotapFits d.conversations env.mode d.srcNodeId.addr d.dstNodeId.addr d.window := by
  unfold getRadiotap radiotapFits
  dsimp only [readU16]
  split
  next hshort => simp [not_le.mpr hshort]
  next hlong =>
    have hlen : 32 ≤ d.window.len := not_lt.mp hlong
    have hrtlen : (d.touch 2 2).ReadsOk ↔ d.ReadsOk := readsOk_touch_of_le (by omega)
    rw [readsOk_getWlan, readsOk_addOffset, hrtlen]
    simp [hlen]

end Link

/-! ### Dispatch -/

section Fits

variable (conversations : Conversations) (mode : ApeMode)

/-- The condition of a decoder of the table; what follows a PPI header is treated apart. -/
def GetFun.fits (src dst : NodeAddr) (w : Window) : GetFun → Prop
  | getEthType => ethTypeFits conversations mode src dst w
  | getIp => ipFits conversations mode src dst w
  | getLinuxSll => linuxSllFits conversations mode src dst w
  | getLoop => ipFits conversations mode src dst (w.advance 4)
  | getFddiType => fddiTypeFits conversations mode src dst w
  | getIeee8025Type => ieee8025TypeFits conversations mode src dst w
  | getWlan => wlanFits conversations mode src dst w
  | getRadiotap => radiotapFits conversations mode src dst w
  | getPpi => True

/-- Behind each PPI header, the decoder it announces has to fit. -/
def ppiFits (src dst : NodeAddr) (w : Window) : Prop :=
  ∀ w', PpiNested w w' → 64 ≤ w'.len → ∀ entry, findLinktype (w'.u32le 4) = some entry →
    entry.val.getFun.fits conversations mode src dst (w'.advance (w'.u16le 2))

def linktypeFits (lkentry : Linktype) (src dst : NodeAddr) (w : Window) : Prop :=
  if lkentry.val.getFun = .getPpi then ppiFits conversations mode src dst w
  else lkentry.val.getFun.fits conversations mode src dst w

end Fits

section Dispatch

variable {d : DecodeState} {env : DecodeEnv}

theorem readsOk_call {f : GetFun} (hf : f ≠ .getPpi) {ppi : DecodeState → Outcome} :
    (f.call env ppi d).state.ReadsOk ↔ d.ReadsOk ∧
      f.fits d.conversations env.mode d.srcNodeId.addr d.dstNodeId.addr d.window := by
  cases f with
  | getEthType => exact readsOk_getEthType
  | getIp => exact readsOk_getIp
  | getLinuxSll => exact readsOk_getLinuxSll
  | getLoop => exact readsOk_getLoop
  | getFddiType => exact readsOk_getFddiType
  | getIeee8025Type => exact readsOk_getIeee8025Type
  | getWlan => exact readsOk_getWlan
  | getRadiotap => exact readsOk_getRadiotap
  | getPpi => exact absurd rfl hf

theorem readsOk_ppiPayload (hlen : 64 ≤ d.window.len) (entry : Option Linktype) :
    (ppiPayload d entry).ReadsOk ↔ d.ReadsOk := by
  rw [ppiPayload, readsOk_setPphLkentry, readsOk_addOffset, readsOk_touch_of_le, readsOk_touch_of_le]
  · exact le_trans (by decide) hlen
  · exact le_trans (by decide) hlen

/-- Every nested header is reached, so what it announces has to fit. -/
theorem fits_of_readsOk_getPpi {w : Window} (hw : PpiNested d.window w)
    (h : ∀ calls, (getPpi env calls d).state.ReadsOk) (hlen : 64 ≤ w.len) {entry : Linktype}
    (hentry : findLinktype (w.u32le 4) = some entry) :
    entry.val.getFun.fits d.conversations env.mode d.srcNodeId.addr d.dstNodeId.addr
      (w.advance (w.u16le 2)) := by
  generalize hd : d.window = w₀ at hw
  induction hw generalizing d with
  | here w =>
      subst hd
      by_cases hppi : entry.val.getFun = .getPpi
      · rw [hppi]
        trivial
      · have hcall := h 1
        rw [getPpi_succ, if_neg (not_lt.mpr hlen), hentry] at hcall
        exact ((readsOk_call hppi).mp hcall).2
  | nested hlen' hdlt _ ih =>
      subst hd
      obtain ⟨next, hnext⟩ := @getPpi_succ_nested env d hlen' hdlt
      have hrest : ∀ calls, (getPpi env calls (ppiPayload d next)).state.ReadsOk := by
        intro calls
        rw [← hnext]
        exact h (calls + 1)
      exact ih (d := ppiPayload d next) hrest hlen hentry rfl

theorem readsOk_getPpi_of_fits
    (h : ppiFits d.conversations env.mode d.srcNodeId.addr d.dstNodeId.addr d.window)
    (hd : d.ReadsOk) (calls : Nat) : (getPpi env calls d).state.ReadsOk := by
  induction calls generalizing d with
  | zero => exact hd
  | succ calls ih =>
      rw [getPpi_succ]
      split
      · exact hd
      next hlong =>
        have hlen : 64 ≤ d.window.len := not_lt.mp hlong
        split
        next entry hentry =>
          have hpayload := (readsOk_ppiPayload hlen (some entry)).mpr hd
          by_cases hppi : entry.val.getFun = .getPpi
          · rw [hppi]
            have hdlt : d.window.u32le 4 = dltPpi := by
              rw [← findLinktype_eq_some_iff.mp hentry, (getFun_eq_getPpi_iff entry).mp hppi]
            exact ih (fun w hw => h w (.nested hlen hdlt hw)) hpayload
          · exact (readsOk_call hppi).mpr ⟨hpayload, h _ (.here _) hlen entry hentry⟩
        · exact (readsOk_ppiPayload hlen none).mpr hd

theorem readsOk_copyTopmost : (copyTopmost d).ReadsOk ↔ d.ReadsOk := by
  unfold copyTopmost
  split <;> rfl

theorem readsOk_getPacketProt {calls : Nat} : (getPacketProt env calls d).state.ReadsOk ↔
    (env.lkentry.val.getFun.call env (getPpi env calls) d).state.ReadsOk := by
  unfold getPacketProt
  cases env.lkentry.val.getFun.call env (getPpi env calls) d with
  | finished d' => exact readsOk_copyTopmost
  | unfinished d' => rfl

/-- However far decoding gets, its reads are in place exactly when the decoders fit. -/
theorem readsOk_getPacketProt_iff : (∀ calls, (getPacketProt env calls d).state.ReadsOk) ↔
    d.ReadsOk ∧ linktypeFits d.conversations env.mode env.lkentry d.srcNodeId.addr d.dstNodeId.addr
      d.window := by
  simp only [readsOk_getPacketProt, linktypeFits]
  split
  next hppi =>
    rw [hppi]
    constructor
    · exact fun h => ⟨h 0, fun w hw hlen entry hentry => fits_of_readsOk_getPpi hw h hlen hentry⟩
    · exact fun h calls => readsOk_getPpi_of_fits h.2 h.1 calls
  next hppi =>
    simp only [readsOk_call hppi]
    exact forall_const Nat

end Dispatch

/-- Decoding a capture reads through `cur_packet` only inside the window it is at, and inside the
capture, exactly when the conditions of the decoders hold. -/
theorem getPacketProt_reads_iff (env : DecodeEnv) (bytes : Nat → UInt8) (caplen : Nat)
    (conversations : Conversations) (pphLkentry : Option Linktype) :
    (∀ calls, ∀ a ∈ (getPacketProt env calls
        (decodeProtoStart bytes caplen conversations pphLkentry)).state.reads, a.Within caplen) ↔
      linktypeFits conversations env.mode env.lkentry NodeId.clear.addr NodeId.clear.addr
        (Window.whole bytes caplen) := by
  have hstart : (decodeProtoStart bytes caplen conversations pphLkentry).ReadsOk :=
    fun a ha => absurd ha List.not_mem_nil
  have hiff := @readsOk_getPacketProt_iff (decodeProtoStart bytes caplen conversations pphLkentry) env
  simp only [DecodeState.ReadsOk, getPacketProt_size] at hiff
  exact hiff.trans (and_iff_right hstart)

/-- A cooked capture of two bytes is read at the type field behind its end. -/
theorem getPacketProt_short_sll : ¬∀ calls, ∀ a ∈ (getPacketProt
    (DecodeEnv.bare (linktypeAt 2) .ip) calls
      (decodeProtoStart (fun _ => 0) 2 Conversations.empty none)).state.reads, a.Within 2 := by
  intro h
  have hread := h 0 ⟨14, 0, 2⟩ (by decide)
  exact absurd hread.1 (by decide)

end EtherApe
