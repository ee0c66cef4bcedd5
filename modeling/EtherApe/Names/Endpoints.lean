import Mathlib.Tactic.FinCases
import Mathlib.Tactic.IntervalCases
import EtherApe.DecodeProto.Endpoints
import EtherApe.DecodeProto.Payloads
import EtherApe.Names.Levels

/-!
# Names of TCP endpoints

The name of a TCP endpoint is registered for a node id that the name decoder puts together from the packet
anew. It looks for the address at a fixed place in front of the TCP header, which is the one where an IP
header without options has it. A payload whose own name is that of TCP is taken for one more TCP header.
-/

namespace EtherApe

open CInt

/-! ### Ids from bytes -/

section Ids

theorem copiedAddress_eq_iff {n : Nat} (hn : n ≤ 16) {family : Nat} (hfamily : family < 256)
    {src : Nat → UInt8} {a : Octets n} :
    (Address.clear.setType family).setAddr n src =
        IpHeader.address (UInt8.ofNat family) (List.ofFn a) ↔
      ∀ j (hj : j < n), src j = a ⟨j, hj⟩ := by
  constructor
  · intro h j hj
    have hbyte := congrFun h ⟨4 + j, by omega⟩
    rw [setAddr_apply, if_pos ⟨Nat.le_add_right 4 j, by dsimp only; omega⟩] at hbyte
    dsimp only at hbyte
    rw [Nat.add_sub_cancel_left] at hbyte
    rw [hbyte]
    show ([UInt8.ofNat family, 0, 0, 0] ++ List.ofFn a).getD (4 + j) 0 = a ⟨j, hj⟩
    rw [List.getD_append_right _ _ _ _ (Nat.le_add_right 4 j)]
    show (List.ofFn a).getD (4 + j - 4) 0 = a ⟨j, hj⟩
    rw [Nat.add_sub_cancel_left, getD_ofFn, dif_pos hj]
  · intro h
    refine address_eq (fun k hk => ?_) fun k hk => ?_
    · rw [setAddr_apply, if_neg (by omega), setType_apply, if_pos hk]
      obtain ⟨k, hk'⟩ := k
      dsimp only at hk ⊢
      have hhigh (m : Nat) (hm : 256 ≤ m) : UInt8.ofNat (family / m) = 0 := by
        rw [Nat.div_eq_of_lt (hfamily.trans_le hm)]
        rfl
      interval_cases k
      · simp
      · exact hhigh _ (by decide)
      · exact hhigh _ (by decide)
      · exact hhigh _ (by decide)
    · rw [setAddr_apply, getD_ofFn]
      by_cases hlt : k.val - 4 < n
      · rw [if_pos ⟨hk, by omega⟩, dif_pos hlt]
        exact h _ hlt
      · rw [if_neg (by omega), dif_neg hlt, setType_apply, if_neg (by omega)]
        rfl

theorem tcpId_ip (a : Address) (port : Nat) : (tcpId a port).addr.ip = a := by
  rw [← tcpId_eq, NodeAddr.ip_setTcp4Port]
  exact NodeAddr.ip_setIp _ _

theorem tcpId_of_addr (addr : NodeAddr) (a : Address) (port : Nat) :
    (⟨.tcp, (addr.setTcp4Host a).setTcp4Port port⟩ : NodeId) = tcpId a port := by
  rw [← tcpId_eq]
  congr 1
  funext k
  simp only [NodeAddr.setTcp4Port, NodeAddr.setTcp4Host, NodeAddr.setIp, Octets.write]
  split
  · rfl
  · rw [if_pos (by omega), if_pos (by omega)]

theorem tcpId_port (a : Address) {port : Nat} (hport : port < 65536) : (tcpId a port).addr.tcp4Port = port := by
  rw [← tcpId_eq]
  show (UInt8.ofNat (port / 256 ^ 0)).toNat + 256 * (UInt8.ofNat (port / 256 ^ 1)).toNat = port
  rw [UInt8.toNat_ofNat', UInt8.toNat_ofNat']
  omega

theorem tcpId_eq_iff {a b : Address} {port port' : Nat} (hport : port < 65536) (hport' : port' < 65536) :
    tcpId a port = tcpId b port' ↔ a = b ∧ port = port' := by
  constructor
  · intro h
    refine ⟨?_, ?_⟩
    · rw [← tcpId_ip a port, h, tcpId_ip]
    · rw [← tcpId_port a hport, h, tcpId_port b hport']
  · intro h
    rw [h.1, h.2]

end Ids

/-! ### Copies behind a header -/

section Copies

variable {inp : NameInput}

theorem pntohs_lt (inp : NameInput) (i : Int) : inp.pntohs i < 65536 := by
  have hhigh := (inp.packet.p i).toNat_lt
  have hlow := (inp.packet.p (i + 1)).toNat_lt
  unfold NameInput.pntohs NameInput.byte
  omega

theorem fill_getTcpName (inp : NameInput) (off family : Nat) :
    NameFun.getTcpName.fill .tcp inp off family =
      some ⟨.tcp, off, -(tcpAddressBack inp family : Int), tcpPortOff inp, family⟩ := by
  rw [NameFun.fill, if_pos rfl]

theorem Fill.nodeId_type {f : Fill} (hmode : f.apemode = .ip ∨ f.apemode = .tcp)
    (htype : f.type < 2 ^ 32)
    (hfits : fillFits inp f.off f.disp f.portdisp (fillSize f.apemode f.type)) :
    (f.nodeId inp).addr.tcp4Host.type = f.type := by
  have hsize : fillSize f.apemode f.type = addressLen f.type := by
    rcases hmode with h | h
    all_goals rw [h]; rfl
  have hleft := @NameAdd.fillNodeId_type inp ⟨f.off, NodeId.clear, 0, [], []⟩ _ hmode f.disp
    f.portdisp _ htype
  rw [Fill.fillNodeId_nodeId] at hleft
  rw [hsize] at hfits
  exact hleft.trans (if_pos hfits)

/-- What the decoder of a TCP header leaves where there is enough data. -/
theorem Fill.nodeId_tcp {off family : Nat} {disp portdisp : Int}
    (hfits : fillFits inp off disp portdisp (addressLen family)) :
    Fill.nodeId inp ⟨.tcp, off, disp, portdisp, family⟩ =
      tcpId ((Address.clear.setType family).setAddr (addressLen family)
        fun k => inp.packet.p (off + disp + k)) (inp.pntohs (off + portdisp)) := by
  have hcopied : fillFits inp off disp portdisp (fillSize .tcp family) := hfits
  rw [Fill.nodeId_of_fits hcopied]
  exact tcpId_of_addr _ _ _

end Copies

/-! ### TCP over Ethernet -/

namespace IpHeader

def label : IpHeader → String
  | v4 _ => "IP"
  | v6 _ => "IPV6"

def nameFun : IpHeader → NameFun
  | v4 _ => .getIpName
  | v6 _ => .getIpv6Name

def family : IpHeader → Nat
  | v4 _ => afInet
  | v6 _ => afInet6

def endpoint (ip : IpHeader) (dir : PacketDirection) : Address :=
  if dir = .inbound then ip.dst else ip.src

theorem family_lt (ip : IpHeader) : ip.family < 2 ^ 32 := by
  cases ip with
  | v4 _ => exact (by decide : afInet < 2 ^ 32)
  | v6 _ => exact (by decide : afInet6 < 2 ^ 32)

theorem bytes_length_le (ip : IpHeader) (protocol : Nat) : (ip.bytes protocol).length ≤ 60 := by
  cases ip with
  | v4 h =>
      have hlength := h.bytes_length protocol
      have hwords := h.optionWords.isLt
      rw [IpHeader.bytes, hlength]
      omega
  | v6 h =>
      rw [IpHeader.bytes, h.bytes_length]
      decide

def endpointBytes (ip : IpHeader) (dir : PacketDirection) : List UInt8 :=
  match ip with
  | v4 h => List.ofFn (if dir = .inbound then h.dst else h.src)
  | v6 h => List.ofFn (if dir = .inbound then h.dst else h.src)

/-- The address that `fill_node_id` copies is the one of the endpoint just when the bytes are. -/
theorem copied_eq_endpoint_iff (ip : IpHeader) (dir : PacketDirection) (src : Nat → UInt8) :
    (Address.clear.setType ip.family).setAddr (addressLen ip.family) src = ip.endpoint dir ↔
      ∀ j (hj : j < (ip.endpointBytes dir).length), src j = (ip.endpointBytes dir)[j] := by
  cases ip with
  | v4 h =>
      have hiff := @copiedAddress_eq_iff 4 (by decide) afInet (by decide) src
        (if dir = .inbound then h.dst else h.src)
      unfold endpointBytes
      simp only [List.length_ofFn, List.getElem_ofFn]
      rw [← hiff]
      unfold endpoint
      split_ifs
      all_goals exact Iff.rfl
  | v6 h =>
      have hiff := @copiedAddress_eq_iff 16 (by decide) afInet6 (by decide) src
        (if dir = .inbound then h.dst else h.src)
      unfold endpointBytes
      simp only [List.length_ofFn, List.getElem_ofFn]
      rw [← hiff]
      unfold endpoint
      split_ifs
      all_goals exact Iff.rfl

theorem endpoint_ne_clear (ip : IpHeader) (dir : PacketDirection) : ip.endpoint dir ≠ Address.clear := by
  intro h
  have hfirst := congrFun h 0
  revert hfirst
  unfold endpoint
  cases ip with
  | v4 _ =>
      have hne : (2 : UInt8) ≠ 0 := by decide
      split_ifs
      · exact hne
      · exact hne
  | v6 _ =>
      have hne : (10 : UInt8) ≠ 0 := by decide
      split_ifs
      · exact hne
      · exact hne

/-- The bytes of an IPv4 header that stand where the address would be without options. -/
def AddressAtEnd (dir : PacketDirection) : IpHeader → Prop
  | v4 h => ∀ j : Fin 4,
      (h.bytes ipProtoTcp).getD (4 * h.optionWords.val + (if dir = .inbound then 16 else 12) + j.val) 0 =
        if dir = .inbound then h.dst j else h.src j
  | v6 _ => True

end IpHeader

theorem hasBytes_self (bs : List UInt8) :
    (Window.whole (fun i => bs.getD i 0) bs.length).hasBytes 0 bs := by
  apply Window.hasBytes_of_get
  intro j hj
  show bs.getD (0 + (0 + j)) 0 = bs[j]
  rw [Nat.zero_add, Nat.zero_add, List.getD_eq_getElem _ _ hj]

theorem getD_of_hasBytes_self {bs : List UInt8} {n i : Nat} {a : Octets n}
    (h : (Window.whole (fun i => bs.getD i 0) bs.length).hasBytes i (List.ofFn a)) (j : Fin n) :
    bs.getD (i + j.val) 0 = a j := by
  rw [← get_of_hasBytes_ofFn h j.isLt]
  show _ = bs.getD (0 + (i + j.val)) 0
  rw [Nat.zero_add]

theorem Ipv6Header.getD_addresses (h : Ipv6Header) (nextHeader : Nat) :
    (∀ j : Fin 16, (h.bytes nextHeader).getD (8 + j.val) 0 = h.src j) ∧
      ∀ j : Fin 16, (h.bytes nextHeader).getD (24 + j.val) 0 = h.dst j := by
  obtain ⟨_, _, hsrc, hdst⟩ := Ipv6Header.fields (hasBytes_self (h.bytes nextHeader))
  exact ⟨getD_of_hasBytes_self hsrc, getD_of_hasBytes_self hdst⟩

/-- Without options the addresses are where the name decoder looks for them. -/
theorem Ipv4Header.addressAtEnd {h : Ipv4Header} (hoptions : h.optionWords.val = 0)
    (dir : PacketDirection) : (IpHeader.v4 h).AddressAtEnd dir := by
  obtain ⟨_, _, _, hsrc, hdst⟩ := Ipv4Header.fields (hasBytes_self (h.bytes ipProtoTcp))
  intro j
  rw [hoptions, Nat.mul_zero, Nat.zero_add]
  split
  · exact getD_of_hasBytes_self hdst j
  · exact getD_of_hasBytes_self hsrc j

namespace EthFrame

variable {f : EthFrame} {payload : List UInt8} {packet : RawPacket}

theorem tagBytes_of_untagged (htag : f.tag = none) : (EthFrame.tagBytes f.tag).length = 0 := by
  rw [htag]
  rfl

theorem CapturedAs.behindIp_le {bytes : Nat → UInt8} {caplen : Nat}
    (h : f.CapturedAs payload bytes caplen) :
    14 + (EthFrame.tagBytes f.tag).length + (f.ip.bytes f.transport.protocol).length + 4 ≤ caplen := by
  refine le_trans ?_ h.headers_le
  simp only [EthFrame.headers, EthFrame.transportHeader, List.length_append, List.length_ofFn,
    be16_length]
  omega

def handover (packet : RawPacket) : Handover :=
  (((Handover.start (fun i => packet.p i) packet.packetSize).addMacs 0 6).skip 14).addName "ETH_II"

section Untagged

variable (hcaptured : f.CapturedAs payload (fun i => packet.p i) packet.packetSize) (htag : f.tag = none)

include hcaptured htag

theorem ethType_eq_handover :
    (Handover.start (fun i => packet.p i) packet.packetSize).ethType = some (handover packet) := by
  have hlong := hcaptured.behindIp_le
  obtain ⟨_, _, _, htype, _⟩ := EthFrame.fields hcaptured.hasBytes
  rw [tagBytes_of_untagged htag] at htype hlong
  have hetype : (Window.whole (fun i => packet.p i) packet.packetSize).u16 12 = f.ip.ethertype :=
    be16_u16 f.ip.ethertype_lt htype
  have hge := f.ip.bytes_length_ge f.transport.protocol
  have hlen : ¬(Window.whole (fun i => packet.p i) packet.packetSize).len < 20 := by
    show ¬packet.packetSize < 20
    omega
  unfold Handover.ethType Handover.start
  dsimp only
  rw [if_neg hlen, hetype, if_neg f.ip.ethertype_ne_vlan]
  unfold Handover.ethTypeAt
  cases f.ip <;> rfl

theorem packetHandover_eq_handover {env : DecodeEnv} (hdlt : env.lkentry.val.dltLinktype = dltEn10mb)
    {calls : Nat} :
    packetHandover env calls (fun i => packet.p i) packet.packetSize = some (handover packet) := by
  have hlkentry : env.lkentry = linktypeAt 0 := dltLinktype_injective hdlt
  rw [packetHandover, hlkentry]
  exact ethType_eq_handover hcaptured htag

theorem handover_window :
    (handover packet).window.hasBytes 0 (f.ip.bytes f.transport.protocol) ∧
      (handover packet).window.len = packet.packetSize - 14 := by
  obtain ⟨_, _, _, _, hip, _⟩ := EthFrame.fields hcaptured.hasBytes
  have hlong := hcaptured.behindIp_le
  rw [tagBytes_of_untagged htag] at hip hlong
  have hle : 14 ≤ (Window.whole (fun i => packet.p i) packet.packetSize).len := by
    show 14 ≤ packet.packetSize
    omega
  refine ⟨?_, Window.advance_len _ _⟩
  show ((Window.whole (fun i => packet.p i) packet.packetSize).advance 14).hasBytes 0 _
  rwa [Window.hasBytes_advance hle]

variable (htcp : f.transport.protocol = ipProtoTcp)

include htcp

theorem handover_ip (mode : ApeMode) :
    ∃ p, (handover packet).ip mode = some p ∧ p.ipType = ipProtoTcp ∧ p.fragmentOffset = 0 ∧
      (handover packet).ipLabel = f.ip.label := by
  obtain ⟨hip, hlen⟩ := handover_window hcaptured htag
  have hlong := hcaptured.behindIp_le
  rw [tagBytes_of_untagged htag] at hlong
  unfold Handover.ip Handover.ipLabel
  cases hcase : f.ip with
  | v4 h =>
      rw [hcase] at hip hlong
      have hlength : ((IpHeader.v4 h).bytes f.transport.protocol).length =
          20 + 4 * h.optionWords.val := h.bytes_length _
      obtain ⟨hfirst, hflags, hprotocol, _⟩ := Ipv4Header.fields hip
      have hwords := h.optionWords.isLt
      have hbyte : ((handover packet).window.get 0).toNat = 0x45 + h.optionWords.val := by
        rw [hfirst, UInt8.toNat_ofNat']
        omega
      rw [hbyte, if_neg (by omega), if_pos (by omega), if_neg (by omega), if_pos (by omega)]
      refine ⟨_, rfl, ?_, ?_, rfl⟩
      · show ((handover packet).window.get 9).toNat = ipProtoTcp
        rw [hprotocol, f.transport.toNat_protocol, htcp]
      · show (handover packet).window.u16 6 % 0x1000 = 0
        rw [Window.u16_of_hasBytes hflags, UInt8.toNat_ofNat', UInt8.toNat_zero]
        omega
  | v6 h =>
      rw [hcase] at hip hlong
      have hlength : ((IpHeader.v6 h).bytes f.transport.protocol).length = 40 := h.bytes_length _
      obtain ⟨hfirst, hnext, _⟩ := Ipv6Header.fields hip
      have hclass := h.trafficClassHigh.isLt
      have hbyte : ((handover packet).window.get 0).toNat = 0x60 + h.trafficClassHigh.val := by
        rw [hfirst, UInt8.toNat_ofNat']
        omega
      rw [hbyte, if_neg (by omega), if_neg (by omega), if_pos (by omega), if_neg (by omega),
        if_neg (by omega)]
      refine ⟨_, rfl, ?_, rfl, rfl⟩
      show ((handover packet).window.get 6).toNat = ipProtoTcp
      rw [hnext, f.transport.toNat_protocol, htcp]

/-- The names of a TCP segment in an untagged frame. -/
theorem added_eq {env : DecodeEnv} (hdlt : env.lkentry.val.dltLinktype = dltEn10mb) {calls : Nat}
    {conversations : Conversations} {pphLkentry : Option Linktype} {d : DecodeState}
    (hd : getPacketProt env calls (packet.decodeStart conversations pphLkentry) = .finished d) :
    ∃ names, AboveTcp names ∧ d.added.map Prod.fst = ["ETH_II", f.ip.label, "TCP"] ++ names := by
  obtain ⟨p, hp, htype, hfragment, hipLabel⟩ := handover_ip hcaptured htag htcp env.mode
  obtain ⟨d', rfl, hhands⟩ := getPacketProt_hands hd
  rw [packetHandover_eq_handover hcaptured htag hdlt] at hhands
  obtain ⟨d₀, hat, rfl⟩ := hhands.of_some
  obtain ⟨names, habove, hnames⟩ := @getIp_tcp_names env d₀ p (hat.handover.symm ▸ hp) htype hfragment
  refine ⟨names, habove, ?_⟩
  rw [copyTopmost_added, hnames, hat.handover, hipLabel, hat.names_eq]
  rfl

end Untagged

/-- The levels of a TCP segment in an untagged frame have its decoders. A payload whose name has the decoder
of TCP is next to the segment, or an RPC message is between them. -/
structure TcpNamed (f : EthFrame) (tokens : PacketProtos) : Prop where
  link : tokens.decoder 1 = some .getLink6Name
  ip : tokens.decoder 2 = some f.ip.nameFun
  tcp : tokens.decoder 3 = some .getTcpName
  above : ∀ level, 3 < level → tokens.decoder level = some .getTcpName →
    level = 4 ∨ level = 5 ∧ tokens.token 4 = some "ONC-RPC"

def tcpOffset (f : EthFrame) : Nat := 14 + (f.ip.bytes f.transport.protocol).length

section Names

variable {inp : NameInput}
  (hcaptured : f.CapturedAs payload (fun i => inp.packet.p i) inp.packet.packetSize)
  (htag : f.tag = none)

include hcaptured htag

theorem p_ip {i : Nat} (hi : i < (f.ip.bytes f.transport.protocol).length) :
    inp.packet.p (14 + i : Nat) = (f.ip.bytes f.transport.protocol).getD i 0 := by
  obtain ⟨hip, _⟩ := @handover_window f payload inp.packet hcaptured htag
  have hlong := hcaptured.behindIp_le
  have hbyte := Window.get_of_hasBytes hip hi
  rw [Nat.zero_add] at hbyte
  rw [List.getD_eq_getElem _ _ hi, ← hbyte]
  have hle : 14 ≤ (Window.whole (fun i => inp.packet.p i) inp.packet.packetSize).len := by
    show 14 ≤ inp.packet.packetSize
    omega
  show _ = ((Window.whole (fun i => inp.packet.p i) inp.packet.packetSize).advance 14).get i
  rw [Window.advance_get _ hle]
  show _ = inp.packet.p ((0 + (14 + i) : Nat) : Int)
  rw [Nat.zero_add]

theorem pntohs_ports : inp.pntohs f.tcpOffset = f.srcPort.val ∧
    inp.pntohs ((f.tcpOffset : Int) + 2) = f.dstPort.val := by
  obtain ⟨_, _, _, _, _, hports⟩ := EthFrame.fields hcaptured.hasBytes
  obtain ⟨hsrc, hdst⟩ := Window.hasBytes_append.mp hports
  have hsrc := be16_u16 f.srcPort.isLt hsrc
  have hdst := be16_u16 f.dstPort.isLt hdst
  rw [tagBytes_of_untagged htag] at hsrc hdst
  rw [be16_length] at hdst
  constructor
  · rw [← hsrc]
    simp [NameInput.pntohs, NameInput.byte, Window.u16, Window.get, Window.whole, tcpOffset]
  · rw [← hdst]
    simp [NameInput.pntohs, NameInput.byte, Window.u16, Window.get, Window.whole, tcpOffset]

theorem nameFun_next : f.ip.nameFun.next inp 14 = some f.tcpOffset := by
  have hfirst := p_ip hcaptured htag (i := 0) (by
    have hge := f.ip.bytes_length_ge f.transport.protocol
    omega)
  unfold tcpOffset
  cases hcase : f.ip with
  | v4 h =>
      have hlength : ((IpHeader.v4 h).bytes f.transport.protocol).length =
          20 + 4 * h.optionWords.val := h.bytes_length _
      have hwords := h.optionWords.isLt
      have hbyte : inp.byte 14 = 0x45 + h.optionWords.val := by
        rw [hcase] at hfirst
        show (inp.packet.p (14 + 0 : Nat)).toNat = _
        rw [hfirst]
        show (UInt8.ofNat (0x45 + h.optionWords.val)).toNat = _
        rw [UInt8.toNat_ofNat']
        omega
      show some ((14 + inp.byte 14 % 16 * 4) % 65536) = _
      rw [hlength, hbyte]
      congr 1
      omega
  | v6 h =>
      have hlength : ((IpHeader.v6 h).bytes f.transport.protocol).length = 40 := h.bytes_length _
      rw [hlength]
      rfl

theorem headers_eq (hnamed : f.TcpNamed inp.tokens) : EtherApe.headers inp =
    [⟨1, .getLink6Name, 0⟩, ⟨2, f.ip.nameFun, 14⟩] ++ headersFrom inp 3 3 f.tcpOffset := by
  have hlong := hcaptured.behindIp_le
  have hnext : f.ip.nameFun.next inp 14 = some f.tcpOffset := nameFun_next hcaptured htag
  show headersFrom inp (3 + 1 + 1) 1 0 = _
  rw [@headersFrom_of_decoder inp _ 1 0 14 _ hnamed.link (by omega) rfl,
    headersFrom_of_decoder hnamed.ip (by omega) hnext]
  rfl

omit htag in
theorem tcpOffset_lt : f.tcpOffset < inp.packet.packetSize := by
  have hlong := hcaptured.behindIp_le
  unfold tcpOffset
  omega

theorem headers_isPrefix (hnamed : f.TcpNamed inp.tokens) :
    [⟨1, .getLink6Name, 0⟩, ⟨2, f.ip.nameFun, 14⟩] ++ [⟨3, .getTcpName, f.tcpOffset⟩] <+:
      EtherApe.headers inp := by
  rw [headers_eq hcaptured htag hnamed, List.prefix_append_right_inj]
  exact headersFrom_isPrefix hnamed.tcp (tcpOffset_lt hcaptured)

/-- The name decoder comes to one more TCP header if the payload is called so and begins in the packet. -/
theorem headers_isPrefix_above (hnamed : f.TcpNamed inp.tokens) {level off : Nat} (hlevel : 3 < level)
    (hdecoder : inp.tokens.decoder level = some .getTcpName)
    (hnext : NameFun.getTcpName.next inp f.tcpOffset = some off) (hlt : off < inp.packet.packetSize) :
    [⟨1, .getLink6Name, 0⟩, ⟨2, f.ip.nameFun, 14⟩, ⟨3, .getTcpName, f.tcpOffset⟩] ++
      [⟨level, .getTcpName, off⟩] <+: EtherApe.headers inp := by
  rw [headers_eq hcaptured htag hnamed,
    headersFrom_of_decoder hnamed.tcp (tcpOffset_lt hcaptured) hnext]
  refine List.cons_prefix_cons.mpr ⟨rfl, List.cons_prefix_cons.mpr ⟨rfl, List.cons_prefix_cons.mpr ⟨rfl, ?_⟩⟩⟩
  rcases hnamed.above level hlevel hdecoder with rfl | ⟨rfl, hrpc⟩
  · exact headersFrom_isPrefix hdecoder hlt
  · rw [headersFrom_of_no_decoder hrpc rfl]
    exact headersFrom_isPrefix hdecoder hlt

/-- A TCP header that it comes to is that of the segment or one behind it. -/
theorem tcpHeader_cases (hnamed : f.TcpNamed inp.tokens) {h : NameHeader} (hmem : h ∈ EtherApe.headers inp)
    (hfn : h.fn = .getTcpName) : h = ⟨3, .getTcpName, f.tcpOffset⟩ ∨
      3 < h.level ∧ NameFun.getTcpName.next inp f.tcpOffset = some h.off := by
  have hdecoder : inp.tokens.decoder h.level = some .getTcpName := hfn ▸ (mem_headersFrom hmem).1
  have hip : f.ip.nameFun ≠ .getTcpName := by
    cases f.ip
    all_goals exact fun h => NameFun.noConfusion h
  rw [headers_eq hcaptured htag hnamed, List.mem_append, List.mem_pair] at hmem
  rcases hmem with (rfl | rfl) | hmem
  · cases hfn
  · exact absurd hfn hip
  · obtain ⟨_, rfl | ⟨next, hnext, hmem⟩⟩ := mem_headersFrom_of_decoder hnamed.tcp hmem
    · exact Or.inl rfl
    · have hlevel : 3 < h.level := level_le_of_mem_headersFrom hmem
      refine Or.inr ⟨hlevel, hnext.trans (congrArg some ?_)⟩
      rcases hnamed.above h.level hlevel hdecoder with hfour | ⟨hfive, hrpc⟩
      · exact off_of_mem_headersFrom hfour.symm (hfour ▸ hdecoder) hmem
      · rw [headersFrom_of_no_decoder hrpc rfl] at hmem
        exact off_of_mem_headersFrom hfive.symm (hfive ▸ hdecoder) hmem

omit htag in
theorem type_behindIp (mode : ApeMode) (uninit : NodeId) :
    (idAfter inp uninit (lastFill mode inp uninit none
      [⟨1, .getLink6Name, 0⟩, ⟨2, f.ip.nameFun, 14⟩])).addr.tcp4Host.type = f.ip.family := by
  have hlong := hcaptured.behindIp_le
  have hinet : afInet < 2 ^ 32 := by decide
  have hinet6 : afInet6 < 2 ^ 32 := by decide
  cases hcase : f.ip with
  | v4 h =>
      rw [hcase] at hlong
      have hlength : ((IpHeader.v4 h).bytes f.transport.protocol).length =
          20 + 4 * h.optionWords.val := h.bytes_length _
      have hfits : fillFits inp 14 (if inp.dir = .inbound then 16 else 12) 0 4 := by
        unfold fillFits unsigned
        split_ifs
        all_goals omega
      exact Fill.nodeId_type (f := ⟨.ip, 14, if inp.dir = .inbound then 16 else 12, 0, afInet⟩)
        (Or.inl rfl) hinet hfits
  | v6 h =>
      rw [hcase] at hlong
      have hlength : ((IpHeader.v6 h).bytes f.transport.protocol).length = 40 := h.bytes_length _
      have hfits : fillFits inp 14 (if inp.dir = .inbound then 24 else 8) 0 16 := by
        unfold fillFits unsigned
        split_ifs
        all_goals omega
      exact Fill.nodeId_type (f := ⟨.ip, 14, if inp.dir = .inbound then 24 else 8, 0, afInet6⟩)
        (Or.inl rfl) hinet6 hfits

def endpointPort (f : EthFrame) (dir : PacketDirection) : Nat :=
  if dir = .inbound then f.dstPort.val else f.srcPort.val

/-- The address and the port of the endpoint are where the name decoder looks for them at a TCP header. -/
structure EndpointAt (f : EthFrame) (inp : NameInput) (off : Nat) : Prop where
  captured : off + tcpPortOff inp + 2 ≤ inp.packet.packetSize
  address : ∀ j (hj : j < (f.ip.endpointBytes inp.dir).length),
    inp.packet.p (off + -(tcpAddressBack inp f.ip.family : Int) + j) = (f.ip.endpointBytes inp.dir)[j]
  port : inp.pntohs ((off : Int) + tcpPortOff inp) = f.endpointPort inp.dir

omit hcaptured htag in
theorem tcpAddressBack_le (f : EthFrame) (inp : NameInput) :
    tcpAddressBack inp f.ip.family ≤ f.tcpOffset ∧
      addressLen f.ip.family ≤ tcpAddressBack inp f.ip.family := by
  have hge := f.ip.bytes_length_ge f.transport.protocol
  unfold tcpOffset tcpAddressBack
  cases hcase : f.ip with
  | v4 h =>
      rw [hcase] at hge
      show (if inp.dir = .outbound then 8 else 4) * 1 ≤ _ ∧ 4 ≤ (if inp.dir = .outbound then 8 else 4) * 1
      split_ifs
      all_goals omega
  | v6 h =>
      have hlength : ((IpHeader.v6 h).bytes f.transport.protocol).length = 40 := h.bytes_length _
      show (if inp.dir = .outbound then 8 else 4) * 4 ≤ _ ∧ 16 ≤ (if inp.dir = .outbound then 8 else 4) * 4
      rw [hlength]
      split_ifs
      all_goals decide

omit htag in
theorem fillFits_segment : fillFits inp f.tcpOffset (-(tcpAddressBack inp f.ip.family : Int))
    (tcpPortOff inp) (addressLen f.ip.family) := by
  obtain ⟨hback, hlen⟩ := tcpAddressBack_le f inp
  have hlong := hcaptured.behindIp_le
  have hsize := inp.packet.packetSize_lt
  have hport : tcpPortOff inp ≤ 2 := by
    unfold tcpPortOff
    split_ifs
    all_goals decide
  unfold fillFits unsigned
  unfold tcpOffset at hback ⊢
  omega

omit hcaptured htag in
/-- A payload is behind its TCP header, since the packet is too short for the offset to wrap around. -/
theorem tcpOffset_le_of_next (f : EthFrame) {off : Nat}
    (hnext : NameFun.getTcpName.next inp f.tcpOffset = some off) : f.tcpOffset ≤ off := by
  have hlength := f.ip.bytes_length_le f.transport.protocol
  have hbyte : inp.byte (f.tcpOffset + 12) < 256 := (inp.packet.p _).toNat_lt
  unfold NameFun.next at hnext
  dsimp only at hnext
  split_ifs at hnext
  obtain rfl := Option.some.inj hnext
  unfold tcpOffset at hbyte ⊢
  omega

omit hcaptured htag in
theorem nodeId_eq_endpoint_iff {off : Nat} (hoff : f.tcpOffset ≤ off) :
    Fill.nodeId inp ⟨.tcp, off, -(tcpAddressBack inp f.ip.family : Int), tcpPortOff inp, f.ip.family⟩ =
        tcpId (f.ip.endpoint inp.dir) (f.endpointPort inp.dir) ↔ f.EndpointAt inp off := by
  obtain ⟨hback, hlen⟩ := tcpAddressBack_le f inp
  have hsize := inp.packet.packetSize_lt
  have hport : f.endpointPort inp.dir < 65536 := by
    unfold endpointPort
    split_ifs
    · exact f.dstPort.isLt
    · exact f.srcPort.isLt
  have hfits : fillFits inp off (-(tcpAddressBack inp f.ip.family : Int)) (tcpPortOff inp)
      (addressLen f.ip.family) ↔ off + tcpPortOff inp + 2 ≤ inp.packet.packetSize := by
    unfold fillFits unsigned
    omega
  by_cases hcaptured : off + tcpPortOff inp + 2 ≤ inp.packet.packetSize
  · rw [Fill.nodeId_tcp (hfits.mpr hcaptured), tcpId_eq_iff (pntohs_lt inp _) hport,
      f.ip.copied_eq_endpoint_iff]
    constructor
    · intro h
      exact ⟨hcaptured, h.1, h.2⟩
    · intro h
      exact ⟨h.address, h.port⟩
  · refine iff_of_false (fun h => ?_) fun h => hcaptured h.captured
    have hclear : Fill.nodeId inp
        ⟨.tcp, off, -(tcpAddressBack inp f.ip.family : Int), tcpPortOff inp, f.ip.family⟩ =
          ⟨.tcp, Octets.zero⟩ := if_neg fun h' => hcaptured (hfits.mp h')
    rw [hclear] at h
    have haddress := congrArg (fun id => id.addr.ip) h
    dsimp only at haddress
    rw [tcpId_ip] at haddress
    exact f.ip.endpoint_ne_clear inp.dir haddress.symm

theorem back_iff {n back pos : Nat} (hn : n ≤ back)
    (hpos : pos + back = (f.ip.bytes f.transport.protocol).length) {a : Octets n} :
    (∀ j (hj : j < (List.ofFn a).length),
        inp.packet.p (f.tcpOffset + -(back : Int) + j) = (List.ofFn a)[j]) ↔
      ∀ j : Fin n, (f.ip.bytes f.transport.protocol).getD (pos + j.val) 0 = a j := by
  have hplace (j : Fin n) : inp.packet.p (f.tcpOffset + -(back : Int) + j.val) =
      (f.ip.bytes f.transport.protocol).getD (pos + j.val) 0 := by
    rw [← p_ip hcaptured htag (by omega)]
    congr 1
    unfold tcpOffset
    omega
  simp only [List.length_ofFn, List.getElem_ofFn]
  constructor
  · intro h j
    rw [← hplace]
    exact h j.val j.isLt
  · intro h j hj
    exact (hplace ⟨j, hj⟩).trans (h ⟨j, hj⟩)

/-- At the header of the segment the port is there, and the address if it stands where it would without
options. -/
theorem endpointAt_segment_iff (htcp : f.transport.protocol = ipProtoTcp)
    (hdir : inp.dir ≠ .eitherbound) :
    f.EndpointAt inp f.tcpOffset ↔ f.ip.AddressAtEnd inp.dir := by
  have hlong := hcaptured.behindIp_le
  have hcovered : f.tcpOffset + tcpPortOff inp + 2 ≤ inp.packet.packetSize := by
    unfold tcpOffset tcpPortOff
    split_ifs
    all_goals omega
  have hport : inp.pntohs ((f.tcpOffset : Int) + tcpPortOff inp) = f.endpointPort inp.dir := by
    obtain ⟨hsrc, hdst⟩ := pntohs_ports hcaptured htag
    unfold endpointPort tcpPortOff
    cases hcase : inp.dir with
    | eitherbound => exact absurd hcase hdir
    | inbound => exact hdst
    | outbound =>
        rw [← hsrc]
        simp
  have haddress : f.EndpointAt inp f.tcpOffset ↔ ∀ j (hj : j < (f.ip.endpointBytes inp.dir).length),
      inp.packet.p (f.tcpOffset + -(tcpAddressBack inp f.ip.family : Int) + j) =
        (f.ip.endpointBytes inp.dir)[j] :=
    ⟨fun h => h.address, fun h => ⟨hcovered, h, hport⟩⟩
  have hback {n back pos : Nat} (hn : n ≤ back)
      (hpos : pos + back = (f.ip.bytes f.transport.protocol).length) (a : Octets n) :=
    back_iff hcaptured htag hn hpos (a := a)
  rw [htcp] at hback
  rw [haddress]
  unfold tcpAddressBack
  cases hcase : f.ip with
  | v4 h =>
      rw [hcase] at hback
      have hlength : ((IpHeader.v4 h).bytes ipProtoTcp).length = 20 + 4 * h.optionWords.val :=
        h.bytes_length _
      rw [hlength] at hback
      cases hdir' : inp.dir with
      | eitherbound => exact absurd hdir' hdir
      | inbound =>
          have hpos : 4 * h.optionWords.val + 16 + 4 = 20 + 4 * h.optionWords.val := by omega
          exact hback (by decide : 4 ≤ 4) hpos h.dst
      | outbound =>
          have hpos : 4 * h.optionWords.val + 12 + 8 = 20 + 4 * h.optionWords.val := by omega
          exact hback (by decide : 4 ≤ 8) hpos h.src
  | v6 h =>
      rw [hcase] at hback
      have hlength : ((IpHeader.v6 h).bytes ipProtoTcp).length = 40 := h.bytes_length _
      rw [hlength] at hback
      obtain ⟨hsrc, hdst⟩ := h.getD_addresses ipProtoTcp
      cases hdir' : inp.dir with
      | eitherbound => exact absurd hdir' hdir
      | inbound =>
          have hpos : 24 + 16 = 40 := rfl
          exact iff_of_true ((hback (by decide : 16 ≤ 16) hpos h.dst).mpr hdst) trivial
      | outbound =>
          have hpos : 8 + 32 = 40 := rfl
          exact iff_of_true ((hback (by decide : 16 ≤ 32) hpos h.src).mpr hsrc) trivial

end Names

theorem tcpNamed (hcaptured : f.CapturedAs payload (fun i => packet.p i) packet.packetSize)
    (htag : f.tag = none) (htcp : f.transport.protocol = ipProtoTcp) {env : DecodeEnv}
    (hdlt : env.lkentry.val.dltLinktype = dltEn10mb) {calls : Nat} {conversations : Conversations}
    {pphLkentry : Option Linktype} {d : DecodeState}
    (hd : getPacketProt env calls (packet.decodeStart conversations pphLkentry) = .finished d) :
    f.TcpNamed d.pr := by
  obtain ⟨names, habove, hadded⟩ := added_eq hcaptured htag htcp hdlt hd
  have htoken {i : Nat} (hi : i < 3 + names.length) (hlt : i < stackSize) :
      d.pr.token (i + 1) = (["ETH_II", f.ip.label, "TCP"] ++ names)[i]? := by
    have hlen : (["ETH_II", f.ip.label, "TCP"] ++ names).length = 3 + names.length := List.length_append
    have hnames : ["ETH_II", f.ip.label, "TCP"] ++ names <+: d.added.map Prod.fst := by rw [hadded]
    rw [token_firstNames hd hnames (hlen ▸ hi) hlt, List.getElem?_eq_getElem]
  refine ⟨?_, ?_, ?_, fun level hlevel hdecoder => ?_⟩
  · rw [PacketProtos.decoder, htoken (by omega) (by decide)]
    rfl
  · rw [PacketProtos.decoder, htoken (by omega) (by decide)]
    cases f.ip
    all_goals rfl
  · rw [PacketProtos.decoder, htoken (by omega) (by decide)]
    rfl
  · obtain ⟨name, hname, hlookup⟩ := Option.bind_eq_some_iff.mp hdecoder
    have hmem := mem_added_of_token hd (Nat.zero_lt_of_lt hlevel) hname
    rw [hadded] at hmem
    obtain ⟨k, rfl⟩ : ∃ k, level = k + 4 := ⟨level - 4, by omega⟩
    change names[k]? = some name at hmem
    cases habove with
    | single label =>
        left
        obtain ⟨hk, _⟩ := List.getElem?_eq_some_iff.mp hmem
        rw [List.length_singleton] at hk
        omega
    | rpc prog =>
        obtain ⟨hk, _⟩ := List.getElem?_eq_some_iff.mp hmem
        have hk : k < 2 := hk
        rcases Nat.eq_zero_or_pos k with rfl | hpos
        · exact Or.inl rfl
        · exact Or.inr ⟨by omega, htoken (i := 3) (by simp) (by decide)⟩
    | smb =>
        have hmem' := List.mem_of_getElem? hmem
        rw [List.mem_pair] at hmem'
        rcases hmem' with rfl | rfl
        · cases hlookup
        · cases hlookup

/-- **Where TCP is.** The name decoder finds the endpoint: in front of the header of the segment, and at
one more header, if the payload has the name of TCP too and begins in the packet. -/
structure TcpFound (f : EthFrame) (inp : NameInput) : Prop where
  segment : f.ip.AddressAtEnd inp.dir
  above : ∀ level, 3 < level → inp.tokens.decoder level = some .getTcpName →
    ∀ off, NameFun.getTcpName.next inp f.tcpOffset = some off → off < inp.packet.packetSize →
      f.EndpointAt inp off

/-- Where the payload has another name, the segment is all that counts. -/
theorem tcpFound_of_segment {inp : NameInput} (hsegment : f.ip.AddressAtEnd inp.dir)
    (habove : ∀ level < stackSize + 1, 3 < level → inp.tokens.decoder level ≠ some .getTcpName) :
    f.TcpFound inp := by
  refine ⟨hsegment, fun level hlevel hdecoder => ?_⟩
  exact absurd hdecoder (habove level (PacketProtos.lt_of_decoder hdecoder) hlevel)

section Found

variable {inp : NameInput}
  (hcaptured : f.CapturedAs payload (fun i => inp.packet.p i) inp.packet.packetSize)
  (htag : f.tag = none) (hnamed : f.TcpNamed inp.tokens)

include hcaptured htag hnamed

/-- The endpoint is found just when it is at every header that is taken for one of TCP. -/
theorem tcpFound_iff (htcp : f.transport.protocol = ipProtoTcp) (hdir : inp.dir ≠ .eitherbound) :
    (∀ h ∈ EtherApe.headers inp, h.fn = .getTcpName → f.EndpointAt inp h.off) ↔ f.TcpFound inp := by
  have hsegment := endpointAt_segment_iff hcaptured htag htcp hdir
  constructor
  · intro hall
    refine ⟨hsegment.mp ?_, fun level hlevel hdecoder off hnext hlt => ?_⟩
    · exact hall ⟨3, .getTcpName, f.tcpOffset⟩
        ((headers_isPrefix hcaptured htag hnamed).subset (by simp)) rfl
    · exact hall ⟨level, .getTcpName, off⟩
        ((headers_isPrefix_above hcaptured htag hnamed hlevel hdecoder hnext hlt).subset (by simp)) rfl
  · intro hfound h hmem hfn
    obtain ⟨hdecoder, hlt⟩ := mem_headersFrom hmem
    rcases tcpHeader_cases hcaptured htag hnamed hmem hfn with rfl | ⟨hlevel, hnext⟩
    · exact hsegment.mpr hfound.segment
    · exact hfound.above h.level hlevel (hfn ▸ hdecoder) h.off hnext hlt

theorem tcpHeader_nodeId (uninit : NodeId) {h : NameHeader} (hmem : h ∈ EtherApe.headers inp)
    (hfn : h.fn = .getTcpName) :
    f.tcpOffset ≤ h.off ∧ ∃ hs, hs ++ [h] <+: EtherApe.headers inp ∧
      (∀ h' ∈ hs ++ [h], h'.fn.encodedNames inp h'.off = []) ∧
      lastFill .tcp inp uninit none (hs ++ [h]) =
        some ⟨.tcp, h.off, -(tcpAddressBack inp f.ip.family : Int), tcpPortOff inp, f.ip.family⟩ := by
  have hread {hs : List NameHeader} (hhs : hs ⊆ [⟨1, .getLink6Name, 0⟩, ⟨2, f.ip.nameFun, 14⟩,
      ⟨3, .getTcpName, f.tcpOffset⟩]) : ∀ h' ∈ hs ++ [h], h'.fn.encodedNames inp h'.off = [] := by
    intro h' hmem'
    rcases List.mem_append.mp hmem' with hmem' | hmem'
    · have hthree := hhs hmem'
      fin_cases hthree
      · rfl
      · cases f.ip <;> rfl
      · rfl
    · rw [List.mem_singleton.mp hmem', hfn]
      rfl
  have hsegment := @lastFill_of_fill inp uninit .tcp [⟨1, .getLink6Name, 0⟩, ⟨2, f.ip.nameFun, 14⟩]
    ⟨3, .getTcpName, f.tcpOffset⟩ _ (fill_getTcpName inp f.tcpOffset _)
  rw [type_behindIp hcaptured] at hsegment
  rcases tcpHeader_cases hcaptured htag hnamed hmem hfn with rfl | ⟨hlevel, hnext⟩
  · exact ⟨le_rfl, _, headers_isPrefix hcaptured htag hnamed, hread (by simp), hsegment⟩
  · obtain ⟨hdecoder, hlt⟩ := mem_headersFrom hmem
    obtain ⟨level, fn, off⟩ := h
    obtain rfl : fn = .getTcpName := hfn
    have hbefore := headers_isPrefix_above hcaptured htag hnamed hlevel hdecoder hnext hlt
    refine ⟨tcpOffset_le_of_next f hnext, _, hbefore, hread (List.Subset.refl _), ?_⟩
    have hfill := @lastFill_of_fill inp uninit .tcp [⟨1, .getLink6Name, 0⟩, ⟨2, f.ip.nameFun, 14⟩,
      ⟨3, .getTcpName, f.tcpOffset⟩] ⟨level, .getTcpName, off⟩ _ (fill_getTcpName inp off _)
    have htype := @Fill.nodeId_type inp (f := ⟨.tcp, f.tcpOffset,
      -(tcpAddressBack inp f.ip.family : Int), tcpPortOff inp, f.ip.family⟩) (Or.inr rfl)
      f.ip.family_lt (fillFits_segment hcaptured)
    rw [List.cons_append, List.cons_append, List.nil_append] at hsegment
    rw [hfill, hsegment, idAfter_some, htype]

end Found

end EthFrame

/-- The name is registered for a level that is called like a TCP header. -/
def AddedName.OfTcp (name : AddedName) (tokens : PacketProtos) : Prop :=
  tokens.decoder name.level = some .getTcpName

instance (name : AddedName) (tokens : PacketProtos) : Decidable (name.OfTcp tokens) :=
  inferInstanceAs (Decidable (_ = _))

/-- **Names of TCP endpoints.** -/
theorem getTcpName_endpoint_iff {f : EthFrame} {payload : List UInt8} {packet : RawPacket}
    (hcaptured : f.CapturedAs payload (fun i => packet.p i) packet.packetSize)
    (htag : f.tag = none) (htcp : f.transport.protocol = ipProtoTcp) {env : DecodeEnv}
    (hdlt : env.lkentry.val.dltLinktype = dltEn10mb) (hmode : env.mode = .tcp) {names : NamesEnv}
    (hnames : names.mode = .tcp) (calls : Nat) (conversations : Conversations)
    (pphLkentry : Option Linktype) :
    ∃ d, getPacketProt env calls (packet.decodeStart conversations pphLkentry) = .finished d ∧
      ∀ dir ≠ .eitherbound, ∀ uninit rounds,
        let inp := d.nameInput env packet dir
        let registered := (getPacketNames names inp uninit rounds).2.names
        ((∃ name ∈ registered, name.OfTcp d.pr) ∧
          ∀ name ∈ registered, name.OfTcp d.pr → name.nodeId = d.endpoint dir) ↔
        f.TcpFound inp := by
  obtain ⟨d, hd, _, _, hids, _⟩ := getPacketProt_endpoints hcaptured hdlt calls conversations pphLkentry
  refine ⟨d, hd, fun dir hdir uninit rounds => ?_⟩
  obtain ⟨hsrc, hdst⟩ := hids hmode
  have hnamed : f.TcpNamed d.pr := EthFrame.tcpNamed hcaptured htag htcp hdlt hd
  intro inp registered
  have hendpoint : d.endpoint dir = tcpId (f.ip.endpoint dir) (f.endpointPort dir) := by
    unfold DecodeState.endpoint IpHeader.endpoint EthFrame.endpointPort
    rw [hsrc, hdst]
    split_ifs
    all_goals rfl
  -- a header of TCP has a name for the id that is left there, and no other header of its level has one
  have hregistered (h : NameHeader) (hmem : h ∈ headers inp) (hfn : h.fn = .getTcpName) :
      (∃ name ∈ registered, name.level = h.level) ∧ ∀ name ∈ registered, name.level = h.level →
        (name.nodeId = d.endpoint dir ↔ f.EndpointAt inp h.off) := by
    obtain ⟨hoff, hs, hbefore, hread, hfill⟩ :=
      @EthFrame.tcpHeader_nodeId f payload inp hcaptured htag hnamed uninit h hmem hfn
    obtain ⟨hexists, hall⟩ := @names_of_header names inp uninit hs h hbefore hread
      (by rw [hfn]; exact hnames) rounds
    refine ⟨hexists, fun name hname hlevel => ?_⟩
    rw [(hall name hname hlevel).2, hnames, hfill, idAfter_some, hendpoint]
    exact EthFrame.nodeId_eq_endpoint_iff hoff
  have hheader (name : AddedName) (hname : name ∈ registered) (htcp : name.OfTcp d.pr) :
      ∃ h ∈ headers inp, h.fn = .getTcpName ∧ name.level = h.level := by
    obtain ⟨hs, h, hafter, hof⟩ := (getPacketNames_names names inp uninit rounds).1 name hname
    have hmem : h ∈ headers inp :=
      hafter.isPrefix.subset (List.mem_append_right hs (List.mem_singleton_self h))
    have hdecoder : d.pr.decoder h.level = some h.fn := (mem_headersFrom hmem).1
    refine ⟨h, hmem, ?_, hof.1⟩
    rw [AddedName.OfTcp, hof.1, hdecoder] at htcp
    exact Option.some.inj htcp
  rw [← @EthFrame.tcpFound_iff f payload inp hcaptured htag hnamed htcp hdir]
  constructor
  · intro hall h hmem hfn
    obtain ⟨⟨name, hname, hlevel⟩, hid⟩ := hregistered h hmem hfn
    have hdecoder : d.pr.decoder h.level = some h.fn := (mem_headersFrom hmem).1
    refine (hid name hname hlevel).mp (hall.2 name hname ?_)
    rw [AddedName.OfTcp, hlevel, hdecoder, hfn]
  · intro hall
    constructor
    · have hsegment : (⟨3, .getTcpName, f.tcpOffset⟩ : NameHeader) ∈ headers inp :=
        (@EthFrame.headers_isPrefix f payload inp hcaptured htag hnamed).subset (by simp)
      obtain ⟨⟨name, hname, hlevel⟩, _⟩ := hregistered _ hsegment rfl
      refine ⟨name, hname, ?_⟩
      rw [AddedName.OfTcp, hlevel]
      exact hnamed.tcp
    · intro name hname htcp
      obtain ⟨h, hmem, hfn, hlevel⟩ := hheader name hname htcp
      exact ((hregistered h hmem hfn).2 name hname hlevel).mpr (hall h hmem hfn)

namespace EthFrame

theorem headers_length_lt (f : EthFrame) : f.headers.length < 65536 := by
  have hip := f.ip.bytes_length_le f.transport.protocol
  have htransport : f.transport.bytes.length ≤ 56 := by
    cases f.transport with
    | tcp seqAck optionWords reserved flagsToUrgent options =>
        have hwords := optionWords.isLt
        simp only [TransportRest.bytes, List.length_append, List.length_ofFn, List.length_singleton]
        omega
    | udp lengthChecksum => simp [TransportRest.bytes]
  have htag : (tagBytes f.tag).length ≤ 4 := by
    cases f.tag <;> simp [tagBytes, be16_length]
  simp only [EthFrame.headers, EthFrame.transportHeader, List.length_append, List.length_ofFn,
    be16_length]
  omega

/-- The frame without a payload. -/
def rawPacket (f : EthFrame) : RawPacket where
  p i := f.headers.getD i.toNat 0
  packetSize := f.headers.length
  packetSize_lt := f.headers_length_lt

theorem capturedAs_rawPacket (f : EthFrame) :
    f.CapturedAs [] (fun i => f.rawPacket.p i) f.rawPacket.packetSize := by
  refine ⟨le_rfl, ?_, fun i hi => ?_⟩
  · rw [List.append_nil]
    exact le_rfl
  · have hi' : i < f.headers.length := hi
    rw [List.append_nil, List.getElem?_eq_getElem hi']
    show some f.headers[i] = some (f.headers.getD ((i : Int)).toNat 0)
    rw [Int.toNat_natCast, List.getD_eq_getElem _ _ hi']

end EthFrame

/-- A segment over IPv4 with so many words of options, all of them of no operation. -/
def optionsFrame (optionWords : Fin 11) : EthFrame where
  dstMac := ![2, 0, 0, 0, 0, 1]
  srcMac := ![2, 0, 0, 0, 0, 2]
  tag := none
  ip := .v4 ⟨0, ![0, 60], ![0, 1], ⟨0, by decide⟩, 64, ![0, 0], ![10, 0, 0, 1], ![10, 0, 0, 2],
    optionWords, fun _ => 1⟩
  srcPort := ⟨40000, by decide⟩
  dstPort := ⟨80, by decide⟩
  transport := .tcp Octets.zero ⟨0, by decide⟩ ⟨0, by decide⟩ Octets.zero Octets.zero

theorem getTcpName_endpoint_optionsFrame :
    ∃ d, getPacketProt (DecodeEnv.bare linktypeEthernet .tcp) 0
        ((optionsFrame 0).rawPacket.decodeStart Conversations.empty none) = .finished d ∧
      ∀ name ∈ (getPacketNames (NamesEnv.bare .tcp) (d.nameInput
          (DecodeEnv.bare linktypeEthernet .tcp) (optionsFrame 0).rawPacket .outbound)
          NodeId.clear 0).2.names,
        name.OfTcp d.pr → name.nodeId = d.endpoint .outbound := by
  obtain ⟨d, hd, hall⟩ := @getTcpName_endpoint_iff (optionsFrame 0) [] (optionsFrame 0).rawPacket
    (optionsFrame 0).capturedAs_rawPacket rfl rfl (DecodeEnv.bare linktypeEthernet .tcp) rfl
    rfl (NamesEnv.bare .tcp) rfl 0 Conversations.empty none
  refine ⟨d, hd, ((hall .outbound (by decide) NodeId.clear 0).mpr ?_).2⟩
  obtain rfl := Outcome.finished.inj hd
  exact EthFrame.tcpFound_of_segment (Ipv4Header.addressAtEnd rfl .outbound) (by decide +kernel)

theorem not_all_tcp_names_endpoints :
    ¬∀ (f : EthFrame) (payload : List UInt8) (packet : RawPacket) (env : DecodeEnv) (names : NamesEnv)
      (conversations : Conversations) (pphLkentry : Option Linktype) (calls : Nat) (d : DecodeState)
      (dir : PacketDirection) (uninit : NodeId) (rounds : Nat),
      f.CapturedAs payload (fun i => packet.p i) packet.packetSize → f.tag = none →
      f.transport.protocol = ipProtoTcp → env.lkentry.val.dltLinktype = dltEn10mb →
      env.mode = .tcp → names.mode = .tcp →
      getPacketProt env calls (packet.decodeStart conversations pphLkentry) = .finished d →
      dir ≠ .eitherbound →
      ∀ name ∈ (getPacketNames names (d.nameInput env packet dir) uninit rounds).2.names,
        name.OfTcp d.pr → name.nodeId = d.endpoint dir := by
  intro h
  have hall := h (optionsFrame 1) [] (optionsFrame 1).rawPacket
    (DecodeEnv.bare linktypeEthernet .tcp) (NamesEnv.bare .tcp) Conversations.empty none 0 _
    .outbound NodeId.clear 0 (optionsFrame 1).capturedAs_rawPacket rfl rfl rfl rfl rfl rfl (by decide)
  revert hall
  decide +kernel

end EtherApe
