import EtherApe.DecodeProto

/-!
# Invariants of the decoder

A property of the decoder state that every operation keeps is kept by every decoder, and hence by
decoding a whole packet.
-/

namespace EtherApe

open DecodeState

/-- Naming levels and reading keep `P`. -/
structure NamesPreserved (P : DecodeState → Prop) : Prop where
  decodeProtoAdd {d : DecodeState} {name : String} : P d → P (d.decodeProtoAdd name)
  touch {d : DecodeState} {i n : Nat} : P d → P (d.touch i n)

namespace NamesPreserved

variable {P : DecodeState → Prop} (hP : NamesPreserved P) {d : DecodeState}

include hP

theorem decodeProtoAddCase {label : Option String} (h : P d) : P (d.decodeProtoAddCase label) := by
  cases label with
  | none => exact h
  | some name => exact hP.decodeProtoAdd h

theorem matchBytes {i : Nat} {bs : List UInt8} (h : P d) : P (d.matchBytes i bs).2 := by
  induction bs generalizing d i with
  | nil => exact h
  | cons b bs ih =>
      rw [DecodeState.matchBytes]
      split
      · exact ih (hP.touch h)
      · exact hP.touch h

theorem getNetbios (h : P d) : P (getNetbios d) := by
  unfold EtherApe.getNetbios
  dsimp only [readU16]
  split
  · exact h
  · split
    · exact hP.decodeProtoAdd (hP.touch h)
    · exact hP.touch h

theorem getNetbiosSsn (h : P d) : P (getNetbiosSsn d) := by
  have hread : P ((d.decodeProtoAdd "NETBIOS-SSN").touch 0 1) := hP.touch (hP.decodeProtoAdd h)
  unfold EtherApe.getNetbiosSsn
  dsimp only [readByte]
  split
  · exact hP.decodeProtoAdd hread
  · exact hread

theorem getNetbiosDgm (h : P d) : P (getNetbiosDgm d) := by
  have hread : P ((d.decodeProtoAdd "NETBIOS-DGM").touch 0 1) := hP.touch (hP.decodeProtoAdd h)
  unfold EtherApe.getNetbiosDgm
  dsimp only [readByte]
  split
  · exact hP.decodeProtoAdd hread
  · exact hread

theorem getIpx (h : P d) : P (getIpx d) := by
  unfold EtherApe.getIpx
  dsimp only [readU16, pntohs, readByte]
  split
  · exact h
  · split
    · exact hP.touch h
    · have hread : P ((((((d.touch 0 2).decodeProtoAdd "IPX").touch 16 2).touch 28 2).touch 5 1).touch
          2 2) := hP.touch (hP.touch (hP.touch (hP.touch (hP.decodeProtoAdd (hP.touch h)))))
      split
      · exact hP.decodeProtoAddCase hread
      · exact hP.decodeProtoAddCase (hP.decodeProtoAddCase hread)

end NamesPreserved

theorem exists_chosenService {srcService dstService : Option PortService}
    (h : ¬(srcService = none ∧ dstService = none)) (srcPort chosenPort : Nat) :
    ∃ service, chosenService srcService dstService srcPort chosenPort = some service := by
  unfold chosenService
  cases srcService with
  | none =>
      obtain ⟨service, rfl⟩ := Option.ne_none_iff_exists'.mp fun hdst => h ⟨rfl, hdst⟩
      refine ⟨service, ?_⟩
      cases hpref : service.preferred <;> simp [hpref]
  | some service =>
      cases dstService with
      | none =>
          refine ⟨service, ?_⟩
          cases hpref : service.preferred <;> simp [hpref]
      | some service' =>
          dsimp only
          split_ifs
          · exact ⟨service, rfl⟩
          · exact ⟨service', rfl⟩
          · exact ⟨service, rfl⟩
          · exact ⟨service', rfl⟩

/-- The operations above the transport header keep `P`: they name levels, read, and register
conversations. -/
structure PayloadPreserved (P : DecodeState → Prop) : Prop where
  decodeProtoAdd {d : DecodeState} {name : String} : P d → P (d.decodeProtoAdd name)
  setConversations {d : DecodeState} {conversations : Conversations} :
    P d → P (d.setConversations conversations)
  touch {d : DecodeState} {i n : Nat} : P d → P (d.touch i n)

namespace PayloadPreserved

variable {P : DecodeState → Prop} (hP : PayloadPreserved P) {d : DecodeState} {env : DecodeEnv}

include hP

theorem names : NamesPreserved P := ⟨hP.decodeProtoAdd, hP.touch⟩

theorem addService {groupUnk : Bool} {servicesFind : Nat → Option PortService}
    {unknown transport : String} {srcPort dstPort : Nat} (h : P d) :
    P (addService groupUnk servicesFind unknown transport srcPort dstPort d) := by
  unfold EtherApe.addService
  dsimp only
  split
  · split
    · exact hP.decodeProtoAdd h
    · split <;> exact hP.decodeProtoAdd h
  next hservice =>
    obtain ⟨service, hchosen⟩ := exists_chosenService hservice srcPort (choosePort srcPort dstPort)
    rw [hchosen]
    exact hP.decodeProtoAdd h

theorem getFtp (h : P d) : P (getFtp env d) := by
  have hmatch : P ((d.decodeProtoAdd "FTP").matchBytes 0 [50, 50, 55]).2 :=
    hP.names.matchBytes (hP.decodeProtoAdd h)
  unfold EtherApe.getFtp
  dsimp only [readBytes]
  split
  · exact hP.decodeProtoAdd h
  · split
    · exact hmatch
    · split
      · exact hP.touch hmatch
      · exact hP.setConversations (hP.touch hmatch)

theorem getRpcReply (h : P d) : P (getRpcReply d).2 := by
  unfold EtherApe.getRpcReply
  split
  · exact h
  · exact hP.decodeProtoAdd (hP.decodeProtoAdd h)

theorem addRpcConversation {rpcProt : String} (h : P d) : P (addRpcConversation rpcProt d) := by
  unfold EtherApe.addRpcConversation
  split
  · exact h
  · exact hP.setConversations h

theorem getRpcCall {rpcstart : Nat} (h : P d) : P (getRpcCall rpcstart d).2 := by
  unfold EtherApe.getRpcCall
  dsimp only [pntohl]
  split
  · exact hP.touch h
  · split
    · exact hP.touch (hP.touch h)
    · exact hP.decodeProtoAdd (hP.decodeProtoAdd (hP.addRpcConversation (hP.touch (hP.touch h))))

theorem getRpc {isUdp : Bool} (h : P d) : P (getRpc isUdp d).2 := by
  unfold EtherApe.getRpc
  dsimp only [pntohl]
  generalize (if isUdp then 0 else 4) = rpcstart
  split
  · exact h
  · split
    · exact hP.getRpcReply (hP.touch h)
    · split
      · exact hP.getRpcCall (hP.touch h)
      · exact hP.touch h

theorem getTcpPayload {srcPort dstPort : Nat} (h : P d) :
    P (getTcpPayload env srcPort dstPort d) := by
  have hrpc : P (EtherApe.getRpc false d).2 := hP.getRpc h
  unfold EtherApe.getTcpPayload
  split
  · exact hP.decodeProtoAdd h
  · dsimp only
    split
    · exact hrpc
    · split
      · exact hP.names.getNetbiosSsn hrpc
      · split
        · exact hP.getFtp hrpc
        · exact hP.addService hrpc

theorem getUdpPayload {srcPort dstPort : Nat} (h : P d) :
    P (getUdpPayload env srcPort dstPort d) := by
  have hrpc : P (EtherApe.getRpc true d).2 := hP.getRpc h
  unfold EtherApe.getUdpPayload
  dsimp only
  split
  · exact hrpc
  · split
    · exact hP.names.getNetbiosDgm hrpc
    · exact hP.addService hrpc

end PayloadPreserved

/-- What is done behind the addresses of a link header keeps `P`. -/
structure LinkPreserved (env : DecodeEnv) (P : DecodeState → Prop) : Prop extends NamesPreserved P where
  addOffset {d : DecodeState} {n : Nat} : P d → P (d.addOffset n)
  getIp {d : DecodeState} : P d → P (getIp env d)

namespace LinkPreserved

variable {P : DecodeState → Prop} {env : DecodeEnv} (hP : LinkPreserved env P) {d : DecodeState}

include hP

theorem getEthII {etype : Nat} (h : P d) : P (getEthII env etype d) := by
  unfold EtherApe.getEthII
  split
  · exact hP.getIp h
  · split
    · exact hP.getIpx h
    · exact hP.decodeProtoAddCase h

theorem getLlcSap {dsap : Nat} (h : P d) : P (getLlcSap env dsap d) := by
  unfold EtherApe.getLlcSap
  split
  · exact hP.getIp h
  · split
    · exact hP.getIpx h
    · split
      · exact hP.getNetbios (hP.decodeProtoAdd h)
      · exact hP.decodeProtoAddCase h

theorem getLlc (h : P d) : P (getLlc env d) := by
  unfold EtherApe.getLlc
  dsimp only [readByte, pntohs]
  split
  · exact h
  · split
    · exact hP.getEthII (hP.addOffset (hP.touch (hP.touch (hP.touch h))))
    · split
      · exact hP.touch (hP.decodeProtoAdd (hP.touch (hP.touch h)))
      · exact hP.getLlcSap (hP.addOffset (hP.touch (hP.decodeProtoAdd (hP.touch (hP.touch h)))))

end LinkPreserved

/-- The operations of the link and network layers keep `P`, and so do the two transport decoders. -/
structure NetworkPreserved (P : DecodeState → Prop) : Prop extends NamesPreserved P where
  addOffset {d : DecodeState} {n : Nat} : P d → P (d.addOffset n)
  setSrcNodeId {d : DecodeState} {id : NodeId} : P d → P (d.setSrcNodeId id)
  setDstNodeId {d : DecodeState} {id : NodeId} : P d → P (d.setDstNodeId id)
  setGlobalAddresses {d : DecodeState} {src dst : Address} :
    P d → P (d.setGlobalAddresses src dst)
  setPphLkentry {d : DecodeState} {entry : Option Linktype} : P d → P (d.setPphLkentry entry)
  getTcp {env : DecodeEnv} {d : DecodeState} : P d → P (getTcp env d)
  getUdp {env : DecodeEnv} {d : DecodeState} : P d → P (getUdp env d)

namespace NetworkPreserved

variable {P : DecodeState → Prop} (hP : NetworkPreserved P) {d : DecodeState} {env : DecodeEnv}

include hP

theorem getIpProto {ipType fragmentOffset : Nat} (h : P d) :
    P (getIpProto env ipType fragmentOffset d) := by
  have haddrs : P (d.setGlobalAddresses d.srcNodeId.addr.ip d.dstNodeId.addr.ip) :=
    hP.setGlobalAddresses h
  unfold EtherApe.getIpProto
  dsimp only
  split
  · split
    · exact hP.decodeProtoAdd haddrs
    · exact hP.getTcp haddrs
  · split
    · split
      · exact hP.decodeProtoAdd haddrs
      · exact hP.getUdp haddrs
    · exact hP.decodeProtoAdd haddrs

theorem getIpv4 {ipHl : Nat} (h : P d) : P (getIpv4 env ipHl d) := by
  have hheader : P (((d.decodeProtoAdd "IP").touch 9 1).touch 6 2) :=
    hP.touch (hP.touch (hP.decodeProtoAdd h))
  unfold EtherApe.getIpv4
  dsimp only [readByte, pntohs, readBytes]
  split
  · exact hP.getIpProto (hP.addOffset (hP.setSrcNodeId (hP.touch (hP.setDstNodeId
      (hP.touch hheader)))))
  · exact hP.getIpProto (hP.addOffset hheader)

theorem getIpv6 (h : P d) : P (getIpv6 env d) := by
  have hheader : P ((d.decodeProtoAdd "IPV6").touch 6 1) := hP.touch (hP.decodeProtoAdd h)
  unfold EtherApe.getIpv6
  dsimp only [readByte, readBytes]
  split
  · exact hP.getIpProto (hP.addOffset (hP.setSrcNodeId (hP.touch (hP.setDstNodeId
      (hP.touch hheader)))))
  · exact hP.getIpProto (hP.addOffset hheader)

theorem getIp (h : P d) : P (getIp env d) := by
  unfold EtherApe.getIp
  dsimp only [readByte]
  split
  · exact h
  · split
    · split
      · exact hP.touch (hP.touch h)
      · exact hP.getIpv4 (hP.touch (hP.touch h))
    · split
      · split
        · exact hP.touch h
        · exact hP.getIpv6 (hP.touch h)
      · exact hP.touch h

theorem link : LinkPreserved env P where
  toNamesPreserved := hP.toNamesPreserved
  addOffset := hP.addOffset
  getIp := hP.getIp

theorem getEthII {etype : Nat} (h : P d) : P (getEthII env etype d) := hP.link.getEthII h

theorem getLlc (h : P d) : P (getLlc env d) := hP.link.getLlc h

theorem setLink6NodeIds {dstofs srcofs : Nat} (h : P d) : P (setLink6NodeIds dstofs srcofs d) :=
  hP.setSrcNodeId (hP.touch (hP.setDstNodeId (hP.touch h)))

theorem getEthTypeAt {sizeOffset ethsize : Nat} (h : P d) :
    P (getEthTypeAt env sizeOffset ethsize d) := by
  unfold EtherApe.getEthTypeAt
  dsimp only
  split
  · have hmatch : P ((d.matchBytes (sizeOffset + 2) [0xff, 0xff]).2.matchBytes 0
        [0x01, 0x00, 0x0C, 0x00, 0x00]).2 := hP.matchBytes (hP.matchBytes h)
    split
    · exact hP.decodeProtoAdd hmatch
    · split
      · exact hP.decodeProtoAdd (hP.addOffset (hP.setLink6NodeIds hmatch))
      · exact hP.getLlc (hP.decodeProtoAdd (hP.addOffset (hP.setLink6NodeIds hmatch)))
  · exact hP.getEthII (hP.decodeProtoAdd (hP.addOffset (hP.setLink6NodeIds h)))

theorem getEthType (h : P d) : P (getEthType env d) := by
  unfold EtherApe.getEthType
  dsimp only [pntohs]
  split
  · exact h
  · split
    · have htag : P ((d.touch 12 2).decodeProtoAdd "802.1Q") := hP.decodeProtoAdd (hP.touch h)
      split
      · exact hP.getEthTypeAt (hP.touch (hP.touch htag))
      · exact hP.getEthTypeAt (hP.touch htag)
    · exact hP.getEthTypeAt (hP.touch h)

theorem getFddiType (h : P d) : P (getFddiType env d) := by
  have hmacs : P (EtherApe.setLink6NodeIds 1 7 ((d.decodeProtoAdd "FDDI").decodeProtoAdd "LLC")) :=
    hP.setLink6NodeIds (hP.decodeProtoAdd (hP.decodeProtoAdd h))
  unfold EtherApe.getFddiType
  dsimp only
  split
  · exact hP.decodeProtoAdd h
  · split
    · exact hmacs
    · split
      · exact hP.getIp (hP.addOffset (hP.matchBytes hmacs))
      · exact hP.matchBytes hmacs

theorem getIeee8025Type (h : P d) : P (getIeee8025Type env d) := by
  have hmacs : P (EtherApe.setLink6NodeIds 2 8 (d.decodeProtoAdd "Token Ring")) :=
    hP.setLink6NodeIds (hP.decodeProtoAdd h)
  unfold EtherApe.getIeee8025Type
  dsimp only
  split
  · exact hP.decodeProtoAdd h
  · split
    · exact hmacs
    · split
      · exact hP.getIp (hP.addOffset (hP.matchBytes (hP.decodeProtoAdd hmacs)))
      · exact hP.matchBytes (hP.decodeProtoAdd hmacs)

theorem getLoop (h : P d) : P (getLoop env d) := hP.getIp (hP.addOffset (hP.decodeProtoAdd h))

theorem getLinuxSll (h : P d) : P (getLinuxSll env d) :=
  hP.getEthII (hP.addOffset (hP.touch (hP.decodeProtoAdd h)))

theorem getWlanCtrl {subtype srcofs : Nat} (h : P d) : P (getWlanCtrl subtype srcofs d) := by
  unfold EtherApe.getWlanCtrl
  dsimp only [readBytes]
  split
  · split
    · exact h
    · exact hP.decodeProtoAdd (hP.addOffset (hP.setSrcNodeId (hP.touch h)))
  · exact hP.decodeProtoAdd (hP.addOffset h)

theorem getWlanFrame {type subtype wep : Nat} (h : P d) :
    P (getWlanFrame env type subtype wep d) := by
  unfold EtherApe.getWlanFrame
  split
  · split
    · split
      · exact hP.getLlc (hP.addOffset h)
      · exact hP.getLlc h
    · exact hP.decodeProtoAdd h
  · split
    · exact hP.decodeProtoAdd h
    · exact h

theorem getWlanAddrs {type subtype fromtods wep : Nat} (h : P d) :
    P (getWlanAddrs env type subtype fromtods wep d) := by
  unfold EtherApe.getWlanAddrs
  dsimp only [readBytes]
  split
  · exact h
  · split
    · exact hP.getWlanCtrl (hP.setDstNodeId (hP.touch h))
    · split
      · exact hP.setDstNodeId (hP.touch h)
      · exact hP.getWlanFrame (hP.addOffset (hP.setSrcNodeId (hP.touch (hP.setDstNodeId
          (hP.touch h)))))

theorem getWlan (h : P d) : P (getWlan env d) := by
  unfold EtherApe.getWlan
  dsimp only [readByte]
  split
  · exact hP.decodeProtoAdd h
  · exact hP.getWlanAddrs (hP.touch (hP.touch (hP.touch (hP.touch (hP.decodeProtoAdd h)))))

theorem getRadiotap (h : P d) : P (getRadiotap env d) := by
  unfold EtherApe.getRadiotap
  dsimp only [readU16]
  split
  · exact hP.decodeProtoAdd h
  · exact hP.getWlan (hP.addOffset (hP.touch h))

theorem call {f : GetFun} {ppi : DecodeState → Outcome} (hppi : ∀ d, P d → P (ppi d).state)
    (h : P d) : P (f.call env ppi d).state := by
  cases f with
  | getEthType => exact hP.getEthType h
  | getIp => exact hP.getIp h
  | getLinuxSll => exact hP.getLinuxSll h
  | getLoop => exact hP.getLoop h
  | getFddiType => exact hP.getFddiType h
  | getIeee8025Type => exact hP.getIeee8025Type h
  | getWlan => exact hP.getWlan h
  | getRadiotap => exact hP.getRadiotap h
  | getPpi => exact hppi d h

theorem scanLinktypes {ppi : DecodeState → Outcome} (hppi : ∀ d, P d → P (ppi d).state)
    {pphDlt : Nat} {entries : List Linktype} (h : P d) :
    P (scanLinktypes env ppi pphDlt entries d).state := by
  induction entries generalizing d with
  | nil => exact h
  | cons entry entries ih =>
      rw [EtherApe.scanLinktypes]
      split
      · have hcall : P (entry.val.getFun.call env ppi (d.setPphLkentry (some entry))).state :=
          hP.call hppi (hP.setPphLkentry h)
        cases hout : entry.val.getFun.call env ppi (d.setPphLkentry (some entry)) with
        | finished d' => exact ih (by rwa [hout] at hcall)
        | unfinished d' => rwa [hout] at hcall
      · exact ih h

theorem getPpi {calls : Nat} (h : P d) : P (getPpi env calls d).state := by
  induction calls generalizing d with
  | zero => exact h
  | succ calls ih =>
      rw [EtherApe.getPpi]
      dsimp only [readU16, readU32]
      have hheader := fun n => hP.addOffset (n := n) (hP.touch (i := 4) (n := 4)
        (hP.touch (i := 2) (n := 2) h))
      split
      · exact hP.decodeProtoAdd h
      · split
        · exact hP.call (fun _ => ih) (hheader _)
        · exact hP.scanLinktypes (fun _ => ih) (hP.setPphLkentry (hheader _))

theorem getPacketProt (hcopy : ∀ d, P d → P (copyTopmost d)) {calls : Nat} (h : P d) :
    P (getPacketProt env calls d).state := by
  have hcall : P (env.lkentry.val.getFun.call env (EtherApe.getPpi env calls) d).state :=
    hP.call (fun _ => hP.getPpi) h
  unfold EtherApe.getPacketProt
  cases hout : env.lkentry.val.getFun.call env (EtherApe.getPpi env calls) d with
  | finished d' => exact hcopy _ (by rwa [hout] at hcall)
  | unfinished d' => rwa [hout] at hcall

end NetworkPreserved

/-- All operations on the decoder state keep `P`. -/
structure Preserved (P : DecodeState → Prop) : Prop extends PayloadPreserved P where
  gAssert {d : DecodeState} {holds : Bool} : P d → P (d.gAssert holds)
  addOffset {d : DecodeState} {n : Nat} : P d → P (d.addOffset n)
  setSrcNodeId {d : DecodeState} {id : NodeId} : P d → P (d.setSrcNodeId id)
  setDstNodeId {d : DecodeState} {id : NodeId} : P d → P (d.setDstNodeId id)
  setGlobalAddresses {d : DecodeState} {src dst : Address} :
    P d → P (d.setGlobalAddresses src dst)
  setGlobalPorts {d : DecodeState} {src dst : Nat} : P d → P (d.setGlobalPorts src dst)
  setPphLkentry {d : DecodeState} {entry : Option Linktype} : P d → P (d.setPphLkentry entry)

namespace Preserved

variable {P : DecodeState → Prop} (hP : Preserved P) {d : DecodeState} {env : DecodeEnv}

include hP

theorem setTcpNodeIds (h : P d) : P (setTcpNodeIds env d) := by
  unfold EtherApe.setTcpNodeIds
  split
  · exact hP.setSrcNodeId (hP.gAssert (hP.setDstNodeId (hP.gAssert h)))
  · exact h

/-- For `P` to hold after `get_tcp`, it is enough that it holds with the name of the protocol. -/
theorem getTcp_of_added (h : P (d.decodeProtoAdd "TCP")) : P (EtherApe.getTcp env d) :=
  hP.getTcpPayload (hP.addOffset (hP.touch (hP.setTcpNodeIds (hP.setGlobalPorts
    (hP.touch (hP.touch h))))))

theorem getUdp_of_added (h : P (d.decodeProtoAdd "UDP")) : P (EtherApe.getUdp env d) :=
  hP.getUdpPayload (hP.addOffset (hP.setTcpNodeIds (hP.setGlobalPorts (hP.touch (hP.touch h)))))

theorem getTcp (h : P d) : P (getTcp env d) := hP.getTcp_of_added (hP.decodeProtoAdd h)

theorem getUdp (h : P d) : P (getUdp env d) := hP.getUdp_of_added (hP.decodeProtoAdd h)

theorem network : NetworkPreserved P where
  toNamesPreserved := hP.names
  addOffset := hP.addOffset
  setSrcNodeId := hP.setSrcNodeId
  setDstNodeId := hP.setDstNodeId
  setGlobalAddresses := hP.setGlobalAddresses
  setPphLkentry := hP.setPphLkentry
  getTcp := hP.getTcp
  getUdp := hP.getUdp

end Preserved

theorem copyTopmost_window (d : DecodeState) : (copyTopmost d).window = d.window := by
  unfold copyTopmost
  split <;> rfl

theorem copyTopmost_conversations (d : DecodeState) :
    (copyTopmost d).conversations = d.conversations := by
  unfold copyTopmost
  split <;> rfl

theorem preserved_size (size : Nat) : Preserved fun d => d.window.size = size where
  decodeProtoAdd h := h
  addOffset h := (Window.advance_size _ _).trans h
  gAssert h := h
  setSrcNodeId h := h
  setDstNodeId h := h
  setGlobalAddresses h := h
  setGlobalPorts h := h
  setConversations h := h
  setPphLkentry h := h
  touch h := h

theorem getPacketProt_size (env : DecodeEnv) (calls : Nat) (d : DecodeState) :
    (getPacketProt env calls d).state.window.size = d.window.size :=
  (preserved_size d.window.size).network.getPacketProt
    (fun d' h => (congrArg Window.size (copyTopmost_window d')).trans h) rfl

end EtherApe
