import EtherApe.DecodeProto.State
import EtherApe.ProtTypes
import EtherApe.Scanf
import Mathlib.Data.List.FinRange

/-!
# Protocol decoder

The model of `decode_proto.c` from `get_packet_prot` down. A decoder is a function on the decoder
state; reads through `cur_packet` go through the reading operations of that state.
-/

namespace EtherApe

open DecodeState

/-! ### Above the transport layer -/

/-- Given two port numbers, the one that is privileged if the other is not, and else the lower. -/
def choosePort (a b : Nat) : Nat :=
  if a < 1024 ∧ 1024 ≤ b then a
  else if 1024 ≤ a ∧ b < 1024 then b
  else if a ≤ b then a
  else b

/-- A service with a user-defined colour is favoured, otherwise the chosen port wins. -/
def chosenService (srcService dstService : Option PortService) (srcPort chosenPort : Nat) :
    Option PortService :=
  let srcPref := srcService.any (·.preferred)
  let dstPref := dstService.any (·.preferred)
  if srcPref ∧ ¬dstPref then srcService
  else if ¬srcPref ∧ dstPref then dstService
  else if dstService = none ∨ (srcPort = chosenPort ∧ srcService ≠ none) then srcService
  else dstService

/-- The end of `get_tcp` and of `get_udp`: the label of the port that stands for the service. -/
def addService (groupUnk : Bool) (servicesFind : Nat → Option PortService) (unknown transport : String)
    (srcPort dstPort : Nat) (d : DecodeState) : DecodeState :=
  let srcService := servicesFind srcPort
  let dstService := servicesFind dstPort
  let chosenPort := choosePort srcPort dstPort
  if srcService = none ∧ dstService = none then
    if groupUnk then d.decodeProtoAdd unknown
    else if chosenPort = srcPort then
      d.decodeProtoAdd (transport ++ ":" ++ toString chosenPort ++ "-" ++ toString dstPort)
    else d.decodeProtoAdd (transport ++ ":" ++ toString chosenPort ++ "-" ++ toString srcPort)
  else
    match chosenService srcService dstService srcPort chosenPort with
    | some service => d.decodeProtoAdd service.name
    | none => d.gAssert false

def getNetbios (d : DecodeState) : DecodeState :=
  if d.window.len < 5 then d
  else
    let (hdrLen, d) := d.readU16 0
    if hdrLen < d.window.len then d.decodeProtoAdd "SMB" else d

def getNetbiosSsn (d : DecodeState) : DecodeState :=
  let d := d.decodeProtoAdd "NETBIOS-SSN"
  let (mesgType, d) := d.readByte 0
  if mesgType = 0 then d.decodeProtoAdd "SMB" else d

def getNetbiosDgm (d : DecodeState) : DecodeState :=
  let d := d.decodeProtoAdd "NETBIOS-DGM"
  let (mesgType, d) := d.readByte 0
  if mesgType = 0x10 ∨ mesgType = 0x11 ∨ mesgType = 0x12 then d.decodeProtoAdd "SMB" else d

/-- The value of the unsigned variable after `sscanf`, unless the conversion failed. An input that
ends before the number counts as no failure and leaves the variable as it is. -/
def scannedValue (uninit : Nat) : Scanned → Option Nat
  | .eof => some uninit
  | .failed => none
  | .number value => some (value % 2 ^ 32).toNat

/-- The tokens that `strtok` gives for the delimiters of a passive reply. -/
def ftpTokens (mesg : List UInt8) : List (List UInt8) :=
  ((mesg.takeWhile (· ≠ 0)).splitOnP fun b => b = 40 ∨ b = 44 ∨ b = 41).filter (· ≠ [])

/-- The server port of a passive reply, from its sixth and seventh token. -/
def ftpServerPort (env : DecodeEnv) (mesg : List UInt8) : Option Nat := do
  let hi ← (ftpTokens mesg)[5]?
  let hiByte ← scannedValue env.uninitHiByte (scanInt hi)
  let low ← (ftpTokens mesg)[6]?
  let lowByte ← scannedValue env.uninitLowByte (scanInt low)
  some ((hiByte * 256 + lowByte) % 65536)

def getFtp (env : DecodeEnv) (d : DecodeState) : DecodeState :=
  let d := d.decodeProtoAdd "FTP"
  if d.window.len < 3 then d
  else
    let (passive, d) := d.matchBytes 0 [50, 50, 55]
    if ¬passive then d
    else
      let size := d.window.len
      let (mesg, d) := d.readBytes 0 size
      match ftpServerPort env ((List.range size).map mesg) with
      | none => d
      | some serverPort =>
          d.setConversations (d.conversations.addConversation d.globalSrcAddress d.globalDstAddress
            serverPort 0 "FTP-PASSIVE")

/-- The case of `get_rpc` for a reply, which carries no program number. -/
def getRpcReply (d : DecodeState) : Bool × DecodeState :=
  match d.conversations.findConversation d.globalDstAddress d.globalDstAddress d.globalDstPort 0 with
  | none => (false, d)
  | some rpcProt => (true, (d.decodeProtoAdd "ONC-RPC").decodeProtoAdd rpcProt)

/-- Looks for a conversation of the caller, with its address as both source and destination, and
creates one if there is none. -/
def addRpcConversation (rpcProt : String) (d : DecodeState) : DecodeState :=
  match d.conversations.findConversation d.globalSrcAddress d.globalSrcAddress d.globalSrcPort 0 with
  | some _ => d
  | none =>
      d.setConversations (d.conversations.addConversation d.globalSrcAddress d.globalSrcAddress
        d.globalSrcPort 0 rpcProt)

def getRpcCall (rpcstart : Nat) (d : DecodeState) : Bool × DecodeState :=
  let (rpcver, d) := d.pntohl (rpcstart + 8)
  if rpcver ≠ 2 then (false, d)
  else
    let (msgProgram, d) := d.pntohl (rpcstart + 12)
    match rpcProgramLabel msgProgram with
    | none => (false, d)
    | some rpcProt =>
        let d := addRpcConversation rpcProt d
        (true, (d.decodeProtoAdd "ONC-RPC").decodeProtoAdd rpcProt)

/-- Tries to decode the packet as an RPC packet, and tells whether it is one. -/
def getRpc (isUdp : Bool) (d : DecodeState) : Bool × DecodeState :=
  if d.window.len < 24 then (false, d)
  else
    let rpcstart := if isUdp then 0 else 4
    let (msgType, d) := d.pntohl (rpcstart + 4)
    if msgType = 1 then getRpcReply d
    else if msgType = 0 then getRpcCall rpcstart d
    else (false, d)

/-! ### Transport layer -/

def setTcpNodeIds (env : DecodeEnv) (d : DecodeState) : DecodeState :=
  if env.mode = .tcp then
    let d := d.gAssert (d.dstNodeId.nodeType = .ip)
    let d := d.setDstNodeId ⟨.tcp,
      (d.dstNodeId.addr.setTcp4Host d.globalDstAddress).setTcp4Port d.globalDstPort⟩
    let d := d.gAssert (d.srcNodeId.nodeType = .ip)
    d.setSrcNodeId ⟨.tcp,
      (d.srcNodeId.addr.setTcp4Host d.globalSrcAddress).setTcp4Port d.globalSrcPort⟩
  else d

section SetTcpNodeIds

variable (env : DecodeEnv) (d : DecodeState)

@[simp] theorem setTcpNodeIds_window : (setTcpNodeIds env d).window = d.window := by
  unfold setTcpNodeIds
  split <;> rfl

@[simp] theorem setTcpNodeIds_conversations :
    (setTcpNodeIds env d).conversations = d.conversations := by
  unfold setTcpNodeIds
  split <;> rfl

@[simp] theorem setTcpNodeIds_globalSrcAddress :
    (setTcpNodeIds env d).globalSrcAddress = d.globalSrcAddress := by
  unfold setTcpNodeIds
  split <;> rfl

@[simp] theorem setTcpNodeIds_globalDstAddress :
    (setTcpNodeIds env d).globalDstAddress = d.globalDstAddress := by
  unfold setTcpNodeIds
  split <;> rfl

end SetTcpNodeIds

def getTcpPayload (env : DecodeEnv) (srcPort dstPort : Nat) (d : DecodeState) : DecodeState :=
  match d.conversations.findConversation d.globalSrcAddress d.globalDstAddress srcPort dstPort with
  | some str => d.decodeProtoAdd str
  | none =>
      let (isRpc, d) := getRpc false d
      if isRpc then d
      else if srcPort = tcpNetbiosSsn ∨ dstPort = tcpNetbiosSsn then getNetbiosSsn d
      else if srcPort = tcpFtp ∨ dstPort = tcpFtp then getFtp env d
      else addService env.groupUnk env.servicesTcpFind "TCP-UNKNOwN" "TCP" srcPort dstPort d

def getTcp (env : DecodeEnv) (d : DecodeState) : DecodeState :=
  let d := d.decodeProtoAdd "TCP"
  let (srcPort, d) := d.pntohs 0
  let (dstPort, d) := d.pntohs 2
  let d := setTcpNodeIds env (d.setGlobalPorts srcPort dstPort)
  let (thOffX2, d) := d.readByte 12
  let tcpLen := thOffX2 / 16 * 4
  getTcpPayload env srcPort dstPort (d.addOffset tcpLen)

def getUdpPayload (env : DecodeEnv) (srcPort dstPort : Nat) (d : DecodeState) : DecodeState :=
  let (isRpc, d) := getRpc true d
  if isRpc then d
  else if srcPort = udpNetbiosNs ∨ dstPort = udpNetbiosNs then getNetbiosDgm d
  else addService env.groupUnk env.servicesUdpFind "UDP-UNKNOWN" "UDP" srcPort dstPort d

def getUdp (env : DecodeEnv) (d : DecodeState) : DecodeState :=
  let d := d.decodeProtoAdd "UDP"
  let (srcPort, d) := d.pntohs 0
  let (dstPort, d) := d.pntohs 2
  let d := setTcpNodeIds env (d.setGlobalPorts srcPort dstPort)
  getUdpPayload env srcPort dstPort (d.addOffset 8)

/-! ### Network layer -/

/-- The IPv4 node id: the union is cleared up to the port before the address goes in. -/
def setIpv4 (addr : NodeAddr) (src : Nat → UInt8) : NodeId :=
  ⟨.ip, addr.setIp ((Address.clear.setType afInet).setAddr 4 src)⟩

/-- The IPv6 node id, which fills the family and all the address bytes. -/
def setIpv6 (addr : NodeAddr) (src : Nat → UInt8) : NodeId :=
  ⟨.ip, addr.setIp ((addr.ip.setType afInet6).setAddr 16 src)⟩

def getIpProto (env : DecodeEnv) (ipType fragmentOffset : Nat) (d : DecodeState) : DecodeState :=
  let d := d.setGlobalAddresses d.srcNodeId.addr.ip d.dstNodeId.addr.ip
  if ipType = ipProtoTcp then
    if fragmentOffset ≠ 0 then d.decodeProtoAdd "TCP_FRAGMENT" else getTcp env d
  else if ipType = ipProtoUdp then
    if fragmentOffset ≠ 0 then d.decodeProtoAdd "UDP_FRAGMENT" else getUdp env d
  else d.decodeProtoAdd (ipProtoLabel ipType)

def getIpv4 (env : DecodeEnv) (ipHl : Nat) (d : DecodeState) : DecodeState :=
  let d := d.decodeProtoAdd "IP"
  let (ipType, d) := d.readByte 9
  let (fragmentField, d) := d.pntohs 6
  let fragmentOffset := fragmentField % 0x1000
  if env.mode ≠ .link6 then
    let (dst, d) := d.readBytes 16 4
    let d := d.setDstNodeId (setIpv4 d.dstNodeId.addr dst)
    let (src, d) := d.readBytes 12 4
    let d := d.setSrcNodeId (setIpv4 d.srcNodeId.addr src)
    getIpProto env ipType fragmentOffset (d.addOffset ipHl)
  else getIpProto env ipType fragmentOffset (d.addOffset ipHl)

def getIpv6 (env : DecodeEnv) (d : DecodeState) : DecodeState :=
  let d := d.decodeProtoAdd "IPV6"
  let (ipType, d) := d.readByte 6
  if env.mode ≠ .link6 then
    let (dst, d) := d.readBytes 24 16
    let d := d.setDstNodeId (setIpv6 d.dstNodeId.addr dst)
    let (src, d) := d.readBytes 8 16
    let d := d.setSrcNodeId (setIpv6 d.srcNodeId.addr src)
    getIpProto env ipType 0 (d.addOffset 40)
  else getIpProto env ipType 0 (d.addOffset 40)

def getIp (env : DecodeEnv) (d : DecodeState) : DecodeState :=
  if d.window.len < 20 then d
  else
    let (versionHl, d) := d.readByte 0
    let ipVersion := versionHl / 16
    if ipVersion = 4 then
      let (versionHl, d) := d.readByte 0
      let ipHl := versionHl % 16 * 4
      if ipHl < 20 then d else getIpv4 env ipHl d
    else if ipVersion = 6 then
      if d.window.len < 40 then d else getIpv6 env d
    else d

def getIpx (d : DecodeState) : DecodeState :=
  if d.window.len < 30 then d
  else
    let (checksum, d) := d.readU16 0
    if checksum ≠ 0xffff then d
    else
      let d := d.decodeProtoAdd "IPX"
      let (ipxDsocket, d) := d.pntohs 16
      let (ipxSsocket, d) := d.pntohs 28
      let (ipxType, d) := d.readByte 5
      let (_, d) := d.pntohs 2
      let d := d.decodeProtoAddCase (ipxTypeLabels.lookup ipxType)
      if ipxType ∉ ipxSocketTypes then d
      else d.decodeProtoAddCase (ipxSocketLabel ipxDsocket ipxSsocket)

/-! ### Link layer -/

/-- `get_eth_II`, which the Linux cooked capture repeats: IP, IPX, or only a label. -/
def getEthII (env : DecodeEnv) (etype : Nat) (d : DecodeState) : DecodeState :=
  if etype = ethertypeIp ∨ etype = ethertypeIpv6 then getIp env d
  else if etype = ethertypeIpx then getIpx d
  else d.decodeProtoAddCase (etypeLabels.lookup etype)

def xdlcIsInformation (control : Nat) : Prop := control % 2 = 0 ∨ control = 3

instance (control : Nat) : Decidable (xdlcIsInformation control) :=
  inferInstanceAs (Decidable (_ ∨ _))

def getLlcSap (env : DecodeEnv) (dsap : Nat) (d : DecodeState) : DecodeState :=
  if dsap = sapIp then getIp env d
  else if dsap = sapNetware then getIpx d
  else if dsap = sapNetbios then getNetbios (d.decodeProtoAdd "NETBIOS")
  else d.decodeProtoAddCase (sapLabels.lookup dsap)

def getLlc (env : DecodeEnv) (d : DecodeState) : DecodeState :=
  if d.window.len < 4 then d
  else
    let (dsap, d) := d.readByte 0
    let (ssap, d) := d.readByte 1
    if dsap = sapSnap ∧ ssap = sapSnap then
      let (eth2Type, d) := d.pntohs 6
      getEthII env eth2Type (d.addOffset 8)
    else
      let d := d.decodeProtoAdd "LLC"
      let (control, d) := d.readByte 2
      if ¬xdlcIsInformation control then d else getLlcSap env dsap (d.addOffset 3)

/-- Stores the MACs at the given offsets as `LINK6` ids, the destination first. -/
def setLink6NodeIds (dstofs srcofs : Nat) (d : DecodeState) : DecodeState :=
  let (dst, d) := d.readBytes dstofs 6
  let d := d.setDstNodeId ⟨.link6, d.dstNodeId.addr.setEth dst⟩
  let (src, d) := d.readBytes srcofs 6
  d.setSrcNodeId ⟨.link6, d.srcNodeId.addr.setEth src⟩

@[simp] theorem setLink6NodeIds_window (dstofs srcofs : Nat) (d : DecodeState) :
    (setLink6NodeIds dstofs srcofs d).window = d.window := rfl

/-- What `get_eth_type` does after it has found the size or type field `ethsize` at `sizeOffset`. -/
def getEthTypeAt (env : DecodeEnv) (sizeOffset ethsize : Nat) (d : DecodeState) : DecodeState :=
  if ethsize ≤ 1500 then
    let (raw, d) := d.matchBytes (sizeOffset + 2) [0xff, 0xff]
    let (isl, d) := d.matchBytes 0 [0x01, 0x00, 0x0C, 0x00, 0x00]
    if isl then d.decodeProtoAdd "ISL"
    else
      let d := (setLink6NodeIds 0 6 d).addOffset (sizeOffset + 2)
      if raw then d.decodeProtoAdd "802.3-RAW" else getLlc env (d.decodeProtoAdd "802.3")
  else
    let d := (setLink6NodeIds 0 6 d).addOffset (sizeOffset + 2)
    getEthII env ethsize (d.decodeProtoAdd "ETH_II")

def getEthType (env : DecodeEnv) (d : DecodeState) : DecodeState :=
  if d.window.len < 20 then d
  else
    let (ethsize, d) := d.pntohs 12
    if ethsize = ethertypeVlan then
      let d := d.decodeProtoAdd "802.1Q"
      let d := if env.debugEnabled then (d.pntohs 14).2 else d
      let (ethsize, d) := d.pntohs 16
      getEthTypeAt env 16 ethsize d
    else getEthTypeAt env 12 ethsize d

def getFddiType (env : DecodeEnv) (d : DecodeState) : DecodeState :=
  let d := d.decodeProtoAdd "FDDI"
  if d.window.len < 14 then d
  else
    let d := setLink6NodeIds 1 7 (d.decodeProtoAdd "LLC")
    if d.window.len < 21 then d
    else
      let (isIp, d) := d.matchBytes 19 [0x08, 0x00]
      if isIp then getIp env (d.addOffset 21) else d

def getIeee8025Type (env : DecodeEnv) (d : DecodeState) : DecodeState :=
  let d := d.decodeProtoAdd "Token Ring"
  if d.window.len < 15 then d
  else
    let d := setLink6NodeIds 2 8 d
    if d.window.len < 22 then d
    else
      let (isIp, d) := (d.decodeProtoAdd "LLC").matchBytes 20 [0x08, 0x00]
      if isIp then getIp env (d.addOffset 22) else d

/-- BSD loopback. -/
def getLoop (env : DecodeEnv) (d : DecodeState) : DecodeState :=
  let d := d.decodeProtoAdd (if env.lkentry.val.dltLinktype = dltLoop then "LOOP" else "NULL")
  getIp env (d.addOffset 4)

def getLinuxSll (env : DecodeEnv) (d : DecodeState) : DecodeState :=
  let d := d.decodeProtoAdd "LINUX-SLL"
  let (etype, d) := d.pntohs 14
  getEthII env etype (d.addOffset 16)

/-- Where a WLAN frame has its destination, by the two bits `fromtods`. -/
def wlanDstofs (fromtods : Nat) : Nat := if fromtods = 0 ∨ fromtods = 2 then 4 else 16

/-- Where a WLAN frame has its source, by the two bits `fromtods`. -/
def wlanSrcofs (fromtods : Nat) : Nat :=
  if fromtods = 0 ∨ fromtods = 1 then 10 else if fromtods = 2 then 16 else 24

/-- The control frames of `get_wlan`, of which only RTS has two addresses. -/
def getWlanCtrl (subtype srcofs : Nat) (d : DecodeState) : DecodeState :=
  let label := (wlanCtrlLabels.lookup subtype).getD "WLAN-CTRL-UNKN"
  if subtype = 11 then
    if d.window.len < srcofs + 6 then d
    else
      let (src, d) := d.readBytes srcofs 6
      let d := d.setSrcNodeId ⟨.link6, d.srcNodeId.addr.setEth src⟩
      (d.addOffset 16).decodeProtoAdd label
  else (d.addOffset 10).decodeProtoAdd label

/-- The switch on the frame type that `get_wlan` ends with. -/
def getWlanFrame (env : DecodeEnv) (type subtype wep : Nat) (d : DecodeState) : DecodeState :=
  if type = 2 then
    if wep = 0 then getLlc env (if subtype = 8 then d.addOffset 2 else d)
    else d.decodeProtoAdd "WLAN-CRYPTED"
  else if type = 0 then d.decodeProtoAdd ((wlanMgmtLabels.lookup subtype).getD "WLAN-MGMT-UNKN")
  else d

/-- `get_wlan` after the frame control field. -/
def getWlanAddrs (env : DecodeEnv) (type subtype fromtods wep : Nat) (d : DecodeState) :
    DecodeState :=
  let dstofs := wlanDstofs fromtods
  let srcofs := wlanSrcofs fromtods
  if d.window.len < dstofs + 6 then d
  else
    let (dst, d) := d.readBytes dstofs 6
    let d := d.setDstNodeId ⟨.link6, d.dstNodeId.addr.setEth dst⟩
    if type = 1 then getWlanCtrl subtype srcofs d
    else if d.window.len < srcofs + 6 then d
    else
      let (src, d) := d.readBytes srcofs 6
      let d := d.setSrcNodeId ⟨.link6, d.srcNodeId.addr.setEth src⟩
      getWlanFrame env type subtype wep (d.addOffset (if fromtods ≠ 3 then 24 else 30))

def getWlan (env : DecodeEnv) (d : DecodeState) : DecodeState :=
  let d := d.decodeProtoAdd "IEE802.11"
  if d.window.len < 10 then d
  else
    let (frameControl, d) := d.readByte 0
    let type := frameControl / 4 % 4
    let (frameControl, d) := d.readByte 0
    let subtype := frameControl / 16
    let (flags, d) := d.readByte 1
    let fromtods := flags % 4
    let (flags, d) := d.readByte 1
    let wep := flags / 64 % 2
    getWlanAddrs env type subtype fromtods wep d

def getRadiotap (env : DecodeEnv) (d : DecodeState) : DecodeState :=
  if d.window.len < 32 then d.decodeProtoAdd "RADIOTAP"
  else
    let (rtlen, d) := d.readU16 2
    getWlan env (d.addOffset rtlen)

/-! ### Dispatch -/

/-- The state when a decoder returned, or when it had used up its calls of `get_ppi`. -/
inductive Outcome
  | finished (d : DecodeState)
  | unfinished (d : DecodeState)

namespace Outcome

def state : Outcome → DecodeState
  | finished d => d
  | unfinished d => d

/-- Goes on with a decoder that returned. -/
def andThen (next : DecodeState → Outcome) : Outcome → Outcome
  | finished d => next d
  | unfinished d => unfinished d

end Outcome

def GetFun.call (env : DecodeEnv) (getPpi : DecodeState → Outcome) (d : DecodeState) :
    GetFun → Outcome
  | getEthType => .finished (EtherApe.getEthType env d)
  | getIp => .finished (EtherApe.getIp env d)
  | getLinuxSll => .finished (EtherApe.getLinuxSll env d)
  | getLoop => .finished (EtherApe.getLoop env d)
  | getFddiType => .finished (EtherApe.getFddiType env d)
  | getIeee8025Type => .finished (EtherApe.getIeee8025Type env d)
  | getWlan => .finished (EtherApe.getWlan env d)
  | getRadiotap => .finished (EtherApe.getRadiotap env d)
  | .getPpi => getPpi d

/-- The scan of the link type table in `get_ppi`, which goes on after an entry that fits. -/
def scanLinktypes (env : DecodeEnv) (getPpi : DecodeState → Outcome) (pphDlt : Nat) :
    List Linktype → DecodeState → Outcome
  | [], d => .finished d
  | entry :: entries, d =>
      if entry.val.dltLinktype = pphDlt then
        (entry.val.getFun.call env getPpi (d.setPphLkentry (some entry))).andThen
          (scanLinktypes env getPpi pphDlt entries)
      else scanLinktypes env getPpi pphDlt entries d

/-- `get_ppi`, cut off after the given number of calls. -/
def getPpi (env : DecodeEnv) : Nat → DecodeState → Outcome
  | 0, d => .unfinished d
  | calls + 1, d =>
      if d.window.len < 64 then .finished (d.decodeProtoAdd "PPI")
      else
        let (pphLen, d) := d.readU16 2
        let (pphDlt, d) := d.readU32 4
        let d := d.addOffset pphLen
        match d.pphLkentry.filter (·.val.dltLinktype = pphDlt) with
        | some entry => entry.val.getFun.call env (getPpi env calls) d
        | none =>
            scanLinktypes env (getPpi env calls) pphDlt linktypes.attach (d.setPphLkentry none)

/-- The first position gets the name of the topmost level. -/
def copyTopmost (d : DecodeState) : DecodeState :=
  match (List.finRange stackSize).reverse.findSome? fun i => d.pr.protonames i.succ with
  | some name => { d with pr := ⟨fun i => if i.val = 0 then some name else d.pr.protonames i⟩ }
  | none => d

/-- `get_packet_prot`, with at most `calls` calls of `get_ppi`. -/
def getPacketProt (env : DecodeEnv) (calls : Nat) (d : DecodeState) : Outcome :=
  (env.lkentry.val.getFun.call env (getPpi env calls) d).andThen fun d => .finished (copyTopmost d)

end EtherApe
