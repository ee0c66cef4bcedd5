import EtherApe.DecodeProto.State
import EtherApe.NamesNetbios

/-!
# Name decoder

The model of `names.c`: `get_packet_names` goes through the levels of a protocol stack once more, with an
offset of its own, and registers the names it finds. Every byte of the packet that is read is recorded
by its index, and every call of `add_name` by its arguments.
-/

namespace EtherApe

open Printf CInt

/-- What the name decoder reads besides the packet. -/
structure NamesEnv where
  mode : ApeMode
  nameRes : Bool
  getEtherName : List UInt8 → Option (List UInt8)
  dnsLookup : Address → List UInt8
  servicesTcpFind : Nat → Option PortService
  stray : StrayBytes

/-- The fields of `name_add_t` that stay as `get_packet_names` sets them. -/
structure NameInput where
  packet : RawPacket
  dir : PacketDirection
  linkType : Nat
  tokens : PacketProtos

/-- A call of `add_name`: the level and the name of its protocol, and the arguments. -/
structure AddedName where
  level : Nat
  protocol : String
  numeric : List UInt8
  resolved : Option (List UInt8)
  nodeId : NodeId

/-- The fields of `name_add_t` that change, and what has been read and registered. -/
structure NameAdd where
  offset : Nat
  nodeId : NodeId
  level : Nat
  reads : List Int
  names : List AddedName

/-- `protonames[level]`, for a level up to `STACK_SIZE`. -/
def PacketProtos.token (tokens : PacketProtos) (level : Nat) : Option String :=
  if h : level < stackSize + 1 then tokens.protonames ⟨level, h⟩ else none

/-- The state with the topmost id still uninitialised. -/
def NameAdd.start (uninit : NodeId) : NameAdd := ⟨0, uninit, 1, [], []⟩

def dltFddi : Nat := 10

def dltIeee802 : Nat := 6

def addressLen (type : Nat) : Nat := if type = afInet then 4 else if type = afInet6 then 16 else 0

namespace NameAdd

/-- Adds to the 16-bit offset. -/
@[simps -fullyApplied]
def advance (nt : NameAdd) (n : Nat) : NameAdd := { nt with offset := (nt.offset + n) % 65536 }

@[simps -fullyApplied]
def setNodeId (nt : NameAdd) (id : NodeId) : NameAdd := { nt with nodeId := id }

@[simps -fullyApplied]
def touch (nt : NameAdd) (indices : List Int) : NameAdd := { nt with reads := nt.reads ++ indices }

@[simps -fullyApplied]
def nextLevel (nt : NameAdd) : NameAdd := { nt with level := nt.level + 1 }

/-- `add_name`. -/
@[simps -fullyApplied]
def addName (nt : NameAdd) (inp : NameInput) (numeric : List UInt8) (resolved : Option (List UInt8)) :
    NameAdd :=
  { nt with
    names := nt.names ++
      [⟨nt.level, (inp.tokens.token nt.level).getD "", numeric, resolved, nt.nodeId⟩] }

end NameAdd

def NameInput.byte (inp : NameInput) (i : Int) : Nat := (inp.packet.p i).toNat

def NameInput.pntohs (inp : NameInput) (i : Int) : Nat := inp.byte i * 256 + inp.byte (i + 1)

/-! ### Node ids -/

/-- The size check of `fill_node_id`, in which a negative displacement becomes a large `size_t`. -/
def fillFits (inp : NameInput) (offset : Nat) (disp portdisp : Int) (sz : Nat) : Prop :=
  (unsigned 64 (offset + disp) + sz) % 2 ^ 64 ≤ inp.packet.packetSize ∧
    offset + portdisp + 2 ≤ inp.packet.packetSize

instance (inp : NameInput) (offset : Nat) (disp portdisp : Int) (sz : Nat) :
    Decidable (fillFits inp offset disp portdisp sz) := inferInstanceAs (Decidable (_ ∧ _))

def fillSize (apemode : ApeMode) (type : Nat) : Nat :=
  match apemode with
  | .apemodeDefault => 0
  | .link6 => 6
  | .ip => addressLen type
  | .tcp => addressLen type

def filledNodeId (inp : NameInput) (apemode : ApeMode) (offset : Nat) (disp portdisp : Int)
    (type : Nat) : NodeId :=
  let src (k : Nat) : UInt8 := inp.packet.p (offset + disp + k)
  let host := (Address.clear.setType type).setAddr (addressLen type) src
  match apemode with
  | .apemodeDefault => ⟨apemode, Octets.zero⟩
  | .link6 => ⟨apemode, NodeAddr.setEth Octets.zero src⟩
  | .ip => ⟨apemode, NodeAddr.setIp Octets.zero host⟩
  | .tcp =>
      ⟨apemode, (NodeAddr.setTcp4Host Octets.zero host).setTcp4Port (inp.pntohs (offset + portdisp))⟩

def fillReads (apemode : ApeMode) (offset : Nat) (disp portdisp : Int) (type : Nat) : List Int :=
  indicesFrom (offset + disp) (fillSize apemode type) ++
    if apemode = .tcp then indicesFrom (offset + portdisp) 2 else []

/-- `fill_node_id` on the id of `nt`; without enough data the id is left cleared. -/
def fillNodeId (inp : NameInput) (apemode : ApeMode) (disp portdisp : Int) (type : Nat) (nt : NameAdd) :
    NameAdd :=
  if fillFits inp nt.offset disp portdisp (fillSize apemode type) then
    (nt.touch (fillReads apemode nt.offset disp portdisp type)).setNodeId
      (filledNodeId inp apemode nt.offset disp portdisp type)
  else nt.setNodeId ⟨apemode, Octets.zero⟩

/-! ### Link layer -/

def getNullName (nt : NameAdd) : Bool × NameAdd := (true, nt.advance 4)

def getLinuxSllName (nt : NameAdd) : Bool × NameAdd := (true, nt.advance 16)

/-- `get_link6_name`, which is `eth_name_common` for `LINK6`, an enumerator of value zero. -/
def getLink6Name (env : NamesEnv) (inp : NameInput) (nt : NameAdd) : Bool × NameAdd :=
  let nt := fillNodeId inp .link6 (if inp.dir = .inbound then 0 else 6) 0 0 nt
  let numeric := etherToStr nt.nodeId.addr.eth
  let solved := if env.nameRes then env.getEtherName nt.nodeId.addr.eth else none
  (true, (nt.addName inp numeric solved).advance 14)

def getLlcName (inp : NameInput) (nt : NameAdd) : Bool × NameAdd :=
  if inp.linkType = dltFddi ∨ inp.linkType = dltIeee802 then (true, nt.advance 8)
  else if inp.linkType = dltEn10mb then (true, nt.advance 3)
  else (false, nt)

/-! ### Network layer -/

/-- Registers the address in `nt`, as a name that is looked up if names are resolved. -/
def addAddressName (env : NamesEnv) (inp : NameInput) (numeric : List UInt8) (nt : NameAdd) : NameAdd :=
  nt.addName inp numeric (if env.nameRes then some (env.dnsLookup nt.nodeId.addr.ip) else none)

def getArpName (env : NamesEnv) (inp : NameInput) (nt : NameAdd) : Bool × NameAdd :=
  if inp.dir = .inbound then (false, nt)
  else if inp.packet.packetSize ≤ nt.offset + 4 then (false, nt)
  else
    let protocolType := inp.pntohs (nt.offset + 2)
    let nt := nt.touch (indicesFrom (nt.offset + 2) 2)
    if protocolType ≠ 0x0800 then (false, nt)
    else if inp.packet.packetSize ≤ nt.offset + 7 then (false, nt)
    else
      let hardwareLen := inp.byte (nt.offset + 4)
      let nt := nt.touch (indicesFrom (nt.offset + 4) 2)
      let nt := fillNodeId inp .ip (8 + hardwareLen) 0 afInet nt
      (false, nt.addName inp (ipv4ToStr (nt.nodeId.addr.ip.addrBytes 4))
        (some (env.dnsLookup nt.nodeId.addr.ip)))

def getIpName (env : NamesEnv) (inp : NameInput) (nt : NameAdd) : Bool × NameAdd :=
  let nt := fillNodeId inp .ip (if inp.dir = .inbound then 16 else 12) 0 afInet nt
  let nt := addAddressName env inp (ipv4ToStr (nt.nodeId.addr.ip.addrBytes 4)) nt
  if nt.offset < inp.packet.packetSize then
    (true, (nt.touch [(nt.offset : Int)]).advance (inp.byte nt.offset % 16 * 4))
  else (true, nt)

def getIpv6Name (env : NamesEnv) (inp : NameInput) (nt : NameAdd) : Bool × NameAdd :=
  let nt := fillNodeId inp .ip (if inp.dir = .inbound then 24 else 8) 0 afInet6 nt
  let nt := addAddressName env inp (ipv6ToStr (nt.nodeId.addr.ip.addrBytes 16)) nt
  (true, nt.advance 40)

def getIpxName (nt : NameAdd) : Bool × NameAdd := (true, nt.advance 30)

/-! ### Transport layer -/

/-- The part of `get_tcp_name` for TCP mode, which looks for the address before the header. -/
def addTcpName (env : NamesEnv) (inp : NameInput) (nt : NameAdd) : NameAdd :=
  let type := nt.nodeId.addr.tcp4Host.type
  let shift := if type = afInet6 then 4 else 1
  let nt :=
    if inp.dir = .outbound then fillNodeId inp .tcp (-8 * shift) 0 type nt
    else fillNodeId inp .tcp (-4 * shift) 2 type nt
  let port := nt.nodeId.addr.tcp4Port
  let numericName := addressToStr nt.nodeId.addr.tcp4Host ++ lit ":" ++ decimal port
  let resolvedName :=
    if env.nameRes then
      some (env.dnsLookup nt.nodeId.addr.tcp4Host ++ lit ":" ++
        match env.servicesTcpFind port with
        | some service => lit service.name
        | none => decimal port)
    else none
  nt.addName inp numericName resolvedName

def getTcpName (env : NamesEnv) (inp : NameInput) (nt : NameAdd) : Bool × NameAdd :=
  let nt := if env.mode = .tcp then addTcpName env inp nt else nt
  if inp.packet.packetSize ≤ nt.offset + 14 then (false, nt)
  else
    let thOffX2 := inp.byte (nt.offset + 12)
    (true, (nt.touch [(nt.offset : Int) + 12]).advance (thOffX2 / 16 * 4))

def getUdpName (nt : NameAdd) : Bool × NameAdd := (true, nt.advance 8)

/-! ### Names above the transport layer -/

/-- The bytes from an index up to the first zero, as far as the captured ones go, and whether there is
one. -/
def scanZero (inp : NameInput) : Nat → Nat → List UInt8 × Bool
  | 0, _ => ([], false)
  | n + 1, curpos =>
      let c := inp.packet.p curpos
      if c = 0 then ([], true)
      else
        let (name, found) := scanZero inp n (curpos + 1)
        (c :: name, found)

def getIpxsapName (inp : NameInput) (nt : NameAdd) : Bool × NameAdd :=
  if inp.packet.packetSize ≤ nt.offset + 2 then (false, nt)
  else
    let sapType := inp.pntohs nt.offset
    let nt := nt.touch (indicesFrom nt.offset 2)
    if sapType ≠ 2 then (false, nt)
    else
      -- the position is a 16-bit number, the pointer to the name is not
      let curpos := (nt.offset + 4) % 65536
      let (scanned, found) := scanZero inp (inp.packet.packetSize - curpos) curpos
      let nt := nt.touch (indicesFrom curpos (scanned.length + if found then 1 else 0))
      if ¬found then (false, nt)
      else
        let (name, _) := scanZero inp 65536 (nt.offset + 4)
        let nt := nt.touch (indicesFrom (nt.offset + 4) (name.length + 1))
        (false, nt.addName inp name (some name))

/-- The size of the buffers for NetBIOS names. -/
def nameSize : Nat := (netbiosNameLen - 1) * 4 + maxdname

def unpadded (name : List UInt8) : List UInt8 :=
  (name.take (netbiosNameLen - 1)).takeWhile fun c => c ≠ 32

/-- Registers a NetBIOS name, unless it is illegal. -/
def addNetbiosName (inp : NameInput) (found : NbnsName) (nt : NameAdd) : NameAdd :=
  let name := unpadded found.outname
  -- a name without padding has its end where the string of its type begins
  let suffix :=
    if name.length = netbiosNameLen - 1 then [] else found.outname.drop (netbiosNameLen - 1)
  if name = lit "Illegal" then nt
  else
    nt.addName inp
      (name ++ lit " " ++ suffix ++ lit " (" ++ lit (getNetbiosHostType found.nameType) ++ lit ")")
      (some name)

/-- The first of two names of a packet, or the one behind it if `second`. -/
def nbnsNames (env : NamesEnv) (inp : NameInput) (rounds : Nat) (second : Bool) (nt : NameAdd) :
    Option NbnsName × NameAdd :=
  match etherealNbnsName env.stray rounds inp.packet nt.offset nameSize with
  | (none, reads) => (none, nt.touch reads)
  | (some name, reads) =>
      if second then
        let (name', reads') :=
          etherealNbnsName env.stray rounds inp.packet (nt.offset + name.nameLen) nameSize
        (name', nt.touch (reads ++ reads'))
      else (some name, nt.touch reads)

/-- The case of `get_nbss_name` for a session request; `none` while a name is still being read. -/
def getSessionRequestName (env : NamesEnv) (inp : NameInput) (rounds : Nat) (nt : NameAdd) :
    Option Bool × NameAdd :=
  if inp.packet.packetSize ≤ nt.offset + 2 then (some false, nt)
  else
    let length := inp.pntohs (nt.offset + 2)
    let nt := (nt.touch (indicesFrom (nt.offset + 2) 2)).advance 2
    if inp.packet.packetSize ≤ nt.offset + length then (some false, nt)
    else
      match nbnsNames env inp rounds (inp.dir = .outbound) nt with
      | (none, nt) => (none, nt)
      | (some found, nt) => (some true, (addNetbiosName inp found nt).advance length)

def getNbssName (env : NamesEnv) (inp : NameInput) (rounds : Nat) (nt : NameAdd) :
    Option Bool × NameAdd :=
  if inp.packet.packetSize < nt.offset + 1 then (some false, nt)
  else
    let mesgType := inp.byte nt.offset
    let nt := (nt.touch [(nt.offset : Int)]).advance 2
    if mesgType = 0x81 then getSessionRequestName env inp rounds nt else (some true, nt)

def getNbdgmName (env : NamesEnv) (inp : NameInput) (rounds : Nat) (nt : NameAdd) :
    Option Bool × NameAdd :=
  if inp.packet.packetSize < nt.offset + 1 then (some false, nt)
  else
    let mesgType := inp.byte nt.offset
    let nt := (nt.touch [(nt.offset : Int)]).advance 10
    if mesgType = 0x10 ∨ mesgType = 0x11 ∨ mesgType = 0x12 then
      match nbnsNames env inp rounds (inp.dir = .inbound) (nt.advance 4) with
      | (none, nt) => (none, nt)
      | (some found, nt) => (some false, addNetbiosName inp found nt)
    else if (mesgType = 0x14 ∨ mesgType = 0x15 ∨ mesgType = 0x16) ∧ inp.dir = .inbound then
      match nbnsNames env inp rounds false nt with
      | (none, nt) => (none, nt)
      | (some found, nt) => (some false, addNetbiosName inp found nt)
    else (some false, nt)

/-! ### Dispatch -/

/-- The decoders of `prot_functions_table`. -/
inductive NameFun
  | getLink6Name
  | getNullName
  | getLinuxSllName
  | getLlcName
  | getArpName
  | getIpName
  | getIpv6Name
  | getIpxName
  | getTcpName
  | getUdpName
  | getIpxsapName
  | getNbssName
  | getNbdgmName
deriving DecidableEq, Repr

def protFunctionsTable : List (String × NameFun) :=
  [("ETH_II", .getLink6Name), ("802.2", .getLink6Name), ("802.3", .getLink6Name),
    ("ISL", .getLink6Name), ("NULL", .getNullName), ("LINUX-SLL", .getLinuxSllName),
    ("FDDI", .getLink6Name), ("Token Ring", .getLink6Name), ("LLC", .getLlcName),
    ("ARP", .getArpName), ("IP", .getIpName), ("IPV6", .getIpv6Name), ("IPX", .getIpxName),
    ("TCP", .getTcpName), ("UDP", .getUdpName), ("IPX-SAP", .getIpxsapName),
    ("NETBIOS-SSN", .getNbssName), ("NETBIOS-DGM", .getNbdgmName)]

/-- Calls a decoder; `none` while a name is still being read. -/
def NameFun.call (env : NamesEnv) (inp : NameInput) (rounds : Nat) (nt : NameAdd) :
    NameFun → Option Bool × NameAdd
  | getLink6Name => (EtherApe.getLink6Name env inp nt).map some id
  | getNullName => (EtherApe.getNullName nt).map some id
  | getLinuxSllName => (EtherApe.getLinuxSllName nt).map some id
  | getLlcName => (EtherApe.getLlcName inp nt).map some id
  | getArpName => (EtherApe.getArpName env inp nt).map some id
  | getIpName => (EtherApe.getIpName env inp nt).map some id
  | getIpv6Name => (EtherApe.getIpv6Name env inp nt).map some id
  | getIpxName => (EtherApe.getIpxName nt).map some id
  | getTcpName => (EtherApe.getTcpName env inp nt).map some id
  | getUdpName => (EtherApe.getUdpName nt).map some id
  | getIpxsapName => (EtherApe.getIpxsapName inp nt).map some id
  | getNbssName => EtherApe.getNbssName env inp rounds nt
  | getNbdgmName => EtherApe.getNbdgmName env inp rounds nt

/-- `decode_next`, over as many levels as are left; the first component tells whether it returned. -/
def decodeNext (env : NamesEnv) (inp : NameInput) (rounds : Nat) : Nat → NameAdd → Bool × NameAdd
  | 0, nt => (true, nt)
  | levels + 1, nt =>
      match inp.tokens.token nt.level with
      | none => (true, nt)
      | some name =>
          match protFunctionsTable.lookup name with
          | none => decodeNext env inp rounds levels nt.nextLevel
          | some nextFunc =>
              if inp.packet.packetSize ≤ nt.offset then (true, nt)
              else
                match nextFunc.call env inp rounds nt with
                | (none, nt) => (false, nt)
                | (some false, nt) => (true, nt)
                | (some true, nt) => decodeNext env inp rounds levels nt.nextLevel

/-- The state of the protocol decoder at the start of a packet. -/
def RawPacket.decodeStart (packet : RawPacket) (conversations : Conversations)
    (pphLkentry : Option Linktype) : DecodeState :=
  decodeProtoStart (fun i => packet.p i) packet.packetSize conversations pphLkentry

/-- What `add_node_packet` passes to `get_packet_names` besides the protocols of the node. -/
def DecodeState.nameInput (d : DecodeState) (env : DecodeEnv) (packet : RawPacket)
    (direction : PacketDirection) : NameInput where
  packet := packet
  dir := direction
  linkType := env.lkentry.val.dltLinktype
  tokens := d.pr

/-- `get_packet_names`, with at most `rounds` rounds for each domain name; `uninit` is what the id in
`name_add_t` holds before the first one is filled in. -/
def getPacketNames (env : NamesEnv) (inp : NameInput) (uninit : NodeId) (rounds : Nat) :
    Bool × NameAdd :=
  decodeNext env inp rounds stackSize (NameAdd.start uninit)

end EtherApe
