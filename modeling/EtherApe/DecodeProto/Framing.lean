import EtherApe.DecodeProto.State

/-!
# Ethernet II frames

TCP and UDP packets over IPv4 and IPv6 as they are framed on an Ethernet, field by field, and the
node ids such a frame stands for. Nothing here refers to the decoder.
-/

namespace EtherApe

def be16 (n : Nat) : List UInt8 := [UInt8.ofNat (n / 256), UInt8.ofNat n]

/-- An IPv4 header of 20 to 60 bytes for an unfragmented packet. -/
structure Ipv4Header where
  tos : UInt8
  totalLength : Octets 2
  ident : Octets 2
  flags : Fin 8
  ttl : UInt8
  checksum : Octets 2
  src : Octets 4
  dst : Octets 4
  optionWords : Fin 11
  options : Octets (4 * optionWords.val)

def Ipv4Header.bytes (h : Ipv4Header) (protocol : Nat) : List UInt8 :=
  [UInt8.ofNat (0x45 + h.optionWords.val), h.tos] ++ List.ofFn h.totalLength ++ List.ofFn h.ident ++
    [UInt8.ofNat (32 * h.flags.val), 0, h.ttl, UInt8.ofNat protocol] ++ List.ofFn h.checksum ++
    List.ofFn h.src ++ List.ofFn h.dst ++ List.ofFn h.options

/-- The fixed IPv6 header. -/
structure Ipv6Header where
  trafficClassHigh : Fin 16
  trafficClassAndFlow : Octets 3
  payloadLength : Octets 2
  hopLimit : UInt8
  src : Octets 16
  dst : Octets 16

def Ipv6Header.bytes (h : Ipv6Header) (nextHeader : Nat) : List UInt8 :=
  [UInt8.ofNat (0x60 + h.trafficClassHigh.val)] ++ List.ofFn h.trafficClassAndFlow ++
    List.ofFn h.payloadLength ++ [UInt8.ofNat nextHeader, h.hopLimit] ++ List.ofFn h.src ++
    List.ofFn h.dst

inductive IpHeader
  | v4 (h : Ipv4Header)
  | v6 (h : Ipv6Header)

/-- What follows the ports: the rest of a TCP header with its options, or of a UDP header. -/
inductive TransportRest
  | tcp (seqAck : Octets 8) (optionWords : Fin 11) (reserved : Fin 16) (flagsToUrgent : Octets 7)
      (options : Octets (4 * optionWords.val))
  | udp (lengthChecksum : Octets 4)

structure EthFrame where
  dstMac : Octets 6
  srcMac : Octets 6
  tag : Option (Octets 2)
  ip : IpHeader
  srcPort : Fin 65536
  dstPort : Fin 65536
  transport : TransportRest

namespace TransportRest

def protocol : TransportRest → Nat
  | tcp .. => 6
  | udp _ => 17

def bytes : TransportRest → List UInt8
  | tcp seqAck optionWords reserved flagsToUrgent options =>
      List.ofFn seqAck ++ [UInt8.ofNat (16 * (5 + optionWords.val) + reserved.val)] ++
        List.ofFn flagsToUrgent ++ List.ofFn options
  | udp lengthChecksum => List.ofFn lengthChecksum

end TransportRest

namespace IpHeader

def ethertype : IpHeader → Nat
  | v4 _ => 0x0800
  | v6 _ => 0x86dd

def bytes (protocol : Nat) : IpHeader → List UInt8
  | v4 h => h.bytes protocol
  | v6 h => h.bytes protocol

/-- The family in the four bytes of a little-endian number, the address, and zeros. -/
def address (family : UInt8) (addr : List UInt8) : Address :=
  fun i => ([family, 0, 0, 0] ++ addr).getD i.val 0

def src : IpHeader → Address
  | v4 h => address 2 (List.ofFn h.src)
  | v6 h => address 10 (List.ofFn h.src)

def dst : IpHeader → Address
  | v4 h => address 2 (List.ofFn h.dst)
  | v6 h => address 10 (List.ofFn h.dst)

end IpHeader

namespace EthFrame

/-- An 802.1Q tag is inserted before the type. -/
def tagBytes : Option (Octets 2) → List UInt8
  | none => []
  | some tci => be16 0x8100 ++ List.ofFn tci

def transportHeader (f : EthFrame) : List UInt8 :=
  be16 f.srcPort.val ++ be16 f.dstPort.val ++ f.transport.bytes

def headers (f : EthFrame) : List UInt8 :=
  List.ofFn f.dstMac ++ List.ofFn f.srcMac ++ tagBytes f.tag ++ be16 f.ip.ethertype ++
    f.ip.bytes f.transport.protocol ++ f.transportHeader

/-- The first `caplen` bytes at `bytes` are those of the frame with the payload, and reach at least
through the headers. -/
structure CapturedAs (f : EthFrame) (payload : List UInt8) (bytes : Nat → UInt8) (caplen : Nat) :
    Prop where
  headers_le : f.headers.length ≤ caplen
  le_frame : caplen ≤ (f.headers ++ payload).length
  bytes_eq : ∀ i < caplen, (f.headers ++ payload)[i]? = some (bytes i)

end EthFrame

/-! ### Node ids of endpoints -/

/-- The id whose union starts with the given bytes and is zero behind them. -/
def nodeIdOf (nodeType : ApeMode) (addr : List UInt8) : NodeId :=
  ⟨nodeType, fun i => addr.getD i.val 0⟩

def link6Id (mac : Octets 6) : NodeId := nodeIdOf .link6 (List.ofFn mac)

def ipId (address : Address) : NodeId := nodeIdOf .ip (List.ofFn address)

/-- The port is stored in host order, its low byte first. -/
def tcpId (address : Address) (port : Nat) : NodeId :=
  nodeIdOf .tcp (List.ofFn address ++ [UInt8.ofNat port, UInt8.ofNat (port / 256)])

end EtherApe
