import EtherApe.BasicStats
import EtherApe.Conversations
import EtherApe.Lib.Window
import Mathlib.Tactic.Simps.Basic

/-!
# State of the protocol decoder

`decode_proto_t` with what a decoder changes beside it: the conversation table and the entry that
`get_ppi` remembers. Every read through `cur_packet` is recorded, and so is every name a decoder
adds, kept or ignored, and an assertion that fails or a NULL pointer that is followed.
-/

namespace EtherApe

/-- The decoders the link type table refers to. -/
inductive GetFun
  | getEthType
  | getIp
  | getLinuxSll
  | getLoop
  | getFddiType
  | getIeee8025Type
  | getWlan
  | getRadiotap
  | getPpi
deriving DecidableEq, Repr

structure LinktypeData where
  ltDesc : String
  dltLinktype : Nat
  l2Idtype : ApeMode
  getFun : GetFun
deriving DecidableEq, Repr

def dltEn10mb : Nat := 1

def dltLoop : Nat := 108

def dltPpi : Nat := 192

def linktypes : List LinktypeData :=
  [⟨"Ethernet", dltEn10mb, .link6, .getEthType⟩,
    ⟨"RAW", 12, .ip, .getIp⟩,
    ⟨"LINUX_SLL", 113, .ip, .getLinuxSll⟩,
    ⟨"BSD Loopback", 0, .ip, .getLoop⟩,
    ⟨"OpenBSD Loopback", dltLoop, .ip, .getLoop⟩,
    ⟨"FDDI", 10, .link6, .getFddiType⟩,
    ⟨"IEEE802.5", 6, .link6, .getIeee8025Type⟩,
    ⟨"WLAN", 105, .link6, .getWlan⟩,
    ⟨"WLAN+RTAP", 127, .link6, .getRadiotap⟩,
    ⟨"PPI", dltPpi, .link6, .getPpi⟩]

/-- A pointer to an entry of the table. -/
abbrev Linktype := { entry : LinktypeData // entry ∈ linktypes }

def linktypeAt (i : Fin 10) : Linktype := ⟨linktypes.get i, List.get_mem _ _⟩

def linktypeEthernet : Linktype := linktypeAt 0

def linktypeRawIp : Linktype := linktypeAt 1

structure PortService where
  port : Nat
  name : String
  preferred : Bool
deriving DecidableEq, Repr

/-- What the decoders read besides the packet: the entry of the capture device, the preferences, the
service tables, and the values that the uninitialised `hi_byte` and `low_byte` of `get_ftp` hold. -/
structure DecodeEnv where
  lkentry : Linktype
  mode : ApeMode
  groupUnk : Bool
  debugEnabled : Bool
  servicesTcpFind : Nat → Option PortService
  servicesUdpFind : Nat → Option PortService
  uninitHiByte : Nat
  uninitLowByte : Nat

/-- An environment without any known service. -/
def DecodeEnv.bare (lkentry : Linktype) (mode : ApeMode) : DecodeEnv where
  lkentry := lkentry
  mode := mode
  groupUnk := false
  debugEnabled := false
  servicesTcpFind _ := none
  servicesUdpFind _ := none
  uninitHiByte := 0
  uninitLowByte := 0

/-- `decode_proto_t`, and from `conversations` on what a decoder changes beside it. -/
structure DecodeState where
  window : Window
  pr : PacketProtos
  curLevel : Nat
  dstNodeId : NodeId
  srcNodeId : NodeId
  globalSrcAddress : Address
  globalDstAddress : Address
  globalSrcPort : Nat
  globalDstPort : Nat
  conversations : Conversations
  pphLkentry : Option Linktype
  reads : List Access
  crashed : Bool
  added : List (String × Window)

/-- `decode_proto_start` on a captured packet; the conversations and the entry of the last PPI packet
are those earlier packets left. -/
def decodeProtoStart (bytes : Nat → UInt8) (caplen : Nat) (conversations : Conversations)
    (pphLkentry : Option Linktype) : DecodeState where
  window := Window.whole bytes caplen
  pr := PacketProtos.init
  curLevel := 1
  dstNodeId := NodeId.clear
  srcNodeId := NodeId.clear
  globalSrcAddress := Address.clear
  globalDstAddress := Address.clear
  globalSrcPort := 0
  globalDstPort := 0
  conversations := conversations
  pphLkentry := pphLkentry
  reads := []
  crashed := false
  added := []

namespace DecodeState

/-- Sets the name of the current level and passes to the next; a name that is too deeply nested is
ignored. -/
@[simps -fullyApplied]
def decodeProtoAdd (d : DecodeState) (name : String) : DecodeState :=
  { d with
    pr := if d.curLevel ≤ stackSize then
        ⟨fun i => if i.val = d.curLevel then some name else d.pr.protonames i⟩ else d.pr
    curLevel := if d.curLevel ≤ stackSize then d.curLevel + 1 else d.curLevel
    added := d.added ++ [(name, d.window)] }

/-- Adds the label of a switch, if the switch has a case. -/
def decodeProtoAddCase (d : DecodeState) : Option String → DecodeState
  | some name => d.decodeProtoAdd name
  | none => d

@[simps -fullyApplied]
def addOffset (d : DecodeState) (offset : Nat) : DecodeState :=
  { d with window := d.window.advance offset }

/-- `g_assert`. -/
@[simps -fullyApplied]
def gAssert (d : DecodeState) (holds : Bool) : DecodeState := { d with crashed := d.crashed || !holds }

@[simps -fullyApplied]
def setSrcNodeId (d : DecodeState) (id : NodeId) : DecodeState := { d with srcNodeId := id }

@[simps -fullyApplied]
def setDstNodeId (d : DecodeState) (id : NodeId) : DecodeState := { d with dstNodeId := id }

@[simps -fullyApplied]
def setGlobalAddresses (d : DecodeState) (src dst : Address) : DecodeState :=
  { d with globalSrcAddress := src, globalDstAddress := dst }

@[simps -fullyApplied]
def setGlobalPorts (d : DecodeState) (src dst : Nat) : DecodeState :=
  { d with globalSrcPort := src, globalDstPort := dst }

@[simps -fullyApplied]
def setConversations (d : DecodeState) (conversations : Conversations) : DecodeState :=
  { d with conversations := conversations }

@[simps -fullyApplied]
def setPphLkentry (d : DecodeState) (entry : Option Linktype) : DecodeState :=
  { d with pphLkentry := entry }

/-! ### Reads through `cur_packet` -/

/-- Records a read of `n` bytes at index `i`. -/
@[simps -fullyApplied]
def touch (d : DecodeState) (i n : Nat) : DecodeState :=
  { d with reads := d.reads ++ d.window.accesses i n }

def readByte (d : DecodeState) (i : Nat) : Nat × DecodeState :=
  ((d.window.get i).toNat, d.touch i 1)

def pntohs (d : DecodeState) (i : Nat) : Nat × DecodeState := (d.window.u16 i, d.touch i 2)

def pntohl (d : DecodeState) (i : Nat) : Nat × DecodeState := (d.window.u32 i, d.touch i 4)

def readU16 (d : DecodeState) (i : Nat) : Nat × DecodeState := (d.window.u16le i, d.touch i 2)

def readU32 (d : DecodeState) (i : Nat) : Nat × DecodeState := (d.window.u32le i, d.touch i 4)

/-- The source bytes of a `memmove` of `n` bytes. -/
def readBytes (d : DecodeState) (i n : Nat) : (Nat → UInt8) × DecodeState :=
  (fun j => d.window.get (i + j), d.touch i n)

/-- Whether the bytes at `i` are the given ones; the comparison stops at the first that differs. -/
def matchBytes (d : DecodeState) (i : Nat) : List UInt8 → Bool × DecodeState
  | [] => (true, d)
  | b :: bs =>
      if d.window.get i = b then (d.touch i 1).matchBytes (i + 1) bs else (false, d.touch i 1)

@[simp] theorem decodeProtoAddCase_window (d : DecodeState) (label : Option String) :
    (d.decodeProtoAddCase label).window = d.window := by
  cases label <;> rfl

theorem matchBytes_fst (d : DecodeState) (i : Nat) (bs : List UInt8) :
    (d.matchBytes i bs).1 = d.window.hasBytes i bs := by
  induction bs generalizing d i with
  | nil => rfl
  | cons b bs ih =>
      rw [matchBytes, Window.hasBytes]
      split
      next heq => simp [ih, heq]
      next hne => simp [hne]

theorem matchBytes_snd (d : DecodeState) (i : Nat) (bs : List UInt8) :
    ∃ reads, (d.matchBytes i bs).2 = { d with reads := reads } := by
  induction bs generalizing d i with
  | nil => exact ⟨d.reads, rfl⟩
  | cons b bs ih =>
      rw [matchBytes]
      split
      · exact ih _ _
      · exact ⟨_, rfl⟩

section MatchBytes

variable (d : DecodeState) (i : Nat) (bs : List UInt8)

@[simp] theorem matchBytes_window : (d.matchBytes i bs).2.window = d.window := by
  obtain ⟨reads, h⟩ := matchBytes_snd d i bs
  rw [h]

@[simp] theorem matchBytes_conversations :
    (d.matchBytes i bs).2.conversations = d.conversations := by
  obtain ⟨reads, h⟩ := matchBytes_snd d i bs
  rw [h]

@[simp] theorem matchBytes_srcNodeId : (d.matchBytes i bs).2.srcNodeId = d.srcNodeId := by
  obtain ⟨reads, h⟩ := matchBytes_snd d i bs
  rw [h]

@[simp] theorem matchBytes_dstNodeId : (d.matchBytes i bs).2.dstNodeId = d.dstNodeId := by
  obtain ⟨reads, h⟩ := matchBytes_snd d i bs
  rw [h]

@[simp] theorem matchBytes_added : (d.matchBytes i bs).2.added = d.added := by
  obtain ⟨reads, h⟩ := matchBytes_snd d i bs
  rw [h]

end MatchBytes

end DecodeState

end EtherApe
