import EtherApe.Capture
import EtherApe.Lib.Grouping
import EtherApe.Lib.Runs
import EtherApe.Names

/-!
# Names of nodes

The model of `name_t` and of `add_name`, and of the part of `node.c` that chooses what a node is called.
The names of a node hang on the protocols of its stack and go with them; a protocol is known by its level
and its name, since no level has two of one name. The capture of `Capture.lean` runs on as it is, and the
texts and names of its nodes are kept beside it, by the ids of the nodes.

A result of `none` stands for a pointer that is `NULL` where it is followed, and for a name decoder that
does not return.
-/

namespace EtherApe

open Printf

/-- `name_t`. -/
structure NodeName where
  nodeId : NodeId
  accumulated : Nat
  numericName : Option (List UInt8)
  resName : Option (List UInt8)

/-- The arguments of `node_name_assign`, with the id that the name is found by. -/
structure Registration where
  nodeId : NodeId
  resolved : Option (List UInt8)
  numeric : List UInt8
  size : Nat

namespace NodeName

def create (nodeId : NodeId) : NodeName := ⟨nodeId, 0, none, none⟩

def assign (name : NodeName) (r : Registration) : NodeName :=
  { name with
    numericName := some r.numeric
    resName := if r.resolved.isSome then r.resolved else name.resName
    accumulated := name.accumulated + r.size }

/-- The order of `node_name_freq_compare`: the busiest name comes first. -/
def freqLe (a b : NodeName) : Prop := b.accumulated ≤ a.accumulated

instance : DecidableRel freqLe := fun _ _ => inferInstanceAs (Decidable (_ ≤ _))

/-- The names of a protocol, one for each node id. -/
def grouping : Grouping NodeId NodeName Registration where
  key := nodeId
  entryKey := Registration.nodeId
  new := create
  apply := assign
  key_new _ := rfl
  key_apply _ _ := rfl

end NodeName

def nodeIdStr (id : NodeId) : List UInt8 :=
  match id.nodeType with
  | .apemodeDefault => lit "00:00:00:00:00:00"
  | .link6 => etherToStr id.addr.eth
  | .ip => addressToStr id.addr.ip
  | .tcp => addressToStr id.addr.tcp4Host ++ lit ":" ++ decimal id.addr.tcp4Port

/-- The texts of a node, and the names of its protocols by their level and name. -/
structure NodeLabels where
  name : List UInt8
  numericName : List UInt8
  nodeNames : Nat → String → List NodeName

/-- A protocol whose name a node may take, if need be only once it is resolved. -/
structure NameDecode where
  protocol : String
  mustResolve : Bool

def ethernetSequence : List NameDecode :=
  [⟨"ETH_II", true⟩, ⟨"802.2", true⟩, ⟨"803.3", true⟩, ⟨"FDDI", true⟩, ⟨"IEEE802", true⟩,
    ⟨"NETBIOS-DGM", false⟩, ⟨"NETBIOS-SSN", false⟩, ⟨"IP", false⟩, ⟨"IPV6", false⟩,
    ⟨"IPX-SAP", false⟩, ⟨"ARP", false⟩, ⟨"ETH_II", false⟩, ⟨"802.2", false⟩, ⟨"802.3", false⟩,
    ⟨"FDDI", false⟩, ⟨"IEEE802", false⟩]

def ipSequence : List NameDecode :=
  [⟨"NETBIOS-DGM", false⟩, ⟨"NETBIOS-SSN", false⟩, ⟨"IP", false⟩, ⟨"IPV6", false⟩]

def tcpSequence : List NameDecode := [⟨"TCP", false⟩]

namespace NodeLabels

/-- The part of `node_create` that is not modelled in `Node.create`. -/
def create (nodeId : NodeId) : NodeLabels := ⟨nodeIdStr nodeId, nodeIdStr nodeId, fun _ _ => []⟩

def setNames (node : NodeLabels) (level : Nat) (protocol : String) (names : List NodeName) :
    NodeLabels :=
  { node with
    nodeNames := fun i n => if i = level ∧ n = protocol then names else node.nodeNames i n }

/-- `add_name`, with the arguments of a call and what it reads of the preferences and of `name_add_t`. -/
def addName (protos : Protostack) (tokens : PacketProtos) (nameRes : Bool) (packetSize : Nat)
    (node : NodeLabels) (a : AddedName) : Option NodeLabels :=
  match protos.find a.level (tokens.token a.level) with
  | none => none
  | some protocol =>
      let r : Registration := ⟨a.nodeId, if nameRes then a.resolved else none, a.numeric, packetSize⟩
      some (node.setNames a.level protocol.name
        (NodeName.grouping.enter nodeIdCompare (node.nodeNames a.level protocol.name) r))

/-- The names that go with the protocols that are purged. -/
def keepNames (protos : Protostack) (node : NodeLabels) : NodeLabels :=
  { node with
    nodeNames := fun i n => if (protos.find i (some n)).isSome then node.nodeNames i n else [] }

/-- A name that can be taken: with a text that is resolved, where one is asked for. -/
def usable (nameRes : Bool) (iter : NameDecode) (name : NodeName) : Prop :=
  name.resName.isSome ∨ ¬iter.mustResolve ∨ ¬nameRes

instance (nameRes : Bool) (iter : NameDecode) (name : NodeName) :
    Decidable (usable nameRes iter name) := inferInstanceAs (Decidable (_ ∨ _))

/-- The protocols and levels in the order in which `set_node_name` looks at them, level `0` left out. -/
def searchOrder (sequence : List NameDecode) : List (NameDecode × Nat) :=
  sequence.flatMap fun iter => (List.range stackSize).reverse.map fun j => (iter, j + 1)

/-- The loops of `set_node_name`, over what is left of the search. -/
def setNodeNameLoop (nameRes : Bool) (protos : Protostack) (node : NodeLabels) :
    List (NameDecode × Nat) → Option NodeLabels
  | [] => some node
  | (iter, j) :: rest =>
      match protos.find j (some iter.protocol) with
      | none => setNodeNameLoop nameRes protos node rest
      | some protocol =>
          match node.nodeNames j protocol.name with
          | [] => setNodeNameLoop nameRes protos node rest
          | name :: _ =>
              if usable nameRes iter name then
                name.numericName.map fun numericName =>
                  { node with name := name.resName.getD node.name, numericName := numericName }
              else setNodeNameLoop nameRes protos node rest

def setNodeName (nameRes : Bool) (protos : Protostack) (node : NodeLabels)
    (sequence : List NameDecode) : Option NodeLabels :=
  setNodeNameLoop nameRes protos node (searchOrder sequence)

def sortNames (node : NodeLabels) : NodeLabels :=
  { node with nodeNames := fun i n => (node.nodeNames i n).insertionSort NodeName.freqLe }

def sequenceOf : ApeMode → List NameDecode
  | .link6 => ethernetSequence
  | .ip => ipSequence
  | .tcp => tcpSequence
  | .apemodeDefault => []

def nodeNameUpdate (mode : ApeMode) (nameRes : Bool) (protos : Protostack) (node : NodeLabels) :
    Option NodeLabels :=
  node.sortNames.setNodeName nameRes protos (sequenceOf mode)

def update (now : Timeval) (pref : Preferences) (mode : ApeMode) (nameRes : Bool) (node : Node)
    (labels : NodeLabels) : Option NodeLabels :=
  let protos := (updatedNode now pref node).nodeStats.statsProtos
  if (node.nodeStats.update now PacketStore.empty pref.averagingTime pref.protoNodeTimeoutTime).1 then
    (labels.keepNames protos).nodeNameUpdate mode nameRes protos
  else some (labels.keepNames protos)

end NodeLabels

/-! ### Captures with names -/

structure NamedCapture where
  capture : Capture
  labels : SortedTree nodeIdCompare NodeLabels

/-- What a call of `get_packet_names` reads besides the packet. -/
structure NamesCall where
  env : NamesEnv
  uninit : NodeId
  rounds : Nat

/-- A packet that arrives: `rawSize` bytes were captured of `pktSize`. -/
structure Frame where
  env : DecodeEnv
  rawPacket : Int → UInt8
  rawSize : Nat
  pktSize : Nat
  mem : Malloc
  srcCall : NamesCall
  dstCall : NamesCall

namespace Frame

/-- The packet as the name decoder sees it, whose size has 16 bits. -/
def packet (f : Frame) : RawPacket := ⟨f.rawPacket, f.rawSize % 65536, Nat.mod_lt _ (Nat.succ_pos _)⟩

def call (f : Frame) (direction : PacketDirection) : NamesCall :=
  if direction = .inbound then f.dstCall else f.srcCall

def input (f : Frame) (d : DecodeState) (direction : PacketDirection) : NameInput :=
  d.nameInput f.env f.packet direction

def names (f : Frame) (d : DecodeState) (direction : PacketDirection) : Bool × NameAdd :=
  getPacketNames (f.call direction).env (f.input d direction) (f.call direction).uninit
    (f.call direction).rounds

def decode (f : Frame) (s : Capture) : Option DecodeState :=
  s.decodePacket f.env (fun i => f.rawPacket i) f.rawSize

end Frame

inductive NamedEvent
  | clock (now : Timeval)
  | startCapture
  | pauseCapture
  | endOfFile
  | stopCapture
  | packetAcquired (frame : Frame)
  | nodesUpdate (pref : Preferences) (mode : ApeMode) (nameRes : Bool)
  | linksUpdate (pref : Preferences)
  | summaryUpdate (pref : Preferences)

/-- The event without what concerns the names. -/
def NamedEvent.event : NamedEvent → Event
  | .clock now => .clock now
  | .startCapture => .startCapture
  | .pauseCapture => .pauseCapture
  | .endOfFile => .endOfFile
  | .stopCapture => .stopCapture
  | .packetAcquired f => .packetAcquired f.env (fun i => f.rawPacket i) f.rawSize f.pktSize f.mem
  | .nodesUpdate pref _ _ => .nodesUpdate pref
  | .linksUpdate pref => .linksUpdate pref
  | .summaryUpdate pref => .summaryUpdate pref

namespace NamedCapture

def initial (now : Timeval) : NamedCapture := ⟨Capture.initial now, SortedTree.empty⟩

/-- `add_node_packet`, with the names of the packet. -/
def addNodePacket (s : NamedCapture) (packet : PacketInfo) (nodeId : NodeId)
    (direction : PacketDirection) (addr : NodeRef) (f : Frame) (d : DecodeState) :
    Option NamedCapture :=
  let capture := s.capture.addNodePacket packet nodeId direction addr
  match f.names d direction with
  | (false, _) => none
  | (true, nt) => do
      let node ← capture.allNodes.lookup nodeId
      let labels ← nt.names.foldlM
        (NodeLabels.addName node.nodeStats.statsProtos (f.input d direction).tokens
          (f.call direction).env.nameRes (f.input d direction).packet.packetSize)
        ((s.labels.lookup nodeId).getD (NodeLabels.create nodeId))
      some ⟨capture, s.labels.upsert nodeId labels fun _ => labels⟩

/-- `Capture.registerPacket`, with the names of the packet. -/
def registerPacket (s : NamedCapture) (packet : PacketInfo) (f : Frame) (d : DecodeState) :
    Option NamedCapture := do
  let s : NamedCapture := { s with capture := s.capture.newPacket packet.ref }
  let s ← s.addNodePacket packet d.srcNodeId .outbound f.mem.srcNode f d
  let s ← s.addNodePacket packet d.dstNodeId .inbound f.mem.dstNode f d
  let link := linkOf d.srcNodeId d.dstNodeId
  some { s with
    capture := (s.capture.linksCatalogAddPacket link.1 packet link.2).protocolSummaryAddPacket packet }

def packetAcquired (s : NamedCapture) (f : Frame) : Option NamedCapture := do
  let d ← f.decode s.capture
  let capture := { s.capture with conversations := d.conversations, pphLkentry := d.pphLkentry }
  registerPacket { s with capture := capture } ⟨f.mem.packet, f.pktSize, s.capture.now, d.pr⟩ f d

def updateLabels (s : NamedCapture) (pref : Preferences) (mode : ApeMode) (nameRes : Bool)
    (id : NodeId) (labels : NodeLabels) : Option NodeLabels :=
  match s.capture.allNodes.lookup id with
  | some node => labels.update s.capture.now pref mode nameRes node
  | none => some labels

def expired (s : NamedCapture) (pref : Preferences) (id : NodeId) : Bool :=
  match s.capture.allNodes.lookup id with
  | some node => nodeExpired s.capture.now pref node
  | none => true

/-- The part of `node_update` that concerns texts and names. -/
def visitLabels (s : NamedCapture) (pref : Preferences) (mode : ApeMode) (nameRes : Bool) (_ : Unit)
    (id : NodeId) (labels : NodeLabels) : SortedTree.Visited Unit NodeLabels where
  state := ()
  value := (s.updateLabels pref mode nameRes id labels).getD labels
  obsolete := s.expired pref id

def nodesUpdate (s : NamedCapture) (pref : Preferences) (mode : ApeMode) (nameRes : Bool) :
    Option NamedCapture :=
  if s.labels.entries.all fun e => (s.updateLabels pref mode nameRes e.1 e.2).isSome then
    some
      { capture := s.capture.nodesUpdate pref
        labels := (s.labels.sweep (s.visitLabels pref mode nameRes) (fun _ _ => ()) ()).2 }
  else none

def step (s : NamedCapture) : NamedEvent → Option NamedCapture
  | .clock now => some { s with capture := { s.capture with now := now } }
  | .startCapture =>
      some
        { capture := s.capture.startCapture
          labels := if s.capture.captureStatus = .stop then SortedTree.empty else s.labels }
  | .pauseCapture => some { s with capture := s.capture.pauseCapture }
  | .endOfFile => some { s with capture := s.capture.endOfFile }
  | .stopCapture =>
      some
        { capture := s.capture.stopCapture
          labels := if s.capture.captureStatus = .stop then s.labels else SortedTree.empty }
  | .packetAcquired f =>
      if s.capture.captureStatus ≠ .stop ∧ s.capture.Fresh f.mem then s.packetAcquired f else none
  | .nodesUpdate pref mode nameRes => s.nodesUpdate pref mode nameRes
  | .linksUpdate pref => some { s with capture := s.capture.linksUpdate pref }
  | .summaryUpdate pref => some { s with capture := s.capture.protocolSummaryUpdateAll pref }

def machine (now : Timeval) : Machine NamedCapture NamedEvent := ⟨initial now, step⟩

end NamedCapture

end EtherApe
