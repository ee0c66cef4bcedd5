import EtherApe.DecodeProto.Ppi
import EtherApe.Links

/-!
# Captures

The model of `packet_acquired`, of the protocol summary, and of `capture.c` as far as it sets up and
tears down what a capture has collected. One record holds the globals of these files; a run is a
sequence of events of the main loop, each of which is one call into the program.

Addresses that `malloc` returns are part of an event. All that is assumed of them is that they are
not in use.
-/

namespace EtherApe

inductive Status
  | stop
  | play
  | pause
  | capEof
deriving DecidableEq, Repr

structure Capture where
  captureStatus : Status
  now : Timeval
  nPackets : Nat
  store : PacketStore
  allNodes : NodesCatalog
  newNodes : List NodePtr
  allLinks : LinksCatalog
  conversations : Conversations
  protosummaryStats : Option TrafficStats
  pphLkentry : Option Linktype

/-- The addresses for what one packet may need: the packet itself and its two nodes. -/
structure Malloc where
  packet : PacketRef
  srcNode : NodeRef
  dstNode : NodeRef

namespace Capture

def initial (now : Timeval) : Capture where
  captureStatus := .stop
  now := now
  nPackets := 0
  store := PacketStore.empty
  allNodes := SortedTree.empty
  newNodes := []
  allLinks := SortedTree.empty
  conversations := Conversations.empty
  protosummaryStats := none
  pphLkentry := none

/-! ### The protocol summary -/

def protocolSummaryClose (s : Capture) : Capture :=
  match s.protosummaryStats with
  | some stats => { s with store := (stats.reset s.now s.store).1, protosummaryStats := none }
  | none => s

def protocolSummaryOpen (s : Capture) : Capture :=
  { s.protocolSummaryClose with protosummaryStats := some (TrafficStats.init s.now) }

def protocolSummaryAddPacket (s : Capture) (packet : PacketInfo) : Capture :=
  let s := if s.protosummaryStats.isNone then s.protocolSummaryOpen else s
  match s.protosummaryStats with
  | some stats =>
      let (store, stats) := stats.addPacket s.now s.store packet .eitherbound
      { s with store := store, protosummaryStats := some stats }
  | none => s

def protocolSummaryUpdateAll (s : Capture) (pref : Preferences) : Capture :=
  match s.protosummaryStats with
  | some stats =>
      let (_, store, stats) := stats.update s.now s.store pref.averagingTime pref.protoTimeoutTime
      { s with store := store, protosummaryStats := some stats }
  | none => s

/-! ### The catalogs -/

def nodesUpdate (s : Capture) (pref : Preferences) : Capture :=
  let ((store, newNodes), allNodes) :=
    nodesCatalogUpdateAll s.now pref (s.store, s.newNodes) s.allNodes
  { s with store := store, newNodes := newNodes, allNodes := allNodes }

def linksUpdate (s : Capture) (pref : Preferences) : Capture :=
  let ((store, conversations), allLinks) :=
    linksCatalogUpdateAll s.now pref (s.store, s.conversations) s.allLinks
  { s with store := store, conversations := conversations, allLinks := allLinks }

/-- `add_node_packet`: the node is created when it is missing, at address `addr`, and announced when
the packet is the only one it has. -/
def addNodePacket (s : Capture) (packet : PacketInfo) (nodeId : NodeId)
    (direction : PacketDirection) (addr : NodeRef) : Capture :=
  let node := (s.allNodes.lookup nodeId).getD (Node.create s.now addr nodeId)
  let (store, nodeStats) := node.nodeStats.addPacket s.now s.store packet direction
  { s with
    store := store
    allNodes := s.allNodes.upsert nodeId (Node.create s.now addr nodeId) fun node =>
      { node with nodeStats := nodeStats }
    newNodes :=
      if nodeStats.pktList.length = 1 then newNodesAdd s.newNodes node else s.newNodes }

def linksCatalogAddPacket (s : Capture) (linkId : LinkId) (packet : PacketInfo)
    (direction : PacketDirection) : Capture :=
  let link := (s.allLinks.lookup linkId).getD (Link.create s.now linkId)
  let (store, linkStats) := link.linkStats.addPacket s.now s.store packet direction
  { s with
    store := store
    allLinks := s.allLinks.upsert linkId (Link.create s.now linkId) fun link =>
      { link with linkStats := linkStats } }

/-! ### Packets -/

/-- Puts a fresh packet under `ref` and counts it. -/
def newPacket (s : Capture) (ref : PacketRef) : Capture :=
  let store := s.store.alloc ref
  { s with
    nPackets := s.nPackets + 1
    store := { store with totalMemPackets := store.totalMemPackets + 1 } }

def registerPacket (s : Capture) (packet : PacketInfo) (src dst : NodeId) (mem : Malloc) : Capture :=
  let s := s.newPacket packet.ref
  let s := s.addNodePacket packet src .outbound mem.srcNode
  let s := s.addNodePacket packet dst .inbound mem.dstNode
  let s := s.linksCatalogAddPacket (linkOf src dst).1 packet (linkOf src dst).2
  s.protocolSummaryAddPacket packet

/-- Runs the decoder, which has no result when it does not return or when an assertion fails. No more
calls of `get_ppi` can be needed than there are bytes, and one. -/
def decodePacket (s : Capture) (env : DecodeEnv) (rawPacket : Nat → UInt8) (rawSize : Nat) :
    Option DecodeState :=
  match getPacketProt env (rawSize + 1)
      (decodeProtoStart rawPacket rawSize s.conversations s.pphLkentry) with
  | .finished d => if d.crashed then none else some d
  | .unfinished _ => none

def packetAcquired (s : Capture) (env : DecodeEnv) (rawPacket : Nat → UInt8)
    (rawSize pktSize : Nat) (mem : Malloc) : Option Capture :=
  (s.decodePacket env rawPacket rawSize).map fun d =>
    let packet := ⟨mem.packet, pktSize, s.now, d.pr⟩
    let s := { s with conversations := d.conversations, pphLkentry := d.pphLkentry }
    s.registerPacket packet d.srcNodeId d.dstNodeId mem

/-! ### Start and stop -/

def startCapture (s : Capture) : Capture :=
  if s.captureStatus = .play then s
  else if s.captureStatus = .stop then
    { s.protocolSummaryOpen with
      allNodes := SortedTree.empty
      allLinks := SortedTree.empty
      captureStatus := .play }
  else { s with captureStatus := .play }

def pauseCapture (s : Capture) : Capture :=
  if s.captureStatus ≠ .play then s else { s with captureStatus := .pause }

/-- The end of the file is reached; only a capture that was not stopped reads on. -/
def endOfFile (s : Capture) : Capture :=
  if s.captureStatus = .stop then s else { s with captureStatus := .capEof }

def closeNodes (s : Capture) : Capture :=
  let ((store, newNodes), allNodes) := nodesCatalogClose s.now (s.store, s.newNodes) s.allNodes
  { s with store := store, newNodes := newNodes, allNodes := allNodes }

def closeLinks (s : Capture) : Capture :=
  let ((store, conversations), allLinks) :=
    linksCatalogClose s.now (s.store, s.conversations) s.allLinks
  { s with store := store, conversations := conversations, allLinks := allLinks }

def stopCapture (s : Capture) : Capture :=
  if s.captureStatus = .stop then s
  else
    let s := { s with captureStatus := .stop }
    let s := s.protocolSummaryClose.closeNodes.closeLinks
    { s with conversations := s.conversations.deleteConversations, newNodes := [] }

/-! ### Runs -/

def Fresh (s : Capture) (mem : Malloc) : Prop :=
  s.store.refCount mem.packet = none ∧
    (∀ node ∈ s.allNodes.values, node.addr ≠ mem.srcNode ∧ node.addr ≠ mem.dstNode) ∧
    mem.srcNode ≠ mem.dstNode

instance (s : Capture) (mem : Malloc) : Decidable (s.Fresh mem) :=
  inferInstanceAs (Decidable (_ ∧ _ ∧ _))

end Capture

/-- What the main loop may call. -/
inductive Event
  | clock (now : Timeval)
  | startCapture
  | pauseCapture
  | endOfFile
  | stopCapture
  | packetAcquired (env : DecodeEnv) (rawPacket : Nat → UInt8) (rawSize pktSize : Nat) (mem : Malloc)
  | nodesUpdate (pref : Preferences)
  | linksUpdate (pref : Preferences)
  | summaryUpdate (pref : Preferences)

namespace Capture

def step (s : Capture) : Event → Option Capture
  | .clock now => some { s with now := now }
  | .startCapture => some s.startCapture
  | .pauseCapture => some s.pauseCapture
  | .endOfFile => some s.endOfFile
  | .stopCapture => some s.stopCapture
  | .packetAcquired env rawPacket rawSize pktSize mem =>
      if s.captureStatus ≠ .stop ∧ s.Fresh mem then
        s.packetAcquired env rawPacket rawSize pktSize mem
      else none
  | .nodesUpdate pref => some (s.nodesUpdate pref)
  | .linksUpdate pref => some (s.linksUpdate pref)
  | .summaryUpdate pref => some (s.protocolSummaryUpdateAll pref)

/-- A run from the start of the program, with the state before each event. -/
inductive Run : List (Capture × Event) → Capture → Prop
  | initial (now : Timeval) : Run [] (initial now)
  | step {past : List (Capture × Event)} {s s' : Capture} (h : Run past s) (e : Event)
      (hstep : s.step e = some s') : Run (past ++ [(s, e)]) s'

theorem protocolSummaryAddPacket_eq (s : Capture) (packet : PacketInfo) :
    s.protocolSummaryAddPacket packet =
      { s with
        store := (s.store.packetListItemCreate packet .eitherbound).1
        protosummaryStats := some ((s.protosummaryStats.getD (TrafficStats.init s.now)).addPacket
          s.now s.store packet .eitherbound).2 } := by
  cases hsummary : s.protosummaryStats with
  | some stats => simp [protocolSummaryAddPacket, hsummary, TrafficStats.addPacket]
  | none =>
      simp [protocolSummaryAddPacket, protocolSummaryOpen, protocolSummaryClose, hsummary,
        TrafficStats.addPacket]

theorem decodePacket_eq_some_iff {s : Capture} {env : DecodeEnv} {rawPacket : Nat → UInt8}
    {rawSize : Nat} {d : DecodeState} :
    s.decodePacket env rawPacket rawSize = some d ↔
      (∃ calls, getPacketProt env calls
        (decodeProtoStart rawPacket rawSize s.conversations s.pphLkentry) = .finished d) ∧
      d.crashed = false := by
  unfold decodePacket
  constructor
  · intro h
    split at h
    next e he =>
      split at h
      next => exact absurd h.symm (Option.some_ne_none d)
      next hcrashed =>
        obtain rfl := Option.some.inj h
        exact ⟨⟨_, he⟩, by simpa using hcrashed⟩
    next => exact absurd h.symm (Option.some_ne_none d)
  · rintro ⟨⟨calls, hfinished⟩, hcrashed⟩
    have henough := getPacketProt_enough_calls hfinished
    rw [show (decodeProtoStart rawPacket rawSize s.conversations s.pphLkentry).window.len = rawSize
      from rfl] at henough
    rw [henough]
    simp [hcrashed]

theorem packetAcquired_eq_some {s s' : Capture} {env : DecodeEnv} {rawPacket : Nat → UInt8}
    {rawSize pktSize : Nat} {mem : Malloc}
    (h : s.packetAcquired env rawPacket rawSize pktSize mem = some s') :
    ∃ d, s.decodePacket env rawPacket rawSize = some d ∧
      s' = { s with conversations := d.conversations, pphLkentry := d.pphLkentry }.registerPacket
        ⟨mem.packet, pktSize, s.now, d.pr⟩ d.srcNodeId d.dstNodeId mem := by
  obtain ⟨d, hd, rfl⟩ := Option.map_eq_some_iff.mp h
  exact ⟨d, hd, rfl⟩

end Capture

end EtherApe
