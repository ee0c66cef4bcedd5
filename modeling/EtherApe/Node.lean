import EtherApe.Lib.Sweep
import EtherApe.TrafficStats.Refresh

/-!
# Nodes

The model of `node.c`: the nodes catalog and the list of nodes that the diagram has not seen yet.
That list holds pointers, so a node carries its address, and a pointer the id that its node had when
it was made. A closed catalog behaves as an empty one.
-/

namespace EtherApe

/-- The preferences that the updates of the catalogs and of the diagram read. -/
structure Preferences where
  averagingTime : ℚ
  protoTimeoutTime : ℚ
  guiNodeTimeoutTime : ℚ
  nodeTimeoutTime : ℚ
  protoNodeTimeoutTime : ℚ
  linkTimeoutTime : ℚ
  protoLinkTimeoutTime : ℚ

/-- The address of a `node_t`. -/
abbrev NodeRef := Nat

structure Node where
  addr : NodeRef
  nodeId : NodeId
  mainProt : Level → Option String
  nodeStats : TrafficStats

/-- A pointer to a node. -/
structure NodePtr where
  addr : NodeRef
  nodeId : NodeId
deriving DecidableEq

abbrev NodesCatalog := SortedTree nodeIdCompare Node

namespace Node

def create (now : Timeval) (addr : NodeRef) (nodeId : NodeId) : Node :=
  { addr := addr, nodeId := nodeId, mainProt := fun _ => none, nodeStats := TrafficStats.init now }

def ptr (node : Node) : NodePtr := ⟨node.addr, node.nodeId⟩

end Node

/-! ### New nodes -/

def newNodesAdd (newNodes : List NodePtr) (node : Node) : List NodePtr := node.ptr :: newNodes

/-- Removes the first pointer to the node. -/
def newNodesRemove (newNodes : List NodePtr) (node : Node) : List NodePtr :=
  newNodes.eraseP fun p => p.addr = node.addr

/-- The first new node whose id is still in the catalog, and the list after it. -/
def newNodesPop (allNodes : NodesCatalog) : List NodePtr → Option NodePtr × List NodePtr
  | [] => (none, [])
  | p :: newNodes =>
      if (allNodes.lookup p.nodeId).isSome then (some p, newNodes)
      else newNodesPop allNodes newNodes

/-! ### Updates -/

/-- `node_update`; an expired node leaves the list of new nodes at once, and is queued for removal. -/
def nodeUpdate (now : Timeval) (pref : Preferences) (s : PacketStore × List NodePtr) (_ : NodeId)
    (node : Node) : SortedTree.Visited (PacketStore × List NodePtr) Node :=
  let r := node.nodeStats.refresh now s.1 pref.averagingTime pref.protoNodeTimeoutTime
    pref.nodeTimeoutTime node.mainProt
  { state := (r.store, if r.expired then newNodesRemove s.2 node else s.2)
    value := { node with mainProt := r.mainProt, nodeStats := r.stats }
    obsolete := r.expired }

def nodeDelete (now : Timeval) (s : PacketStore × List NodePtr) (node : Node) :
    PacketStore × List NodePtr :=
  ((node.nodeStats.reset now s.1).1, s.2)

def nodesCatalogUpdateAll (now : Timeval) (pref : Preferences) (s : PacketStore × List NodePtr)
    (allNodes : NodesCatalog) : (PacketStore × List NodePtr) × NodesCatalog :=
  allNodes.sweep (nodeUpdate now pref) (nodeDelete now) s

def nodesCatalogClose (now : Timeval) (s : PacketStore × List NodePtr) (allNodes : NodesCatalog) :
    (PacketStore × List NodePtr) × NodesCatalog :=
  (allNodes.destroyAll (nodeDelete now) s, SortedTree.empty)

def updatedNode (now : Timeval) (pref : Preferences) (node : Node) : Node :=
  let r := node.nodeStats.refresh now PacketStore.empty pref.averagingTime
    pref.protoNodeTimeoutTime pref.nodeTimeoutTime node.mainProt
  { node with mainProt := r.mainProt, nodeStats := r.stats }

def nodeExpired (now : Timeval) (pref : Preferences) (node : Node) : Bool :=
  (node.nodeStats.refresh now PacketStore.empty pref.averagingTime pref.protoNodeTimeoutTime
    pref.nodeTimeoutTime node.mainProt).expired

section Update

variable (now : Timeval) (pref : Preferences)

theorem nodeUpdate_value (s : PacketStore × List NodePtr) (k : NodeId) (node : Node) :
    (nodeUpdate now pref s k node).value = updatedNode now pref node := by
  obtain ⟨hstats, hmain, _⟩ := TrafficStats.refresh_congr now s.1 pref.averagingTime
    pref.protoNodeTimeoutTime pref.nodeTimeoutTime node.mainProt node.nodeStats PacketStore.empty
  simp only [nodeUpdate, updatedNode, hstats, hmain]

theorem nodeUpdate_obsolete (s : PacketStore × List NodePtr) (k : NodeId) (node : Node) :
    (nodeUpdate now pref s k node).obsolete = nodeExpired now pref node :=
  (TrafficStats.refresh_congr now s.1 pref.averagingTime pref.protoNodeTimeoutTime
    pref.nodeTimeoutTime node.mainProt node.nodeStats PacketStore.empty).2.2

theorem updatedNode_pktList (node : Node) :
    (updatedNode now pref node).nodeStats.pktList =
      node.nodeStats.pktList.dropWhile (TrafficStats.itemExpired now pref.averagingTime) :=
  TrafficStats.refresh_pktList now _ _ _ _ _ _

theorem pktList_of_nodeExpired {node : Node} (h : nodeExpired now pref node = true) :
    (updatedNode now pref node).nodeStats.pktList = [] :=
  TrafficStats.pktList_of_refresh_expired now _ _ _ _ _ _ h

theorem mem_nodesCatalogUpdateAll {s : PacketStore × List NodePtr} {allNodes : NodesCatalog}
    {e : NodeId × Node} :
    e ∈ (nodesCatalogUpdateAll now pref s allNodes).2.entries ↔
      ∃ node, (e.1, node) ∈ allNodes.entries ∧ e.2 = updatedNode now pref node ∧
        nodeExpired now pref node = false :=
  SortedTree.mem_sweep (fun _ => updatedNode now pref) (fun _ => nodeExpired now pref)
    (nodeUpdate_value now pref) (nodeUpdate_obsolete now pref)

end Update

end EtherApe
