import EtherApe.Capture.References
import EtherApe.Diagram

/-!
# New nodes are announced

A node enters the list of new nodes when its packet list grows from nothing to one packet, and leaves
it when a refresh looks at it, or when it is deleted. A refresh is the only time packets are dropped,
and it empties the list right after. So between the events a node in the list has packets, and that is
why it is never put there twice. A canvas node that is queued for deletion counts as gone already: it
was queued because its node had no packets, so a packet that comes later announces the node again.
-/

namespace EtherApe

def Node.withPacket (node : Node) (now : Timeval) (store : PacketStore) (packet : PacketInfo)
    (direction : PacketDirection) : Node :=
  { node with nodeStats := (node.nodeStats.addPacket now store packet direction).2 }

/-- What `add_node_packet` does: one entry, found or made, gets the packet, and the others stay. -/
theorem Capture.addNodePacket_spec (s : Capture) (packet : PacketInfo) (nodeId : NodeId)
    (direction : PacketDirection) (addr : NodeRef) :
    ∃ key node, nodeIdCompare nodeId key = 0 ∧
      ((key, node) ∈ s.allNodes.entries ∨
        (∀ e ∈ s.allNodes.entries, nodeIdCompare nodeId e.1 ≠ 0) ∧ key = nodeId ∧
          node = Node.create s.now addr nodeId) ∧
      (∀ e, e ∈ (s.addNodePacket packet nodeId direction addr).allNodes.entries ↔
        e = (key, node.withPacket s.now s.store packet direction) ∨
          (nodeIdCompare nodeId e.1 ≠ 0 ∧ e ∈ s.allNodes.entries)) ∧
      (s.addNodePacket packet nodeId direction addr).newNodes =
        if node.nodeStats.pktList = [] then node.ptr :: s.newNodes else s.newNodes := by
  have hnew : ∀ (node : Node) (l : List NodePtr),
      (if (node.nodeStats.addPacket s.now s.store packet direction).2.pktList.length = 1 then
        newNodesAdd l node else l) = if node.nodeStats.pktList = [] then node.ptr :: l else l := by
    intro node l
    have hlength : (node.nodeStats.addPacket s.now s.store packet direction).2.pktList.length = 1 ↔
        node.nodeStats.pktList = [] := by
      change (node.nodeStats.pktList ++ [_]).length = 1 ↔ _
      rw [List.length_append, List.length_singleton, Nat.add_eq_right, List.length_eq_zero_iff]
    simp only [hlength, newNodesAdd]
  cases hfound : s.allNodes.lookup nodeId with
  | some node =>
      obtain ⟨key, hmem, hkey⟩ := SortedTree.exists_mem_of_lookup hfound
      refine ⟨key, node, hkey, Or.inl hmem, fun e => ?_, ?_⟩
      · refine SortedTree.mem_upsert.trans (or_congr ?_ Iff.rfl)
        rw [hfound, Option.getD_some]
        constructor
        · rintro ⟨he, ⟨old, hold, hvalue⟩ | ⟨hnone, _⟩⟩
          · have heq := SortedTree.eq_of_mem_of_cmp hold hmem (ThreeWay.eq_trans (ThreeWay.eq_symm he) hkey)
            obtain ⟨hk, rfl⟩ := Prod.mk.inj heq
            exact Prod.ext hk hvalue
          · exact absurd hnone (Option.some_ne_none node)
        · rintro rfl
          exact ⟨hkey, Or.inl ⟨node, hmem, rfl⟩⟩
      · have hthis := hnew node s.newNodes
        simp only [addNodePacket, hfound, Option.getD_some]
        exact hthis
  | none =>
      have hnone := SortedTree.lookup_eq_none_iff.mp hfound
      refine ⟨nodeId, Node.create s.now addr nodeId, ThreeWay.refl nodeId, Or.inr ⟨hnone, rfl, rfl⟩,
        fun e => ?_, ?_⟩
      · refine SortedTree.mem_upsert.trans (or_congr ?_ Iff.rfl)
        rw [hfound, Option.getD_none]
        constructor
        · rintro ⟨he, ⟨old, hold, _⟩ | ⟨_, heq⟩⟩
          · exact absurd he (hnone (e.1, old) hold)
          · exact heq
        · rintro rfl
          exact ⟨ThreeWay.refl nodeId, Or.inr ⟨rfl, rfl⟩⟩
      · have hthis := hnew (Node.create s.now addr nodeId) s.newNodes
        simp only [addNodePacket, hfound, Option.getD_none]
        exact hthis

/-- Every node with packets either has a canvas node that will be `kept` or is in the list of new
nodes, which holds distinct nodes with packets. -/
structure Announced (kept : NodeId → Prop) (s : Capture) : Prop where
  ids : ∀ e ∈ s.allNodes.entries, e.2.nodeId = e.1
  addrs : ∀ e ∈ s.allNodes.entries, ∀ f ∈ s.allNodes.entries, e.2.addr = f.2.addr → e = f
  nodup : (s.newNodes.map NodePtr.addr).Nodup
  known : ∀ p ∈ s.newNodes, ∃ e ∈ s.allNodes.entries, e.2.ptr = p ∧ e.2.nodeStats.pktList ≠ []
  seen : ∀ e ∈ s.allNodes.entries, e.2.nodeStats.pktList ≠ [] → kept e.1 ∨ e.2.ptr ∈ s.newNodes

namespace Announced

variable {kept : NodeId → Prop} {s : Capture}

theorem empty (hnodes : s.allNodes = SortedTree.empty) (hnew : s.newNodes = []) :
    Announced kept s := by
  have hnone : ∀ e, e ∉ s.allNodes.entries := by
    rw [hnodes]
    exact fun _ => List.not_mem_nil
  exact
    { ids := fun e he => absurd he (hnone e)
      addrs := fun e he => absurd he (hnone e)
      nodup := hnew ▸ List.nodup_nil
      known := fun p hp => absurd (hnew ▸ hp) List.not_mem_nil
      seen := fun e he => absurd he (hnone e) }

theorem of_eq (h : Announced kept s) {s' : Capture} (hnodes : s'.allNodes = s.allNodes)
    (hnew : s'.newNodes = s.newNodes) : Announced kept s' where
  ids := hnodes ▸ h.ids
  addrs := hnodes ▸ h.addrs
  nodup := hnew ▸ h.nodup
  known := hnodes ▸ hnew ▸ h.known
  seen := hnodes ▸ hnew ▸ h.seen

theorem mono {kept' : NodeId → Prop} (hkept : ∀ id, kept id → kept' id) (h : Announced kept s) :
    Announced kept' s where
  ids := h.ids
  addrs := h.addrs
  nodup := h.nodup
  known := h.known
  seen e he hpackets := (h.seen e he hpackets).imp_left (hkept _)

theorem addNodePacket (h : Announced kept s) (packet : PacketInfo) (nodeId : NodeId)
    (direction : PacketDirection) (addr : NodeRef)
    (hfresh : ∀ e ∈ s.allNodes.entries, e.2.addr ≠ addr) :
    Announced kept (s.addNodePacket packet nodeId direction addr) := by
  obtain ⟨key, node, hkey, hbase, hentries, hnewNodes⟩ :=
    s.addNodePacket_spec packet nodeId direction addr
  -- among the old entries only the node's own has its address or its key
  have hown : ∀ e ∈ s.allNodes.entries,
      e.2.addr = node.addr ∨ nodeIdCompare nodeId e.1 = 0 → e = (key, node) := by
    rcases hbase with hmem | ⟨hnone, rfl, rfl⟩
    · rintro e he (haddr | hcmp)
      · exact h.addrs e he _ hmem haddr
      · exact SortedTree.eq_of_mem_of_cmp he hmem (ThreeWay.eq_trans (ThreeWay.eq_symm hcmp) hkey)
    · rintro e he (haddr | hcmp)
      · exact absurd haddr (hfresh e he)
      · exact absurd hcmp (hnone e he)
  have hid : node.nodeId = key := by
    rcases hbase with hmem | ⟨_, rfl, rfl⟩
    · exact h.ids _ hmem
    · rfl
  have hpackets : (node.withPacket s.now s.store packet direction).nodeStats.pktList ≠ [] :=
    List.append_ne_nil_of_right_ne_nil _ (List.cons_ne_nil _ _)
  constructor
  case ids =>
    intro e he
    rcases (hentries e).mp he with rfl | ⟨_, hold⟩
    · exact hid
    · exact h.ids e hold
  case addrs =>
    intro e he f hf haddr
    rcases (hentries e).mp he with rfl | ⟨hne, hold⟩ <;> rcases (hentries f).mp hf with rfl | ⟨hnf, hfold⟩
    · rfl
    · rw [hown f hfold (Or.inl haddr.symm)] at hnf
      exact absurd hkey hnf
    · rw [hown e hold (Or.inl haddr)] at hne
      exact absurd hkey hne
    · exact h.addrs e hold f hfold haddr
  case nodup =>
    rw [hnewNodes]
    split
    next hempty =>
      refine List.nodup_cons.mpr ⟨fun hmem => ?_, h.nodup⟩
      obtain ⟨p, hp, haddr⟩ := List.mem_map.mp hmem
      obtain ⟨f, hf, rfl, hfpackets⟩ := h.known p hp
      rw [hown f hf (Or.inl haddr)] at hfpackets
      exact hfpackets hempty
    next => exact h.nodup
  case known =>
    intro p hp
    have hcases : p = node.ptr ∨ p ∈ s.newNodes := by
      rw [hnewNodes] at hp
      split at hp
      · exact List.mem_cons.mp hp
      · exact Or.inr hp
    rcases hcases with rfl | hp
    · exact ⟨_, (hentries _).mpr (Or.inl rfl), rfl, hpackets⟩
    · obtain ⟨f, hf, rfl, hfpackets⟩ := h.known p hp
      by_cases hcmp : nodeIdCompare nodeId f.1 = 0
      · rw [hown f hf (Or.inr hcmp)]
        exact ⟨_, (hentries _).mpr (Or.inl rfl), rfl, hpackets⟩
      · exact ⟨f, (hentries f).mpr (Or.inr ⟨hcmp, hf⟩), rfl, hfpackets⟩
  case seen =>
    have hgrows : ∀ p ∈ s.newNodes, p ∈ (s.addNodePacket packet nodeId direction addr).newNodes := by
      intro p hp
      rw [hnewNodes]
      split
      · exact List.mem_cons_of_mem _ hp
      · exact hp
    intro e he hepackets
    rcases (hentries e).mp he with rfl | ⟨_, hold⟩
    · by_cases hempty : node.nodeStats.pktList = []
      · right
        rw [hnewNodes, if_pos hempty]
        exact List.mem_cons_self
      · rcases hbase with hmem | ⟨_, _, rfl⟩
        · exact (h.seen _ hmem hempty).imp_right (hgrows _)
        · exact absurd rfl hempty
    · exact (h.seen e hold hepackets).imp_right (hgrows _)

theorem registerPacket (h : Announced kept s) (packet : PacketInfo) (src dst : NodeId)
    {mem : Malloc} (hfresh : s.Fresh mem) : Announced kept (s.registerPacket packet src dst mem) := by
  have haddrs : ∀ e ∈ s.allNodes.entries, e.2.addr ≠ mem.srcNode ∧ e.2.addr ≠ mem.dstNode :=
    fun e he => hfresh.2.1 e.2 (List.mem_map_of_mem he)
  have hcounted : Announced kept (s.newPacket packet.ref) := h.of_eq rfl rfl
  have hsrc := hcounted.addNodePacket packet src .outbound mem.srcNode fun e he => (haddrs e he).1
  have hdst := hsrc.addNodePacket packet dst .inbound mem.dstNode fun e he => ?_
  · refine hdst.of_eq ?_ ?_
    · rw [Capture.registerPacket, Capture.protocolSummaryAddPacket_eq]
      rfl
    · rw [Capture.registerPacket, Capture.protocolSummaryAddPacket_eq]
      rfl
  · obtain ⟨key, node, _, hbase, hentries, _⟩ :=
      (s.newPacket packet.ref).addNodePacket_spec packet src .outbound mem.srcNode
    rcases (hentries e).mp he with rfl | ⟨_, hold⟩
    · rcases hbase with hmem | ⟨_, _, rfl⟩
      · exact (haddrs _ hmem).2
      · exact hfresh.2.2
    · exact (haddrs e hold).2

end Announced

namespace Diagram

/-! ### A refresh looks at every new node -/

def Shown (d : Diagram) (id : NodeId) : Prop := (d.canvasNodes.lookup id).isSome

theorem displayNode_of_packets (now : Timeval) (pref : Preferences) {node : Node}
    (h : node.nodeStats.pktList ≠ []) : displayNode now pref node :=
  fun hold => h (List.length_eq_zero_iff.mp hold.2.2)

theorem newNodesPop_spec (allNodes : NodesCatalog) (newNodes : List NodePtr) :
    (newNodesPop allNodes newNodes = (none, []) ∧
      ∀ p ∈ newNodes, (allNodes.lookup p.nodeId).isSome = false) ∨
    ∃ p rest skipped, newNodesPop allNodes newNodes = (some p, rest) ∧
      newNodes = skipped ++ p :: rest ∧ ∀ q ∈ skipped, (allNodes.lookup q.nodeId).isSome = false := by
  induction newNodes with
  | nil => exact Or.inl ⟨rfl, fun _ hp => absurd hp List.not_mem_nil⟩
  | cons p newNodes ih =>
      rw [newNodesPop]
      split
      next => exact Or.inr ⟨p, newNodes, [], rfl, rfl, fun _ hq => absurd hq List.not_mem_nil⟩
      next hgone =>
        have hp : (allNodes.lookup p.nodeId).isSome = false := by simpa using hgone
        rcases ih with ⟨hpop, hall⟩ | ⟨q, rest, skipped, hpop, hsplit, hskipped⟩
        · exact Or.inl ⟨hpop, List.forall_mem_cons.mpr ⟨hp, hall⟩⟩
        · exact Or.inr ⟨q, rest, p :: skipped, hpop, congrArg (p :: ·) hsplit,
            List.forall_mem_cons.mpr ⟨hp, hskipped⟩⟩

section CheckNewNode

variable (pref : Preferences) (p : NodePtr) (d : Diagram)

theorem checkNewNode_capture : (d.checkNewNode pref p).capture = d.capture := by
  unfold checkNewNode
  split
  · split <;> rfl
  · rfl

theorem checkNewNode_shown {id : NodeId} (h : d.Shown id) : (d.checkNewNode pref p).Shown id := by
  unfold checkNewNode
  split
  · split
    next node _ hnew =>
      have hnone : d.canvasNodes.lookup node.nodeId = none := by simpa using hnew.2
      obtain ⟨c, hc⟩ := Option.isSome_iff_exists.mp h
      obtain ⟨k, hmem, hk⟩ := SortedTree.exists_mem_of_lookup hc
      exact Option.isSome_iff_exists.mpr ⟨c, SortedTree.lookup_eq_some_iff.mpr
        ⟨k, (SortedTree.mem_insert hnone).mpr (Or.inr hmem), hk⟩⟩
    next => exact h
  · exact h

/-- A new node with packets has a canvas node after it is looked at. -/
theorem checkNewNode_shows {e : NodeId × Node} (he : e ∈ d.capture.allNodes.entries)
    (hid : e.2.nodeId = e.1)
    (haddr : ∀ f ∈ d.capture.allNodes.entries, f.2.addr = e.2.addr → f = e)
    (hpackets : e.2.nodeStats.pktList ≠ []) : (d.checkNewNode pref e.2.ptr).Shown e.1 := by
  have hfound : nodeAt d.capture.allNodes e.2.ptr = some e.2 := by
    cases hnode : nodeAt d.capture.allNodes e.2.ptr with
    | none =>
        have hne := List.find?_eq_none.mp hnode e.2 (List.mem_map_of_mem he)
        exact absurd (decide_eq_true rfl) hne
    | some node =>
        obtain ⟨f, hf, rfl⟩ := List.mem_map.mp (List.mem_of_find?_eq_some hnode)
        unfold nodeAt at hnode
        have hsame : decide (f.2.addr = e.2.addr) = true := List.find?_some (a := f.2) hnode
        rw [haddr f hf (of_decide_eq_true hsame)]
  unfold checkNewNode
  rw [hfound]
  dsimp only
  rw [← hid]
  split
  next hnew =>
    have hnone : d.canvasNodes.lookup e.2.nodeId = none := by simpa using hnew.2
    exact Option.isSome_iff_exists.mpr ⟨_, SortedTree.lookup_insert hnone⟩
  next hold =>
    have hnone := not_and.mp hold (displayNode_of_packets d.capture.now pref hpackets)
    rw [Option.isNone_iff_eq_none] at hnone
    exact Option.isSome_iff_ne_none.mpr hnone

end CheckNewNode

/-- The loop empties the list, and every node with packets that was in it has a canvas node then. -/
theorem checkNewNodes_spec (pref : Preferences) {rounds : Nat} {d : Diagram}
    (hrounds : d.capture.newNodes.length < rounds)
    (hids : ∀ e ∈ d.capture.allNodes.entries, e.2.nodeId = e.1)
    (haddrs : ∀ e ∈ d.capture.allNodes.entries, ∀ f ∈ d.capture.allNodes.entries,
      e.2.addr = f.2.addr → e = f) :
    (checkNewNodes pref rounds d).capture = { d.capture with newNodes := [] } ∧
      (∀ id, d.Shown id → (checkNewNodes pref rounds d).Shown id) ∧
      ∀ e ∈ d.capture.allNodes.entries, e.2.ptr ∈ d.capture.newNodes →
        e.2.nodeStats.pktList ≠ [] → (checkNewNodes pref rounds d).Shown e.1 := by
  induction rounds generalizing d with
  | zero => omega
  | succ rounds ih =>
      -- a node of the catalog is not skipped
      have hfound : ∀ e ∈ d.capture.allNodes.entries,
          (d.capture.allNodes.lookup e.2.ptr.nodeId).isSome = true := by
        intro e he
        refine Option.isSome_iff_exists.mpr ⟨e.2, SortedTree.lookup_eq_some_iff.mpr ⟨e.1, he, ?_⟩⟩
        change nodeIdCompare e.2.nodeId e.1 = 0
        rw [hids e he]
        exact ThreeWay.refl e.1
      rw [checkNewNodes]
      rcases newNodesPop_spec d.capture.allNodes d.capture.newNodes with
        ⟨hpop, hgone⟩ | ⟨p, rest, skipped, hpop, hsplit, hskipped⟩
      · rw [hpop]
        refine ⟨rfl, fun _ hid => hid, fun e he hmem => ?_⟩
        have hnone := hgone _ hmem
        rw [hfound e he] at hnone
        exact Bool.noConfusion hnone
      · rw [hpop]
        dsimp only
        let d₁ : Diagram := { d with capture := { d.capture with newNodes := rest } }
        let d₂ := d₁.checkNewNode pref p
        have hcapture : d₂.capture = d₁.capture := checkNewNode_capture pref p d₁
        have hlength : d₂.capture.newNodes.length < rounds := by
          rw [hcapture]
          rw [hsplit, List.length_append, List.length_cons] at hrounds
          change rest.length < rounds
          omega
        have hnodes : d₂.capture.allNodes = d.capture.allNodes := by rw [hcapture]
        obtain ⟨hdone, hkeep, hshow⟩ := @ih d₂ hlength (hnodes ▸ hids) (hnodes ▸ haddrs)
        refine ⟨?_, fun id hid => hkeep id (checkNewNode_shown pref p d₁ hid), fun e he hmem hpackets => ?_⟩
        · rw [hdone, hcapture]
        · rw [hsplit] at hmem
          rcases List.mem_append.mp hmem with hmem | hmem
          · have hnone := hskipped _ hmem
            rw [hfound e he] at hnone
            exact Bool.noConfusion hnone
          · rcases List.mem_cons.mp hmem with heq | hmem
            · refine hkeep _ ?_
              have hshown := checkNewNode_shows pref d₁ he (hids e he)
                (fun f hf haddr => haddrs f hf e he haddr) hpackets
              rwa [heq] at hshown
            · refine hshow e (hnodes ▸ he) ?_ hpackets
              rw [hcapture]
              exact hmem

theorem mem_newNodes_nodesUpdate {s : Capture} (pref : Preferences) {p : NodePtr}
    (hp : p ∈ s.newNodes)
    (hother : ∀ e ∈ s.allNodes.entries, nodeExpired s.now pref e.2 = true → e.2.addr ≠ p.addr) :
    p ∈ (s.nodesUpdate pref).newNodes := by
  refine SortedTree.sweep_state_keeps (nodeUpdate s.now pref) (nodeDelete s.now)
    (Q := fun (st : PacketStore × List NodePtr) => p ∈ st.2) (s := (s.store, s.newNodes)) ?_
    (fun _ _ hst => hst) hp
  intro st e he hst
  have hobsolete := nodeUpdate_obsolete s.now pref st e.1 e.2
  simp only [nodeUpdate] at hobsolete ⊢
  rw [hobsolete]
  split
  next hexpired =>
    have hne : ¬decide (p.addr = e.2.addr) = true := by
      simpa using (hother e he hexpired).symm
    exact (List.mem_eraseP_of_neg (p := fun q : NodePtr => decide (q.addr = e.2.addr)) hne).mpr hst
  next => exact hst

/-! ### What holds between the steps -/

def queued (d : Diagram) : List NodeId :=
  match d.phase with
  | .canvasNodes _ deleteList => deleteList
  | _ => []

/-- The node ids whose canvas node is not queued for deletion. -/
def Kept (d : Diagram) (id : NodeId) : Prop :=
  d.Shown id ∧ ∀ k ∈ d.queued, nodeIdCompare k id ≠ 0

structure Sound (d : Diagram) : Prop where
  announced : Announced d.Kept d.capture
  closed : d.capture.captureStatus = .stop →
    d.capture.allNodes = SortedTree.empty ∧ d.capture.newNodes = []

theorem sound_beginUpdate {d : Diagram} (h : d.Sound) (now : Timeval) (pref : Preferences) :
    (d.beginUpdate now pref).Sound := by
  let s : Capture := { d.capture with now := now }
  let d₁ : Diagram := { d with capture := s.nodesUpdate pref }
  have hmem : ∀ e, e ∈ d₁.capture.allNodes.entries ↔
      ∃ node, (e.1, node) ∈ d.capture.allNodes.entries ∧ e.2 = updatedNode now pref node ∧
        nodeExpired now pref node = false := fun e => mem_nodesCatalogUpdateAll now pref
  have hids : ∀ e ∈ d₁.capture.allNodes.entries, e.2.nodeId = e.1 := by
    intro e he
    obtain ⟨node, hold, hvalue, _⟩ := (hmem e).mp he
    rw [hvalue]
    exact h.announced.ids _ hold
  have haddrs : ∀ e ∈ d₁.capture.allNodes.entries, ∀ f ∈ d₁.capture.allNodes.entries,
      e.2.addr = f.2.addr → e = f := by
    intro e he f hf haddr
    obtain ⟨node, hold, hvalue, _⟩ := (hmem e).mp he
    obtain ⟨other, hother, hvalue', _⟩ := (hmem f).mp hf
    rw [hvalue, hvalue'] at haddr
    obtain ⟨hkey, rfl⟩ := Prod.mk.inj (h.announced.addrs _ hold _ hother haddr)
    exact Prod.ext hkey (hvalue.trans hvalue'.symm)
  obtain ⟨hdone, hkeep, hshow⟩ :=
    checkNewNodes_spec pref (Nat.lt_add_one d₁.capture.newNodes.length) hids haddrs
  have hcapture : (d.beginUpdate now pref).capture =
      { d₁.capture with newNodes := [] } := hdone
  have hshown : ∀ id, (checkNewNodes pref (d₁.capture.newNodes.length + 1) d₁).Shown id →
      (d.beginUpdate now pref).Kept id := fun id hid => ⟨hid, fun k hk => absurd hk List.not_mem_nil⟩
  refine ⟨?_, fun hstop => ?_⟩
  · rw [hcapture]
    refine
      { ids := hids, addrs := haddrs, nodup := List.nodup_nil
        known := fun p hp => absurd hp List.not_mem_nil, seen := fun e he hpackets => Or.inl ?_ }
    obtain ⟨node, hold, hvalue, hactive⟩ := (hmem e).mp he
    have hold_packets : node.nodeStats.pktList ≠ [] := by
      intro hempty
      rw [hvalue, updatedNode_pktList, hempty] at hpackets
      exact hpackets rfl
    refine hshown _ ?_
    rcases h.announced.seen _ hold hold_packets with hkept | hnew
    · exact hkeep _ hkept.1
    · refine hshow e he ?_ hpackets
      have hptr : e.2.ptr = node.ptr := by
        rw [hvalue]
        rfl
      rw [hptr]
      refine mem_newNodes_nodesUpdate pref hnew fun f hf hexpired haddr => ?_
      rw [h.announced.addrs f hf (e.1, node) hold haddr] at hexpired
      exact Bool.false_ne_true (hactive.symm.trans hexpired)
  · rw [hcapture] at hstop ⊢
    obtain ⟨hnodes, _⟩ := h.closed hstop
    refine ⟨?_, rfl⟩
    change (s.nodesUpdate pref).allNodes = SortedTree.empty
    have hempty : s.allNodes = SortedTree.empty := hnodes
    simp only [Capture.nodesUpdate, hempty]
    rfl

theorem sound_visitCanvasNode {d d' : Diagram} (h : d.Sound) {pref : Preferences}
    (hd' : d.visitCanvasNode pref = some d') : d'.Sound := by
  unfold visitCanvasNode at hd'
  split at hd'
  next k remaining deleteList hphase =>
    obtain rfl := Option.some.inj hd'
    have hqueued : d.queued = deleteList := by
      unfold queued
      rw [hphase]
    refine ⟨?_, h.closed⟩
    refine
      { ids := h.announced.ids, addrs := h.announced.addrs, nodup := h.announced.nodup
        known := h.announced.known, seen := fun e he hpackets => ?_ }
    refine (h.announced.seen e he hpackets).imp_left fun hkept => ⟨hkept.1, fun k' hk' => ?_⟩
    rw [Kept, hqueued] at hkept
    change k' ∈ (if _ then deleteList else k :: deleteList) at hk'
    split at hk'
    next => exact hkept.2 k' hk'
    next hgone =>
      rcases List.mem_cons.mp hk' with rfl | hk'
      · -- a node with packets is found and displayed, so it is not the one that is queued
        intro hcmp
        have hfound : d.capture.allNodes.lookup k' = some e.2 :=
          SortedTree.lookup_eq_some_iff.mpr ⟨e.1, he, hcmp⟩
        rw [hfound] at hgone
        exact hgone (decide_eq_true (displayNode_of_packets _ pref hpackets))
      · exact hkept.2 k' hk'
  next => exact absurd hd'.symm (Option.some_ne_none d')

theorem shown_foldl_remove (keys : List NodeId) (t : SortedTree nodeIdCompare CanvasNode)
    {id : NodeId} (h : (t.lookup id).isSome) (hkeys : ∀ k ∈ keys, nodeIdCompare k id ≠ 0) :
    ((keys.foldl SortedTree.remove t).lookup id).isSome := by
  induction keys generalizing t with
  | nil => exact h
  | cons k keys ih =>
      obtain ⟨hk, hkeys⟩ := List.forall_mem_cons.mp hkeys
      refine ih (t.remove k) ?_ hkeys
      rwa [SortedTree.lookup_remove hk]

theorem sound_finishNodes {d d' : Diagram} (h : d.Sound) {pref : Preferences}
    (hd' : d.finishNodes pref = some d') : d'.Sound := by
  unfold finishNodes at hd'
  split at hd'
  next deleteList hphase =>
    obtain rfl := Option.some.inj hd'
    have hqueued : d.queued = deleteList := by
      unfold queued
      rw [hphase]
    have hsummary : ∀ s : Capture,
        (s.protocolSummaryUpdateAll pref).allNodes = s.allNodes ∧
          (s.protocolSummaryUpdateAll pref).newNodes = s.newNodes ∧
          (s.protocolSummaryUpdateAll pref).captureStatus = s.captureStatus := by
      intro s
      unfold Capture.protocolSummaryUpdateAll
      split <;> exact ⟨rfl, rfl, rfl⟩
    obtain ⟨hnodes, hnew, hstatus⟩ := hsummary (d.capture.linksUpdate pref)
    refine ⟨?_, fun hstop => ?_⟩
    · refine Announced.mono ?_ (h.announced.of_eq hnodes hnew)
      intro id hkept
      rw [Kept, hqueued] at hkept
      exact ⟨shown_foldl_remove deleteList d.canvasNodes hkept.1 hkept.2,
        fun k hk => absurd hk List.not_mem_nil⟩
    · obtain ⟨hempty, hnone⟩ := h.closed (hstatus.symm.trans hstop)
      exact ⟨hnodes.trans hempty, hnew.trans hnone⟩
  next => exact absurd hd'.symm (Option.some_ne_none d')

theorem Sound.of_eq {d : Diagram} (h : d.Sound) {s : Capture} (hnodes : s.allNodes = d.capture.allNodes)
    (hnew : s.newNodes = d.capture.newNodes)
    (hstatus : s.captureStatus = .stop → d.capture.captureStatus = .stop) :
    ({ d with capture := s } : Diagram).Sound where
  announced := h.announced.of_eq hnodes hnew
  closed hstop := by
    obtain ⟨hempty, hnone⟩ := h.closed (hstatus hstop)
    exact ⟨hnodes.trans hempty, hnew.trans hnone⟩

theorem sound_stopCapture {d : Diagram} (h : d.Sound) :
    ({ d with capture := d.capture.stopCapture } : Diagram).Sound := by
  unfold Capture.stopCapture
  split
  next => exact h
  next => exact ⟨Announced.empty rfl rfl, fun _ => ⟨rfl, rfl⟩⟩

theorem Sound.setStopRequested {d : Diagram} (h : d.Sound) (stopRequested : Bool) :
    ({ d with stopRequested := stopRequested } : Diagram).Sound := ⟨h.announced, h.closed⟩

theorem sound_guiStopCapture {d : Diagram} (h : d.Sound) : d.guiStopCapture.Sound := by
  unfold guiStopCapture
  dsimp only
  split
  next => exact h.setStopRequested false
  next =>
    split
    next => exact sound_stopCapture (h.setStopRequested false)
    next => exact h.setStopRequested true

theorem sound_finishUpdate {d d' : Diagram} (h : d.Sound) {now : Timeval} {keepTimer : Bool}
    (hd' : d.finishUpdate now keepTimer = some d') : d'.Sound := by
  unfold finishUpdate at hd'
  split at hd'
  next hphase =>
    have hqueued : d.queued = [] := by
      unfold queued
      rw [hphase]
    have hidle : ({ d with capture := { d.capture with now := now }, phase := .idle } :
        Diagram).Sound := by
      refine ⟨Announced.mono ?_ (h.announced.of_eq rfl rfl), h.closed⟩
      intro id hkept
      exact ⟨hkept.1, fun k hk => absurd hk List.not_mem_nil⟩
    obtain rfl := Option.some.inj hd'
    split
    · exact sound_guiStopCapture hidle
    · exact hidle
  next => exact absurd hd'.symm (Option.some_ne_none d')

theorem sound_capture {d : Diagram} (h : d.Sound) {e : Event} (he : e.isUpdate = false) {s : Capture}
    (hs : d.capture.step e = some s) : ({ d with capture := s } : Diagram).Sound := by
  cases e with
  | clock now =>
      obtain rfl := Option.some.inj hs
      exact h.of_eq rfl rfl id
  | startCapture =>
      obtain rfl := Option.some.inj hs
      unfold Capture.startCapture
      split
      next => exact h.of_eq rfl rfl id
      next =>
        split
        next hstop =>
          obtain ⟨_, hnew⟩ := h.closed hstop
          have hsame : d.capture.protocolSummaryOpen.newNodes = d.capture.newNodes := by
            unfold Capture.protocolSummaryOpen Capture.protocolSummaryClose
            split <;> rfl
          exact ⟨Announced.empty rfl (hsame.trans hnew), fun hplay => Status.noConfusion hplay⟩
        next => exact h.of_eq rfl rfl fun hplay => Status.noConfusion hplay
  | pauseCapture =>
      obtain rfl := Option.some.inj hs
      unfold Capture.pauseCapture
      split
      · exact h.of_eq rfl rfl id
      · exact h.of_eq rfl rfl fun hpause => Status.noConfusion hpause
  | endOfFile =>
      obtain rfl := Option.some.inj hs
      unfold Capture.endOfFile
      split
      · exact h.of_eq rfl rfl id
      · exact h.of_eq rfl rfl fun heof => Status.noConfusion heof
  | stopCapture =>
      obtain rfl := Option.some.inj hs
      exact sound_stopCapture h
  | packetAcquired env rawPacket rawSize pktSize mem =>
      simp only [Capture.step] at hs
      split at hs
      next hguard =>
        obtain ⟨decoded, _, rfl⟩ := Capture.packetAcquired_eq_some hs
        have hdecoded : Announced d.Kept { d.capture with
            conversations := decoded.conversations, pphLkentry := decoded.pphLkentry } :=
          h.announced.of_eq rfl rfl
        refine ⟨hdecoded.registerPacket _ _ _ hguard.2, fun hstop => ?_⟩
        change (Capture.registerPacket _ _ _ _ _).captureStatus = .stop at hstop
        rw [Capture.registerPacket_captureStatus] at hstop
        exact absurd hstop hguard.1
      next => exact absurd hs.symm (Option.some_ne_none s)
  | nodesUpdate pref => exact Bool.noConfusion he
  | linksUpdate pref => exact Bool.noConfusion he
  | summaryUpdate pref => exact Bool.noConfusion he

theorem Sound.step {d d' : Diagram} (h : d.Sound) {e : DiagramEvent} (hd' : d.step e = some d') :
    d'.Sound := by
  cases e with
  | capture e =>
      simp only [Diagram.step] at hd'
      split at hd'
      next => exact absurd hd'.symm (Option.some_ne_none d')
      next hother =>
        obtain ⟨s, hs, rfl⟩ := Option.map_eq_some_iff.mp hd'
        exact sound_capture h (by simpa using hother) hs
  | guiStopCapture =>
      obtain rfl := Option.some.inj hd'
      exact sound_guiStopCapture h
  | beginUpdate now pref =>
      simp only [Diagram.step] at hd'
      split at hd'
      next =>
        split at hd'
        next => exact absurd hd'.symm (Option.some_ne_none d')
        next =>
          obtain rfl := Option.some.inj hd'
          exact sound_beginUpdate h now pref
      next => exact absurd hd'.symm (Option.some_ne_none d')
  | visitCanvasNode pref => exact sound_visitCanvasNode h hd'
  | finishNodes pref => exact sound_finishNodes h hd'
  | finishUpdate now keepTimer => exact sound_finishUpdate h hd'

theorem Reached.sound {d : Diagram} (h : Reached d) : d.Sound := by
  induction h with
  | initial now => exact ⟨Announced.empty rfl rfl, fun _ => ⟨rfl, rfl⟩⟩
  | step _ e hstep ih => exact ih.step hstep

/-- **New nodes.** In whatever order packets, refreshes and stops come, also in the middle of a
refresh, the list of new nodes has no duplicates and holds only nodes of the catalog, and every node
with packets has a canvas node or is in the list. -/
theorem new_nodes_announced {d : Diagram} (h : Reached d) :
    (d.capture.newNodes.map NodePtr.addr).Nodup ∧
    (∀ p ∈ d.capture.newNodes, ∃ e ∈ d.capture.allNodes.entries, e.2.ptr = p) ∧
    ∀ e ∈ d.capture.allNodes.entries, e.2.nodeStats.pktList ≠ [] →
      (d.canvasNodes.lookup e.1).isSome ∨ e.2.ptr ∈ d.capture.newNodes := by
  have hannounced := h.sound.announced
  refine ⟨hannounced.nodup, fun p hp => ?_, fun e he hpackets => ?_⟩
  · obtain ⟨e, he, hptr, _⟩ := hannounced.known p hp
    exact ⟨e, he, hptr⟩
  · exact (hannounced.seen e he hpackets).imp_left And.left

/-- A canvas node is queued for deletion, and a packet for its node comes before it is deleted. -/
def lateArrival : List DiagramEvent :=
  let pref : Preferences := ⟨1000, 0, 1000, 0, 0, 0, 0⟩
  let frame mem := DiagramEvent.capture
    (.packetAcquired (DecodeEnv.bare linktypeEthernet .ip) (fun _ => 0) 0 60 mem)
  [.capture .startCapture, frame ⟨7, 1, 2⟩, .beginUpdate ⟨10, 0⟩ pref, .visitCanvasNode pref,
    .finishNodes pref, .finishUpdate ⟨20, 0⟩ true, .beginUpdate ⟨20, 0⟩ pref, .visitCanvasNode pref,
    frame ⟨8, 3, 4⟩, .finishNodes pref]

/-- The node is announced again, and has no canvas node. -/
theorem new_nodes_announced_late_arrival :
    ∃ d, (initial ⟨10, 0⟩).steps lateArrival = some d ∧ d.capture.newNodes.length = 1 ∧
      d.canvasNodes.entries.length = 0 ∧ (d.capture.newNodes.map NodePtr.addr).Nodup := by
  have hlengths : ((initial ⟨10, 0⟩).steps lateArrival).map (fun d =>
      (d.capture.newNodes.length, d.canvasNodes.entries.length)) = some (1, 0) := by decide +kernel
  obtain ⟨d, hd, hpair⟩ := Option.map_eq_some_iff.mp hlengths
  obtain ⟨hnew, hcanvas⟩ := Prod.mk.inj hpair
  exact ⟨d, hd, hnew, hcanvas, (new_nodes_announced ((Reached.initial ⟨10, 0⟩).steps hd)).1⟩

end Diagram

end EtherApe
