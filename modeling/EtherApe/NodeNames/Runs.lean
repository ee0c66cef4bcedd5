import EtherApe.NodeNames.Labels

/-!
# Names over a run

At any time the names of a protocol are what the registrations since the protocol was made have left: one
name for each node id, with the last texts and the sum of the sizes. A protocol goes only with all its
names, and where it is on the stack its names are only sorted, so it is enough to know what one event
registers and which protocols are still there after it.
-/

namespace EtherApe

/-- The protocol is on the stack of the node. -/
def Capture.onStack (s : Capture) (id : NodeId) (level : Nat) (protocol : String) : Bool :=
  ((s.allNodes.lookup id).bind fun node => node.nodeStats.statsProtos.find level (some protocol)).isSome

/-- What the names of a packet are to a protocol of the node of a direction. -/
def Frame.registrations (f : Frame) (d : DecodeState) (direction : PacketDirection) (level : Nat)
    (protocol : String) : List Registration :=
  registrationsAt (f.input d direction).tokens (f.call direction).env.nameRes
    (f.input d direction).packet.packetSize level protocol (f.names d direction).2.names

namespace NamedCapture

def namesOf (s : NamedCapture) (id : NodeId) (level : Nat) (protocol : String) : List NodeName :=
  ((s.labels.lookup id).map fun labels => labels.nodeNames level protocol).getD []

def onStack (s : NamedCapture) (id : NodeId) (level : Nat) (protocol : String) : Bool :=
  s.capture.onStack id level protocol

def registrations (s : NamedCapture) (e : NamedEvent) (id : NodeId) (level : Nat)
    (protocol : String) : List Registration :=
  match e with
  | .packetAcquired f =>
      match f.decode s.capture with
      | some d =>
          (if nodeIdCompare d.srcNodeId id = 0 then f.registrations d .outbound level protocol
            else []) ++
          if nodeIdCompare d.dstNodeId id = 0 then f.registrations d .inbound level protocol else []
      | none => []
  | _ => []

/-- What the events of a run have registered with a protocol of a node since it came onto the stack. -/
def registered (past : List (NamedCapture × NamedEvent)) (id : NodeId) (level : Nat)
    (protocol : String) : List Registration :=
  past.foldl
    (fun since x =>
      (if x.1.onStack id level protocol then since else []) ++ x.1.registrations x.2 id level protocol)
    []

/-- The nodes have names, and the names of each protocol are those of its registrations. -/
structure Named (s : NamedCapture) (since : NodeId → Nat → String → List Registration) : Prop where
  same : ∀ id, (s.labels.lookup id).isSome = (s.capture.allNodes.lookup id).isSome
  collects : ∀ id level protocol, NodeName.grouping.Collects nodeIdCompare (s.namesOf id level protocol)
    (if s.onStack id level protocol then since id level protocol else [])

section Nodes

variable {s s' : NamedCapture} {packet : PacketInfo} {nodeId : NodeId} {direction : PacketDirection}
  {addr : NodeRef} {f : Frame} {d : DecodeState}

/-! ### Packets -/

theorem lookup_addNodePacket (c : Capture) (packet : PacketInfo) (nodeId : NodeId)
    (direction : PacketDirection) (addr : NodeRef) :
    ∃ node, (c.addNodePacket packet nodeId direction addr).allNodes.lookup nodeId = some node ∧
      node.nodeStats.statsProtos =
        ((c.allNodes.lookup nodeId).getD (Node.create c.now addr nodeId)).nodeStats.statsProtos.addPkt
          c.now packet :=
  ⟨_, SortedTree.lookup_upsert, rfl⟩

theorem lookup_addNodePacket_of_ne (c : Capture) {id : NodeId} (h : nodeIdCompare nodeId id ≠ 0) :
    (c.addNodePacket packet nodeId direction addr).allNodes.lookup id = c.allNodes.lookup id :=
  SortedTree.lookup_upsert_of_ne h

theorem onStack_addNodePacket (c : Capture) (packet : PacketInfo) (nodeId : NodeId)
    (direction : PacketDirection) (addr : NodeRef) (id : NodeId) (level : Nat) (protocol : String) :
    (c.addNodePacket packet nodeId direction addr).onStack id level protocol ↔
      c.onStack id level protocol ∨
        (nodeIdCompare nodeId id = 0 ∧ packet.protDesc.token level = some protocol) := by
  unfold Capture.onStack
  by_cases hid : nodeIdCompare nodeId id = 0
  · obtain ⟨node, hlookup, hprotos⟩ := lookup_addNodePacket c packet nodeId direction addr
    rw [← SortedTree.lookup_congr hid, hlookup, Option.bind_some, hprotos,
      Protostack.find_addPkt_isSome_iff, ← SortedTree.lookup_congr hid]
    refine or_congr ?_ (by simp [hid])
    cases c.allNodes.lookup nodeId with
    | some old => rfl
    | none =>
        rw [Option.getD_none, Protostack.find_isSome_iff]
        refine iff_of_false ?_ Bool.false_ne_true
        rintro ⟨_, hmem⟩
        exact absurd hmem List.not_mem_nil
  · rw [lookup_addNodePacket_of_ne c hid]
    simp [hid]

def labelsAt (s : NamedCapture) (id : NodeId) : NodeLabels :=
  (s.labels.lookup id).getD (NodeLabels.create id)

theorem nodeNames_labelsAt (s : NamedCapture) (id : NodeId) (level : Nat) (protocol : String) :
    (s.labelsAt id).nodeNames level protocol = s.namesOf id level protocol := by
  unfold labelsAt namesOf
  cases s.labels.lookup id <;> rfl

/-- A node takes a packet when its names come back from the decoder. -/
theorem addNodePacket_spec (s : NamedCapture) (nodeId : NodeId) (addr : NodeRef)
    (hpr : packet.protDesc = d.pr) (hnames : (f.names d direction).1 = true) :
    ∃ labels, s.addNodePacket packet nodeId direction addr f d =
        some ⟨s.capture.addNodePacket packet nodeId direction addr,
          s.labels.upsert nodeId labels fun _ => labels⟩ ∧
      labels.name = (s.labelsAt nodeId).name ∧
      labels.numericName = (s.labelsAt nodeId).numericName ∧
      ∀ level protocol, labels.nodeNames level protocol =
        (f.registrations d direction level protocol).foldl (NodeName.grouping.enter nodeIdCompare)
          (s.namesOf nodeId level protocol) := by
  obtain ⟨node, hlookup, hprotos⟩ := lookup_addNodePacket s.capture packet nodeId direction addr
  have hfound : ∀ a ∈ (f.names d direction).2.names, ∃ name,
      (f.input d direction).tokens.token a.level = some name ∧
        (node.nodeStats.statsProtos.find a.level (some name)).isSome := by
    intro a ha
    obtain ⟨name, htoken⟩ := token_of_mem_names ha
    refine ⟨name, htoken, ?_⟩
    rw [hprotos, Protostack.find_addPkt_isSome_iff, hpr]
    exact Or.inr htoken
  obtain ⟨labels, hadd, hname, hnumeric, hall⟩ :=
    NodeLabels.foldlM_addName (f.call direction).env.nameRes
      (f.input d direction).packet.packetSize hfound (s.labelsAt nodeId)
  refine ⟨labels, ?_, hname, hnumeric, fun level protocol => ?_⟩
  · unfold addNodePacket
    rcases hcall : f.names d direction with ⟨returned, nt⟩
    rw [hcall] at hnames hadd
    obtain rfl : returned = true := hnames
    dsimp only
    rw [hlookup, Option.bind_eq_bind, Option.bind_some]
    change Option.bind (List.foldlM _ (s.labelsAt nodeId) nt.names) _ = _
    rw [hadd]
    rfl
  · rw [hall, nodeNames_labelsAt]
    rfl

theorem names_of_addNodePacket (h : s.addNodePacket packet nodeId direction addr f d = some s') :
    (f.names d direction).1 = true := by
  unfold addNodePacket at h
  rcases hcall : f.names d direction with ⟨_ | _, nt⟩
  · rw [hcall] at h
    cases h
  · rfl

/-- What a packet does to one node, seen from any id. -/
theorem namesOf_addNodePacket (hpr : packet.protDesc = d.pr)
    (h : s.addNodePacket packet nodeId direction addr f d = some s') :
    s'.capture = s.capture.addNodePacket packet nodeId direction addr ∧
      (∀ id, (s'.labels.lookup id).isSome =
        if nodeIdCompare nodeId id = 0 then true else (s.labels.lookup id).isSome) ∧
      ∀ id level protocol, s'.namesOf id level protocol =
        (if nodeIdCompare nodeId id = 0 then f.registrations d direction level protocol else []).foldl
          (NodeName.grouping.enter nodeIdCompare) (s.namesOf id level protocol) := by
  obtain ⟨labels, hadd, _, _, hall⟩ :=
    addNodePacket_spec s nodeId addr hpr (names_of_addNodePacket h)
  rw [hadd] at h
  obtain rfl := Option.some.inj h
  have hself : (s.labels.upsert nodeId labels fun _ => labels).lookup nodeId = some labels :=
    SortedTree.lookup_upsert
  refine ⟨rfl, fun id => ?_, fun id level protocol => ?_⟩
  · split
    next hid => rw [← SortedTree.lookup_congr hid, hself, Option.isSome_some]
    next hid => rw [SortedTree.lookup_upsert_of_ne hid]
  · unfold namesOf
    split
    next hid =>
      rw [← SortedTree.lookup_congr hid, ← SortedTree.lookup_congr hid, hself, Option.map_some,
        Option.getD_some, hall]
      rfl
    next hid => rw [SortedTree.lookup_upsert_of_ne hid, List.foldl_nil]

end Nodes

/-! ### Events -/

section Events

variable {s s' : NamedCapture}

theorem allNodes_registerPacket (c : Capture) (packet : PacketInfo) (src dst : NodeId) (mem : Malloc) :
    (c.registerPacket packet src dst mem).allNodes =
      (((c.newPacket packet.ref).addNodePacket packet src .outbound mem.srcNode).addNodePacket packet
        dst .inbound mem.dstNode).allNodes := by
  unfold Capture.registerPacket
  rw [Capture.protocolSummaryAddPacket_eq]
  rfl

theorem onStack_registerPacket (c : Capture) (packet : PacketInfo) (src dst : NodeId) (mem : Malloc)
    (id : NodeId) (level : Nat) (protocol : String) :
    (c.registerPacket packet src dst mem).onStack id level protocol ↔
      c.onStack id level protocol ∨ ((nodeIdCompare src id = 0 ∨ nodeIdCompare dst id = 0) ∧
        packet.protDesc.token level = some protocol) := by
  have hadded := onStack_addNodePacket
    ((c.newPacket packet.ref).addNodePacket packet src .outbound mem.srcNode) packet dst .inbound
    mem.dstNode
  rw [Capture.onStack, allNodes_registerPacket, ← Capture.onStack, hadded, onStack_addNodePacket,
    or_and_right, or_assoc]
  rfl

theorem lookup_registerPacket (c : Capture) (packet : PacketInfo) (src dst : NodeId) (mem : Malloc)
    (id : NodeId) : ((c.registerPacket packet src dst mem).allNodes.lookup id).isSome =
      if nodeIdCompare dst id = 0 then true
      else if nodeIdCompare src id = 0 then true else (c.allNodes.lookup id).isSome := by
  have hone : ∀ (c : Capture) (nodeId : NodeId) (direction : PacketDirection) (addr : NodeRef),
      ((c.addNodePacket packet nodeId direction addr).allNodes.lookup id).isSome =
        if nodeIdCompare nodeId id = 0 then true else (c.allNodes.lookup id).isSome := by
    intro c nodeId direction addr
    split
    next hid =>
      obtain ⟨node, hlookup, _⟩ := lookup_addNodePacket c packet nodeId direction addr
      rw [← SortedTree.lookup_congr hid, hlookup, Option.isSome_some]
    next hid => rw [lookup_addNodePacket_of_ne c hid]
  rw [allNodes_registerPacket, hone, hone]
  rfl

/-- A packet that arrives is decoded, and the names of both nodes come back. -/
theorem packetAcquired_spec {f : Frame} (h : s.packetAcquired f = some s') :
    ∃ d, f.decode s.capture = some d ∧ (f.names d .outbound).1 = true ∧
      (f.names d .inbound).1 = true ∧
      s'.capture = { s.capture with conversations := d.conversations, pphLkentry := d.pphLkentry
        }.registerPacket ⟨f.mem.packet, f.pktSize, s.capture.now, d.pr⟩ d.srcNodeId d.dstNodeId f.mem ∧
      (∀ id, (s'.labels.lookup id).isSome =
        if nodeIdCompare d.dstNodeId id = 0 then true
        else if nodeIdCompare d.srcNodeId id = 0 then true else (s.labels.lookup id).isSome) ∧
      ∀ id level protocol, s'.namesOf id level protocol =
        (s.registrations (.packetAcquired f) id level protocol).foldl
          (NodeName.grouping.enter nodeIdCompare) (s.namesOf id level protocol) := by
  obtain ⟨d, hd, h⟩ := Option.bind_eq_some_iff.mp h
  obtain ⟨s₁, h₁, h⟩ := Option.bind_eq_some_iff.mp h
  obtain ⟨s₂, h₂, h⟩ := Option.bind_eq_some_iff.mp h
  obtain rfl := Option.some.inj h
  obtain ⟨hcapture₁, hsame₁, hnames₁⟩ := namesOf_addNodePacket rfl h₁
  obtain ⟨hcapture₂, hsame₂, hnames₂⟩ := namesOf_addNodePacket rfl h₂
  refine ⟨d, hd, names_of_addNodePacket h₁, names_of_addNodePacket h₂, ?_, fun id => ?_,
    fun id level protocol => ?_⟩
  · dsimp only
    rw [hcapture₂, hcapture₁]
    rfl
  · exact (hsame₂ id).trans (congrArg _ (hsame₁ id))
  · refine (hnames₂ id level protocol).trans ?_
    rw [hnames₁]
    simp only [registrations, hd, List.foldl_append]
    rfl

theorem lookup_nodesUpdate (c : Capture) (pref : Preferences) {id : NodeId} {node' : Node} :
    (c.nodesUpdate pref).allNodes.lookup id = some node' ↔
      ∃ node, c.allNodes.lookup id = some node ∧ node' = updatedNode c.now pref node ∧
        nodeExpired c.now pref node = false :=
  SortedTree.lookup_sweep (g := fun _ => updatedNode c.now pref) (nodeUpdate_value c.now pref)
    (nodeUpdate_obsolete c.now pref) fun _ _ _ _ => ⟨rfl, rfl⟩

theorem updateLabels_congr (s : NamedCapture) (pref : Preferences) (mode : ApeMode) (nameRes : Bool)
    {id id' : NodeId}
    (h : nodeIdCompare id id' = 0) (labels : NodeLabels) :
    s.updateLabels pref mode nameRes id labels = s.updateLabels pref mode nameRes id' labels ∧
      s.expired pref id = s.expired pref id' := by
  unfold updateLabels expired
  rw [SortedTree.lookup_congr h]
  exact ⟨rfl, rfl⟩

theorem lookup_labels_nodesUpdate {pref : Preferences} {mode : ApeMode} {nameRes : Bool}
    (h : s.nodesUpdate pref mode nameRes = some s') :
    s'.capture = s.capture.nodesUpdate pref ∧ ∀ id,
      (s.labels.lookup id = none → s'.labels.lookup id = none) ∧
      ∀ labels, s.labels.lookup id = some labels →
        ∃ labels', s.updateLabels pref mode nameRes id labels = some labels' ∧
          s'.labels.lookup id = if s.expired pref id then none else some labels' := by
  unfold nodesUpdate at h
  split at h
  next hall =>
    obtain rfl := Option.some.inj h
    have hlookup := fun id found => @SortedTree.lookup_sweep NodeId NodeLabels Unit nodeIdCompare
      (s.visitLabels pref mode nameRes) (fun _ _ => ()) _
      (fun id labels => (s.updateLabels pref mode nameRes id labels).getD labels)
      (fun id _ => s.expired pref id) (fun _ _ _ => rfl) (fun _ _ _ => rfl)
      (fun k k' v hk => by
        obtain ⟨hupdate, hexpired⟩ := updateLabels_congr s pref mode nameRes hk v
        exact ⟨by rw [hupdate], hexpired⟩) () s.labels id found
    refine ⟨rfl, fun id => ⟨fun hnone => ?_, fun labels hlabels => ?_⟩⟩
    · rw [Option.eq_none_iff_forall_ne_some]
      intro labels' hlabels'
      obtain ⟨labels, hlabels, _⟩ := (hlookup id labels').mp hlabels'
      rw [hnone] at hlabels
      cases hlabels
    have hsome : (s.updateLabels pref mode nameRes id labels).isSome := by
      obtain ⟨key, hmem, hkey⟩ := SortedTree.exists_mem_of_lookup hlabels
      rw [(updateLabels_congr s pref mode nameRes hkey labels).1]
      exact List.all_eq_true.mp hall _ hmem
    obtain ⟨labels', hlabels'⟩ := Option.isSome_iff_exists.mp hsome
    refine ⟨labels', hlabels', Option.ext fun found => (hlookup id found).trans ?_⟩
    rw [hlabels]
    cases s.expired pref id <;> simp [hlabels', eq_comm]
  · cases h

/-- After an update an id has neither a node nor names, or a node that stayed with names that stayed. -/
theorem nodesUpdate_cases {pref : Preferences} {mode : ApeMode} {nameRes : Bool}
    (hsame : ∀ id, (s.labels.lookup id).isSome = (s.capture.allNodes.lookup id).isSome)
    (h : s.nodesUpdate pref mode nameRes = some s') (id : NodeId) :
    (s'.labels.lookup id = none ∧ s'.capture.allNodes.lookup id = none) ∨
      ∃ node labels labels', s.capture.allNodes.lookup id = some node ∧
        s.labels.lookup id = some labels ∧
        labels.update s.capture.now pref mode nameRes node = some labels' ∧
        s'.labels.lookup id = some labels' ∧
        s'.capture.allNodes.lookup id = some (updatedNode s.capture.now pref node) := by
  obtain ⟨hcapture, hlabels⟩ := lookup_labels_nodesUpdate h
  have hnodes : ∀ node', s'.capture.allNodes.lookup id = some node' ↔ _ :=
    fun node' => hcapture ▸ lookup_nodesUpdate s.capture pref
  cases hfound : s.labels.lookup id with
  | none =>
      have hnode : s.capture.allNodes.lookup id = none := by simpa [hfound] using hsame id
      refine Or.inl ⟨(hlabels id).1 hfound, ?_⟩
      rw [Option.eq_none_iff_forall_ne_some]
      intro node' hnode'
      obtain ⟨node, hold, _⟩ := (hnodes node').mp hnode'
      rw [hnode] at hold
      cases hold
  | some labels =>
      obtain ⟨labels', hupdate, hafter⟩ := (hlabels id).2 labels hfound
      obtain ⟨node, hnode⟩ := Option.isSome_iff_exists.mp ((hsame id).symm.trans (by rw [hfound]; rfl))
      have hexpired : s.expired pref id = nodeExpired s.capture.now pref node := by
        rw [expired, hnode]
      rw [updateLabels, hnode] at hupdate
      rw [hexpired] at hafter
      split at hafter
      next hgone =>
        refine Or.inl ⟨hafter, ?_⟩
        rw [Option.eq_none_iff_forall_ne_some]
        intro node' hnode'
        obtain ⟨old, hold, _, hkept⟩ := (hnodes node').mp hnode'
        rw [hnode] at hold
        rw [← Option.some.inj hold, hgone] at hkept
        cases hkept
      next hkept =>
        refine Or.inr ⟨node, labels, labels', hnode, rfl, hupdate, hafter, ?_⟩
        exact (hnodes _).mpr ⟨node, hnode, rfl, by simpa using hkept⟩

/-- What an update does to the names of a protocol: they stay, in some order, as long as it does. -/
theorem namesOf_nodesUpdate {pref : Preferences} {mode : ApeMode} {nameRes : Bool}
    (hsame : ∀ id, (s.labels.lookup id).isSome = (s.capture.allNodes.lookup id).isSome)
    (h : s.nodesUpdate pref mode nameRes = some s') (id : NodeId) (level : Nat) (protocol : String) :
    (s'.onStack id level protocol = true → s.onStack id level protocol = true) ∧
      ∃ names, names.Perm (s.namesOf id level protocol) ∧
        s'.namesOf id level protocol = if s'.onStack id level protocol then names else [] := by
  rcases nodesUpdate_cases hsame h id with ⟨hlabels', hnode'⟩ |
    ⟨node, labels, labels', hnode, hlabels, hupdate, hlabels', hnode'⟩
  · have hoff : s'.onStack id level protocol = false := by
      simp [onStack, Capture.onStack, hnode']
    refine ⟨fun hon => absurd (hoff.symm.trans hon) Bool.false_ne_true, _, List.Perm.refl _, ?_⟩
    rw [namesOf, hlabels', hoff]
    rfl
  · have hon : s.onStack id level protocol =
        (node.nodeStats.statsProtos.find level (some protocol)).isSome := by
      rw [onStack, Capture.onStack, hnode, Option.bind_some]
    have hon' : s'.onStack id level protocol = ((updatedNode s.capture.now pref
        node).nodeStats.statsProtos.find level (some protocol)).isSome := by
      rw [onStack, Capture.onStack, hnode', Option.bind_some]
    obtain ⟨names, hperm, hnames⟩ := NodeLabels.update_nodeNames hupdate level protocol
    refine ⟨fun hstays => ?_, names, ?_, ?_⟩
    · rw [hon]
      rw [hon'] at hstays
      exact (TrafficStats.namesWithin_refresh _ _ _ _ _ _ _).find_isSome hstays
    · rwa [namesOf, hlabels]
    · rw [namesOf, hlabels', hon']
      exact hnames

theorem Named.of_eq {since since' : NodeId → Nat → String → List Registration} (hs : s.Named since)
    (hlabels : s'.labels = s.labels) (hnodes : s'.capture.allNodes = s.capture.allNodes)
    (hsince : ∀ id level protocol, s.onStack id level protocol = true →
      since' id level protocol = since id level protocol) : s'.Named since' where
  same id := by rw [hlabels, hnodes, hs.same]
  collects id level protocol := by
    have hon : s'.onStack id level protocol = s.onStack id level protocol := by
      rw [onStack, Capture.onStack, hnodes, onStack, Capture.onStack]
    have hcollects := hs.collects id level protocol
    rw [namesOf, hlabels, hon, ← namesOf]
    split
    next h =>
      rw [if_pos h] at hcollects
      rwa [hsince id level protocol h]
    next h => rwa [if_neg h] at hcollects

theorem named_of_empty {since : NodeId → Nat → String → List Registration}
    (hlabels : s.labels = SortedTree.empty) (hnodes : s.capture.allNodes = SortedTree.empty) :
    s.Named since where
  same id := by rw [hlabels, hnodes]; rfl
  collects id level protocol := by
    have hoff : s.onStack id level protocol = false := by
      rw [onStack, Capture.onStack, hnodes]
      rfl
    rw [namesOf, hlabels, hoff]
    exact Grouping.collects_nil

theorem Named.namesOf_eq_nil {since : NodeId → Nat → String → List Registration} (hs : s.Named since)
    {id : NodeId} {level : Nat} {protocol : String} (hoff : s.onStack id level protocol = false) :
    s.namesOf id level protocol = [] := by
  have hcollects := hs.collects id level protocol
  rw [hoff] at hcollects
  rw [List.eq_nil_iff_forall_not_mem]
  exact fun name hname => hcollects.occurs name hname rfl

theorem token_of_mem_registrations {f : Frame} {d : DecodeState} {direction : PacketDirection}
    {level : Nat} {protocol : String} {r : Registration}
    (hr : r ∈ f.registrations d direction level protocol) : d.pr.token level = some protocol := by
  obtain ⟨a, ha, _⟩ := List.mem_map.mp hr
  obtain ⟨hlevel, htoken⟩ := of_decide_eq_true (List.mem_filter.mp ha).2
  rwa [hlevel] at htoken

/-- A packet adds its registrations to those of its protocols. -/
theorem Named.packetAcquired {since : NodeId → Nat → String → List Registration} (hs : s.Named since)
    {f : Frame} (h : s.packetAcquired f = some s') :
    s'.Named fun id level protocol => (if s.onStack id level protocol then since id level protocol
      else []) ++ s.registrations (.packetAcquired f) id level protocol := by
  obtain ⟨d, hd, _, _, hcapture, hsame, hnames⟩ := packetAcquired_spec h
  refine ⟨fun id => ?_, fun id level protocol => ?_⟩
  · rw [hsame, hcapture, lookup_registerPacket, hs.same]
  · have hcollects := (hs.collects id level protocol).enterAll
      (s.registrations (.packetAcquired f) id level protocol)
    rw [← hnames] at hcollects
    split
    next => exact hcollects
    next hoff =>
      -- A protocol that is not there after the packet was not there before it, nor in the packet.
      rw [onStack, hcapture, onStack_registerPacket, not_or] at hoff
      obtain ⟨hbefore, hpacket⟩ := hoff
      have hnone : s.registrations (.packetAcquired f) id level protocol = [] := by
        rw [List.eq_nil_iff_forall_not_mem]
        intro r hr
        simp only [registrations, hd, List.mem_append] at hr
        rcases hr with hr | hr
        · split at hr
          next hid => exact hpacket ⟨Or.inl hid, token_of_mem_registrations hr⟩
          next => exact absurd hr List.not_mem_nil
        · split at hr
          next hid => exact hpacket ⟨Or.inr hid, token_of_mem_registrations hr⟩
          next => exact absurd hr List.not_mem_nil
      have hoff : s.onStack id level protocol = false := Bool.eq_false_iff.mpr hbefore
      rw [hnames, hnone, hs.namesOf_eq_nil hoff]
      exact Grouping.collects_nil

theorem Named.nodesUpdate {since : NodeId → Nat → String → List Registration} (hs : s.Named since)
    {pref : Preferences} {mode : ApeMode} {nameRes : Bool}
    (h : s.nodesUpdate pref mode nameRes = some s') :
    s'.Named fun id level protocol => if s.onStack id level protocol then since id level protocol
      else [] where
  same id := by
    rcases nodesUpdate_cases hs.same h id with ⟨hlabels', hnode'⟩ | ⟨_, _, _, _, _, _, hlabels', hnode'⟩
    · rw [hlabels', hnode']
      rfl
    · rw [hlabels', hnode']
      rfl
  collects id level protocol := by
    obtain ⟨hstays, names, hperm, hnames⟩ := namesOf_nodesUpdate hs.same h id level protocol
    have hcollects := hs.collects id level protocol
    rw [hnames]
    split
    next hon =>
      rw [if_pos (hstays hon)] at hcollects ⊢
      exact hcollects.perm hperm.symm
    next => exact Grouping.collects_nil

theorem Named.step {since : NodeId → Nat → String → List Registration} (hs : s.Named since)
    {e : NamedEvent} (h : s.step e = some s') :
    s'.Named fun id level protocol => (if s.onStack id level protocol then since id level protocol
      else []) ++ s.registrations e id level protocol := by
  have hquiet : ∀ {s' : NamedCapture}, s'.labels = s.labels →
      s'.capture.allNodes = s.capture.allNodes → (∀ id level protocol,
        s.registrations e id level protocol = []) →
      s'.Named fun id level protocol => (if s.onStack id level protocol then since id level protocol
        else []) ++ s.registrations e id level protocol := by
    intro s' hlabels hnodes hnone
    refine hs.of_eq hlabels hnodes fun id level protocol hon => ?_
    rw [if_pos hon, hnone, List.append_nil]
  cases e with
  | clock now =>
      obtain rfl := Option.some.inj h
      exact hquiet rfl rfl fun _ _ _ => rfl
  | startCapture =>
      obtain rfl := Option.some.inj h
      by_cases hstop : s.capture.captureStatus = .stop
      · have hplay : s.capture.captureStatus ≠ .play := by simp [hstop]
        refine named_of_empty (if_pos hstop) ?_
        dsimp only
        rw [Capture.startCapture, if_neg hplay, if_pos hstop]
      · refine hquiet (if_neg hstop) ?_ fun _ _ _ => rfl
        dsimp only
        rw [Capture.startCapture, if_neg hstop]
        split <;> rfl
  | pauseCapture =>
      obtain rfl := Option.some.inj h
      refine hquiet rfl ?_ fun _ _ _ => rfl
      dsimp only
      rw [Capture.pauseCapture]
      split <;> rfl
  | endOfFile =>
      obtain rfl := Option.some.inj h
      refine hquiet rfl ?_ fun _ _ _ => rfl
      dsimp only
      rw [Capture.endOfFile]
      split <;> rfl
  | stopCapture =>
      obtain rfl := Option.some.inj h
      by_cases hstop : s.capture.captureStatus = .stop
      · refine hquiet (if_pos hstop) ?_ fun _ _ _ => rfl
        dsimp only
        rw [Capture.stopCapture, if_pos hstop]
      · refine named_of_empty (if_neg hstop) ?_
        dsimp only
        rw [Capture.stopCapture, if_neg hstop]
        rfl
  | packetAcquired f =>
      simp only [NamedCapture.step] at h
      split at h
      · exact hs.packetAcquired h
      · cases h
  | nodesUpdate pref mode nameRes =>
      simpa only [registrations, List.append_nil] using hs.nodesUpdate h
  | linksUpdate pref =>
      obtain rfl := Option.some.inj h
      exact hquiet rfl rfl fun _ _ _ => rfl
  | summaryUpdate pref =>
      obtain rfl := Option.some.inj h
      refine hquiet rfl ?_ fun _ _ _ => rfl
      dsimp only
      rw [Capture.protocolSummaryUpdateAll]
      split <;> rfl

/-- **Names over a run.** -/
theorem run_names {now : Timeval} {past : List (NamedCapture × NamedEvent)}
    (h : (machine now).Run past s) : s.Named (registered past) := by
  induction h with
  | start => exact named_of_empty rfl rfl
  | @step past s s' _ e hstep ih =>
      have hsince : registered (past ++ [(s, e)]) = fun id level protocol =>
          (if s.onStack id level protocol then registered past id level protocol else []) ++
            s.registrations e id level protocol := by
        funext id level protocol
        exact List.foldl_append
      rw [hsince]
      exact ih.step hstep

end Events

/-! ### Names and the capture -/

/-- The name decoder comes back for both nodes of a packet. -/
def NamesReturn (s : NamedCapture) : NamedEvent → Prop
  | .packetAcquired f => ∀ d, f.decode s.capture = some d →
      (f.names d .outbound).1 = true ∧ (f.names d .inbound).1 = true
  | _ => True

section Lockstep

variable {s s' : NamedCapture} {since : NodeId → Nat → String → List Registration}

theorem step_event {e : NamedEvent} (h : s.step e = some s') :
    s.capture.step e.event = some s'.capture := by
  cases e with
  | packetAcquired f =>
      simp only [NamedCapture.step] at h
      split at h
      next hfresh =>
        obtain ⟨d, hd, _, _, hcapture, _, _⟩ := packetAcquired_spec h
        simp only [NamedEvent.event, Capture.step]
        rw [if_pos hfresh, hcapture]
        exact Option.map_eq_some_iff.mpr ⟨d, hd, rfl⟩
      · cases h
  | nodesUpdate pref mode nameRes =>
      rw [(lookup_labels_nodesUpdate h).1]
      rfl
  | clock | startCapture | pauseCapture | endOfFile | stopCapture | linksUpdate | summaryUpdate =>
      obtain rfl := Option.some.inj h
      rfl

theorem Named.numericName_isSome (hs : s.Named since) {id : NodeId} {labels : NodeLabels}
    (hlabels : s.labels.lookup id = some labels) {level : Nat} {protocol : String} {name : NodeName}
    (hname : name ∈ labels.nodeNames level protocol) : name.numericName.isSome := by
  have hcollects := hs.collects id level protocol
  have hmem : name ∈ s.namesOf id level protocol := by rwa [namesOf, hlabels]
  rw [hcollects.value name hmem]
  exact NodeName.numericName_recordOf (hcollects.occurs name hmem)

theorem Named.nodesUpdate_isSome (hs : s.Named since) (pref : Preferences) (mode : ApeMode)
    (nameRes : Bool) : (s.nodesUpdate pref mode nameRes).isSome := by
  unfold NamedCapture.nodesUpdate
  rw [if_pos]
  · rfl
  · rw [List.all_eq_true]
    intro e he
    have hlabels : s.labels.lookup e.1 = some e.2 :=
      SortedTree.lookup_eq_some_iff.mpr ⟨e.1, he, ThreeWay.refl e.1⟩
    unfold updateLabels
    split
    · exact NodeLabels.update_isSome fun _ _ _ hname => hs.numericName_isSome hlabels hname
    · rfl

theorem packetAcquired_isSome {f : Frame} {d : DecodeState} (hd : f.decode s.capture = some d)
    (hsrc : (f.names d .outbound).1 = true) (hdst : (f.names d .inbound).1 = true) :
    (s.packetAcquired f).isSome := by
  have hadd : ∀ (s : NamedCapture) (packet : PacketInfo) (nodeId : NodeId)
      (direction : PacketDirection) (addr : NodeRef), packet.protDesc = d.pr →
        (f.names d direction).1 = true → (s.addNodePacket packet nodeId direction addr f d).isSome := by
    intro s packet nodeId direction addr hpr hnames
    obtain ⟨labels, hsome, _⟩ :=
      addNodePacket_spec s nodeId addr hpr hnames
    rw [hsome]
    rfl
  unfold packetAcquired registerPacket
  rw [hd, Option.bind_eq_bind, Option.bind_some]
  dsimp only
  obtain ⟨s₁, h₁⟩ := Option.isSome_iff_exists.mp (hadd _ ⟨f.mem.packet, f.pktSize, s.capture.now, d.pr⟩
    d.srcNodeId .outbound f.mem.srcNode rfl hsrc)
  obtain ⟨s₂, h₂⟩ := Option.isSome_iff_exists.mp (hadd s₁
    ⟨f.mem.packet, f.pktSize, s.capture.now, d.pr⟩ d.dstNodeId .inbound f.mem.dstNode rfl hdst)
  rw [h₁, Option.bind_eq_bind, Option.bind_some, h₂]
  rfl

/-- Where the names come back, no event follows a pointer that is `NULL`. -/
theorem Named.step_isSome_iff (hs : s.Named since) (e : NamedEvent) :
    (s.step e).isSome ↔ (s.capture.step e.event).isSome ∧ s.NamesReturn e := by
  constructor
  · intro hsome
    obtain ⟨s', h⟩ := Option.isSome_iff_exists.mp hsome
    refine ⟨by rw [step_event h]; rfl, ?_⟩
    cases e with
    | packetAcquired f =>
        simp only [NamedCapture.step] at h
        split at h
        · intro d hd
          obtain ⟨d', hd', hsrc, hdst, _⟩ := packetAcquired_spec h
          obtain rfl := Option.some.inj (hd.symm.trans hd')
          exact ⟨hsrc, hdst⟩
        · cases h
    | clock | startCapture | pauseCapture | endOfFile | stopCapture | nodesUpdate | linksUpdate
    | summaryUpdate => trivial
  · rintro ⟨hcapture, hreturn⟩
    cases e with
    | packetAcquired f =>
        simp only [NamedEvent.event, Capture.step] at hcapture
        simp only [NamedCapture.step]
        split at hcapture
        next hfresh =>
          rw [if_pos hfresh]
          rw [Capture.packetAcquired, Option.isSome_map] at hcapture
          obtain ⟨d, hd⟩ := Option.isSome_iff_exists.mp hcapture
          obtain ⟨hsrc, hdst⟩ := hreturn d hd
          exact packetAcquired_isSome hd hsrc hdst
        · cases hcapture
    | nodesUpdate pref mode nameRes => exact hs.nodesUpdate_isSome pref mode nameRes
    | clock | startCapture | pauseCapture | endOfFile | stopCapture | linksUpdate | summaryUpdate => rfl

/-- **Names and the capture.** A run with names is a run of the capture, and it stops only where the
capture does or where the name decoder does not come back. -/
theorem run_follows_capture {now : Timeval} {past : List (NamedCapture × NamedEvent)}
    (h : (machine now).Run past s) :
    Capture.Run (past.map fun x => (x.1.capture, x.2.event)) s.capture ∧
      ∀ e, (s.step e).isSome ↔ (s.capture.step e.event).isSome ∧ s.NamesReturn e := by
  refine ⟨?_, (run_names h).step_isSome_iff⟩
  induction h with
  | start => exact .initial now
  | step _ e hstep ih =>
      rw [List.map_append]
      exact ih.step e.event (step_event hstep)

/-- A TCP packet from 10.0.0.1 to 10.0.0.2, on a device without a link header. -/
def tcpFrame : Frame where
  env := DecodeEnv.bare linktypeRawIp .ip
  rawPacket i := ([0x45, 0, 0, 0, 0, 0, 0, 0, 64, 6, 0, 0, 10, 0, 0, 1, 10, 0, 0, 2, 4, 0, 8, 1, 0, 0,
    0, 0, 0, 0, 0, 0, 0x50, 0, 0, 0, 0, 0, 0, 0] : List UInt8).getD i.toNat 0
  rawSize := 40
  pktSize := 40
  mem := ⟨1, 1, 2⟩
  srcCall := ⟨NamesEnv.bare .ip, NodeId.clear, 0⟩
  dstCall := ⟨NamesEnv.bare .ip, NodeId.clear, 0⟩

theorem run_follows_capture_tcpFrame : ∃ past s, (machine ⟨10, 0⟩).Run past s ∧
    s.labels.entries.length = 2 ∧
    Capture.Run (past.map fun x => (x.1.capture, x.2.event)) s.capture := by
  have hsteps : ((machine ⟨10, 0⟩).stepAll (initial ⟨10, 0⟩)
      [.startCapture, .packetAcquired tcpFrame]).map (fun s => s.labels.entries.length) = some 2 := by
    decide +kernel
  obtain ⟨s, hs, hlength⟩ := Option.map_eq_some_iff.mp hsteps
  obtain ⟨past, hrun, _⟩ := Machine.Run.start.stepAll hs
  exact ⟨past, s, hrun, hlength, (run_follows_capture hrun).1⟩

end Lockstep

/-! ### What a name tells -/

def forId (id : NodeId) (rs : List Registration) : List Registration :=
  rs.filter fun r => nodeIdCompare id r.nodeId = 0

theorem foldl_assign (name : NodeName) (rs : List Registration) :
    (rs.foldl NodeName.assign name).accumulated = name.accumulated + (rs.map (·.size)).sum ∧
      (rs.foldl NodeName.assign name).numericName =
        (rs.getLast?.map (·.numeric)).or name.numericName ∧
      (rs.foldl NodeName.assign name).resName = (rs.filterMap (·.resolved)).getLast?.or name.resName := by
  induction rs using List.reverseRecOn with
  | nil => exact ⟨rfl, rfl, rfl⟩
  | append_singleton rs r ih =>
      obtain ⟨haccumulated, _, hresolved⟩ := ih
      rw [List.foldl_append, List.foldl_cons, List.foldl_nil, List.map_append, List.sum_append,
        List.getLast?_concat, List.filterMap_append]
      refine ⟨?_, rfl, ?_⟩
      · simp [NodeName.assign, haccumulated, Nat.add_assoc]
      · cases hr : r.resolved with
        | none => simp [NodeName.assign, hr, hresolved]
        | some text => simp [NodeName.assign, hr]

/-- **What a name tells.** At any time the names of a protocol have different node ids, all those that
were registered since the protocol came onto the stack; each has the sum of the sizes registered for
its id, the numeric text that was last and the resolved text that was last. -/
theorem run_registered {now : Timeval} {past : List (NamedCapture × NamedEvent)} {s : NamedCapture}
    (h : (machine now).Run past s) (id : NodeId) (level : Nat) (protocol : String) :
    (s.namesOf id level protocol).Pairwise (fun a b => nodeIdCompare a.nodeId b.nodeId ≠ 0) ∧
      (s.onStack id level protocol = false → s.namesOf id level protocol = []) ∧
      (s.onStack id level protocol = true →
        (∀ r ∈ registered past id level protocol, ∃ name ∈ s.namesOf id level protocol,
          nodeIdCompare name.nodeId r.nodeId = 0) ∧
        ∀ name ∈ s.namesOf id level protocol,
          forId name.nodeId (registered past id level protocol) ≠ [] ∧
          name.accumulated =
            ((forId name.nodeId (registered past id level protocol)).map (·.size)).sum ∧
          name.numericName =
            (forId name.nodeId (registered past id level protocol)).getLast?.map (·.numeric) ∧
          name.resName =
            ((forId name.nodeId (registered past id level protocol)).filterMap (·.resolved)).getLast?) := by
  have hnamed := run_names h
  have hcollects := hnamed.collects id level protocol
  refine ⟨hcollects.distinct, hnamed.namesOf_eq_nil, fun hon => ?_⟩
  rw [if_pos hon] at hcollects
  refine ⟨hcollects.complete, fun name hname => ⟨hcollects.occurs name hname, ?_⟩⟩
  have hvalue := hcollects.value name hname
  obtain ⟨haccumulated, hnumeric, hresolved⟩ := foldl_assign (NodeName.create name.nodeId)
    (forId name.nodeId (registered past id level protocol))
  refine ⟨?_, ?_, ?_⟩
  · exact (congrArg NodeName.accumulated hvalue).trans (haccumulated.trans (Nat.zero_add _))
  · exact (congrArg NodeName.numericName hvalue).trans (hnumeric.trans (Option.or_none))
  · exact (congrArg NodeName.resName hvalue).trans (hresolved.trans (Option.or_none))

/-- The name of 10.0.0.1. -/
theorem run_registered_tcpFrame : ∃ past s, (machine ⟨10, 0⟩).Run past s ∧ ∃ id,
    s.onStack id 1 "IP" = true ∧ ∃ name ∈ s.namesOf id 1 "IP",
      forId name.nodeId (registered past id 1 "IP") ≠ [] := by
  let id : NodeId := ⟨.ip, NodeAddr.setIp Octets.zero
    ((Address.clear.setType afInet).setAddr 4 fun i => ([10, 0, 0, 1] : List UInt8).getD i 0)⟩
  have hsteps : ((machine ⟨10, 0⟩).stepAll (initial ⟨10, 0⟩)
      [.startCapture, .packetAcquired tcpFrame]).map (fun s =>
        (s.onStack id 1 "IP", (s.namesOf id 1 "IP").isEmpty)) = some (true, false) := by
    decide +kernel
  obtain ⟨s, hs, hstate⟩ := Option.map_eq_some_iff.mp hsteps
  obtain ⟨hon, hnames⟩ := Prod.mk.inj hstate
  obtain ⟨past, hrun, _⟩ := Machine.Run.start.stepAll hs
  have hne : s.namesOf id 1 "IP" ≠ [] := fun hnil => by
    rw [hnil] at hnames
    cases hnames
  obtain ⟨name, hname⟩ := List.exists_mem_of_ne_nil _ hne
  exact ⟨past, s, hrun, id, hon, name, hname,
    (((run_registered hrun id 1 "IP").2.2 hon).2 name hname).1⟩

end NamedCapture

end EtherApe
