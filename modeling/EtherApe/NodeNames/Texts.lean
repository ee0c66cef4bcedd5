import EtherApe.NodeNames.Runs

/-!
# The texts of a node

A node is created with the text of its id. An update of a node that has packets looks for a protocol with
a usable name, in the order of the mode, and takes the busiest name of the first one it finds; nothing
else changes the texts.
-/

namespace EtherApe

open NodeLabels Printf

namespace NodeName

instance : Std.Total freqLe := ⟨fun a b => Nat.le_total b.accumulated a.accumulated⟩

instance : IsTrans NodeName freqLe := ⟨fun _ _ _ hab hbc => Nat.le_trans hbc hab⟩

theorem accumulated_le_head {names : List NodeName} {name : NodeName}
    (hhead : (names.insertionSort freqLe).head? = some name) {other : NodeName} (hother : other ∈ names) :
    other.accumulated ≤ name.accumulated := by
  obtain ⟨rest, hsorted⟩ := List.head?_eq_some_iff.mp hhead
  have hpairwise := List.pairwise_insertionSort freqLe names
  rw [hsorted, List.pairwise_cons] at hpairwise
  have hmem := (List.mem_insertionSort freqLe).mpr hother
  rw [hsorted] at hmem
  rcases List.mem_cons.mp hmem with rfl | hmem
  · exact le_rfl
  · exact hpairwise.1 other hmem

end NodeName

namespace NodeLabels

/-- At a place of the search there is a name that can be taken. -/
def Candidate (nameRes : Bool) (names : Nat → String → List NodeName) (x : NameDecode × Nat)
    (name : NodeName) : Prop :=
  (names x.2 x.1.protocol).head? = some name ∧ usable nameRes x.1 name

/-- The texts that the search leaves: those of the first name that can be taken, or the old ones. -/
def Chosen (nameRes : Bool) (order : List (NameDecode × Nat)) (labels labels' : NodeLabels) : Prop :=
  (∃ before x after name, order = before ++ x :: after ∧
      Candidate nameRes labels.nodeNames x name ∧
      (∀ y ∈ before, ∀ other, ¬Candidate nameRes labels.nodeNames y other) ∧
      name.numericName = some labels'.numericName ∧ labels'.name = name.resName.getD labels.name) ∨
    (∀ y ∈ order, ∀ other, ¬Candidate nameRes labels.nodeNames y other) ∧
      labels'.numericName = labels.numericName ∧ labels'.name = labels.name

section Search

variable {nameRes : Bool} {protos : Protostack} {labels labels' : NodeLabels}

theorem Chosen.cons {order : List (NameDecode × Nat)} {x : NameDecode × Nat}
    (hx : ∀ other, ¬Candidate nameRes labels.nodeNames x other)
    (h : Chosen nameRes order labels labels') : Chosen nameRes (x :: order) labels labels' := by
  rcases h with ⟨before, y, after, name, rfl, hname, hbefore, htexts⟩ | ⟨hnone, htexts⟩
  · refine Or.inl ⟨x :: before, y, after, name, rfl, hname, ?_, htexts⟩
    exact List.forall_mem_cons.mpr ⟨hx, hbefore⟩
  · exact Or.inr ⟨List.forall_mem_cons.mpr ⟨hx, hnone⟩, htexts⟩

/-- Where the protocols with names are on the stack, the search ends at the first name that can be
taken. -/
theorem setNodeNameLoop_chosen
    (hfound : ∀ level protocol, labels.nodeNames level protocol ≠ [] →
      (protos.find level (some protocol)).isSome)
    {order : List (NameDecode × Nat)}
    (h : setNodeNameLoop nameRes protos labels order = some labels') :
    Chosen nameRes order labels labels' := by
  induction order with
  | nil =>
      obtain rfl := Option.some.inj h
      exact Or.inr ⟨fun _ hy => absurd hy List.not_mem_nil, rfl, rfl⟩
  | cons x rest ih =>
      obtain ⟨iter, j⟩ := x
      rw [setNodeNameLoop] at h
      split at h
      next hnone =>
        refine (ih h).cons fun other hother => ?_
        have hnames := hfound j iter.protocol fun hnil => by
          rw [Candidate, hnil] at hother
          cases hother.1
        rw [hnone] at hnames
        cases hnames
      next protocol hprotocol =>
        have hname : iter.protocol = protocol.name :=
          Option.some.inj (Protostack.find_eq_some hprotocol)
        rw [← hname] at h
        split at h
        next hnames =>
          refine (ih h).cons fun other hother => ?_
          rw [Candidate, hnames] at hother
          cases hother.1
        next name names hnames =>
          have hhead : (labels.nodeNames j iter.protocol).head? = some name := by
            rw [hnames]
            rfl
          split at h
          next husable =>
            obtain ⟨numericName, hnumeric, rfl⟩ := Option.map_eq_some_iff.mp h
            exact Or.inl ⟨[], (iter, j), rest, name, rfl, ⟨hhead, husable⟩,
              fun _ hy => absurd hy List.not_mem_nil, hnumeric, rfl⟩
          next husable =>
            refine (ih h).cons fun other hother => husable ?_
            obtain rfl := Option.some.inj (hhead.symm.trans hother.1)
            exact hother.2

end Search

/-- What an update does to the texts: nothing, unless the node has packets. -/
theorem update_texts {now : Timeval} {pref : Preferences} {mode : ApeMode} {nameRes : Bool} {node : Node}
    {labels labels' : NodeLabels} (h : labels.update now pref mode nameRes node = some labels') :
    ((updatedNode now pref node).nodeStats.pktList = [] →
      labels'.numericName = labels.numericName ∧ labels'.name = labels.name) ∧
    ((updatedNode now pref node).nodeStats.pktList ≠ [] →
      Chosen nameRes (searchOrder (sequenceOf mode)) { labels with nodeNames := labels'.nodeNames } labels' ∧
        ∀ level protocol, ∀ name ∈ (labels'.nodeNames level protocol).head?,
          ∀ other ∈ labels'.nodeNames level protocol, other.accumulated ≤ name.accumulated) := by
  have hpackets : (node.nodeStats.update now PacketStore.empty pref.averagingTime
      pref.protoNodeTimeoutTime).1 = true ↔ (updatedNode now pref node).nodeStats.pktList ≠ [] := by
    rw [TrafficStats.update_active_iff, TrafficStats.update_pktList, updatedNode_pktList]
  unfold update at h
  dsimp only at h
  split at h
  next hactive =>
    refine ⟨fun hnil => absurd hnil (hpackets.mp hactive), fun _ => ?_⟩
    have hnames := setNodeNameLoop_nodeNames h
    rw [hnames]
    refine ⟨?_, ?_⟩
    · refine setNodeNameLoop_chosen (fun level protocol hne => ?_) h
      by_contra hnone
      exact hne (by simp [sortNames, keepNames, hnone])
    · intro level protocol name hname other hother
      dsimp only [sortNames] at hname hother
      rw [List.mem_insertionSort] at hother
      exact NodeName.accumulated_le_head hname hother
  next hidle =>
    obtain rfl := Option.some.inj h
    exact ⟨fun _ => ⟨rfl, rfl⟩, fun hne => absurd (hpackets.mpr hne) hidle⟩

end NodeLabels

namespace NamedCapture

variable {now : Timeval} {past : List (NamedCapture × NamedEvent)} {s s' : NamedCapture}

def total (past : List (NamedCapture × NamedEvent)) (id : NodeId) (level : Nat) (protocol : String)
    (k : NodeId) : Nat :=
  ((forId k (registered past id level protocol)).map (·.size)).sum

theorem forId_congr {k k' : NodeId} (h : nodeIdCompare k k' = 0) (rs : List Registration) :
    forId k rs = forId k' rs := by
  unfold forId
  congr 1
  funext r
  rw [decide_eq_decide]
  exact ⟨fun hr => ThreeWay.eq_trans (ThreeWay.eq_symm h) hr, fun hr => ThreeWay.eq_trans h hr⟩

theorem registered_nodesUpdate {pref : Preferences} {mode : ApeMode} {nameRes : Bool} {id : NodeId}
    {level : Nat} {protocol : String} (hon : s.onStack id level protocol = true) :
    registered (past ++ [(s, .nodesUpdate pref mode nameRes)]) id level protocol =
      registered past id level protocol := by
  rw [registered, List.foldl_append, List.foldl_cons, List.foldl_nil, ← registered, if_pos hon]
  exact List.append_nil _

/-- **What a node is called.** An update leaves the texts of a node without packets, and gives any other
node the texts of the first name that can be taken in the order of the mode, if there is one: of the
names of its protocol, one for which most bytes were registered. -/
theorem run_texts (h : (machine now).Run past s) {pref : Preferences} {mode : ApeMode} {nameRes : Bool}
    (hstep : s.step (.nodesUpdate pref mode nameRes) = some s') {id : NodeId} {node' : Node}
    (hnode' : s'.capture.allNodes.lookup id = some node') :
    ∃ labels labels', s.labels.lookup id = some labels ∧ s'.labels.lookup id = some labels' ∧
      (node'.nodeStats.pktList = [] →
        labels'.numericName = labels.numericName ∧ labels'.name = labels.name) ∧
      (node'.nodeStats.pktList ≠ [] →
        Chosen nameRes (searchOrder (sequenceOf mode)) { labels with nodeNames := s'.namesOf id }
          labels' ∧
        ∀ level protocol, ∀ name ∈ (s'.namesOf id level protocol).head?,
          ∀ r ∈ registered past id level protocol,
            total past id level protocol r.nodeId ≤ total past id level protocol name.nodeId) := by
  have hrun' := h.step (.nodesUpdate pref mode nameRes) hstep
  have hsame := (run_names h).same
  rcases nodesUpdate_cases hsame hstep id with ⟨_, hgone⟩ |
    ⟨node, labels, labels', _, hlabels, hupdate, hlabels', hnode⟩
  · rw [hgone] at hnode'
    cases hnode'
  · obtain rfl := Option.some.inj (hnode.symm.trans hnode')
    have hnames : s'.namesOf id = labels'.nodeNames := by
      funext level protocol
      rw [namesOf, hlabels']
      rfl
    obtain ⟨hidle, hactive⟩ := NodeLabels.update_texts hupdate
    refine ⟨labels, labels', hlabels, hlabels', hidle, fun hpackets => ?_⟩
    obtain ⟨hchosen, hbusiest⟩ := hactive hpackets
    rw [hnames]
    refine ⟨hchosen, fun level protocol name hname r hr => ?_⟩
    have hmem : name ∈ s'.namesOf id level protocol := by
      rw [hnames]
      exact List.mem_of_mem_head? hname
    obtain ⟨_, hnone, hall⟩ := run_registered hrun' id level protocol
    cases hon : s'.onStack id level protocol with
    | false =>
        rw [hnone hon] at hmem
        exact absurd hmem List.not_mem_nil
    | true =>
        obtain ⟨hcomplete, htells⟩ := hall hon
        have hstays := (namesOf_nodesUpdate hsame hstep id level protocol).1 hon
        rw [registered_nodesUpdate hstays] at hcomplete htells
        obtain ⟨other, hother, hkey⟩ := hcomplete r hr
        have hle := hbusiest level protocol name hname other (by rwa [hnames] at hother)
        rw [(htells name hmem).2.1, (htells other hother).2.1, forId_congr hkey] at hle
        exact hle

/-- The address 10.0.0.1 of a packet as a node. -/
def gateId : NodeId :=
  ⟨.ip, NodeAddr.setIp Octets.zero
    ((Address.clear.setType afInet).setAddr 4 fun i => ([10, 0, 0, 1] : List UInt8).getD i 0)⟩

theorem run_texts_tcpFrame : ∃ (past : List (NamedCapture × NamedEvent)) (s s' : NamedCapture)
    (node' : Node), (machine ⟨10, 0⟩).Run past s ∧
    s'.capture.allNodes.lookup gateId = some node' ∧ node'.nodeStats.pktList ≠ [] ∧
    ∃ labels labels', s.labels.lookup gateId = some labels ∧ s'.labels.lookup gateId = some labels' ∧
      Chosen false (searchOrder ipSequence) { labels with nodeNames := s'.namesOf gateId } labels' := by
  let update : NamedEvent := .nodesUpdate ⟨5000, 0, 0, 0, 0, 5000, 0⟩ .ip false
  have hsteps : ((machine ⟨10, 0⟩).stepAll (initial ⟨10, 0⟩)
      [.startCapture, .packetAcquired tcpFrame]).map (fun s =>
        ((s.step update).bind fun s' => s'.capture.allNodes.lookup gateId).map fun node' =>
          node'.nodeStats.pktList.isEmpty) = some (some false) := by
    decide +kernel
  obtain ⟨s, hs, hlater⟩ := Option.map_eq_some_iff.mp hsteps
  obtain ⟨node', hnode', hpackets⟩ := Option.map_eq_some_iff.mp hlater
  obtain ⟨s', hstep, hnode'⟩ := Option.bind_eq_some_iff.mp hnode'
  obtain ⟨past, hrun, _⟩ := Machine.Run.start.stepAll hs
  have hne : node'.nodeStats.pktList ≠ [] := fun hnil => by
    rw [hnil] at hpackets
    cases hpackets
  obtain ⟨labels, labels', hlabels, hlabels', _, hactive⟩ := run_texts hrun hstep hnode'
  exact ⟨past, s, s', node', hrun, hnode', hne, labels, labels', hlabels, hlabels', (hactive hne).1⟩

/-! ### Where texts come from -/

theorem nodeIdStr_congr {a b : NodeId} (h : nodeIdCompare a b = 0) : nodeIdStr a = nodeIdStr b := by
  obtain ⟨htype, hsignificant⟩ := nodeIdCompare_eq_zero_iff.mp h
  unfold NodeId.significant at hsignificant
  unfold nodeIdStr
  rw [htype] at hsignificant ⊢
  cases hb : b.nodeType with
  | apemodeDefault => rfl
  | link6 =>
      rw [hb] at hsignificant
      exact congrArg etherToStr hsignificant
  | ip =>
      rw [hb] at hsignificant
      have hip : a.addr.ip = b.addr.ip := funext fun k =>
        (Octets.firstBytes_eq_iff (by decide)).mp hsignificant _ k.isLt
      dsimp only
      rw [hip]
  | tcp =>
      rw [hb] at hsignificant
      have haddr : a.addr = b.addr := funext fun k =>
        (Octets.firstBytes_eq_iff le_rfl).mp hsignificant k k.isLt
      rw [haddr]

/-- The texts are that of the id, or were registered for the node by a packet. -/
structure Sourced (past : List (NamedCapture × NamedEvent)) (id : NodeId) (labels : NodeLabels) :
    Prop where
  name : labels.name = nodeIdStr id ∨ ∃ x ∈ past, ∃ level protocol,
    ∃ r ∈ x.1.registrations x.2 id level protocol, r.resolved = some labels.name
  numericName : labels.numericName = nodeIdStr id ∨ ∃ x ∈ past, ∃ level protocol,
    ∃ r ∈ x.1.registrations x.2 id level protocol, r.numeric = labels.numericName

theorem Sourced.mono {id : NodeId} {labels labels' : NodeLabels} (hs : Sourced past id labels)
    (hname : labels'.name = labels.name) (hnumeric : labels'.numericName = labels.numericName)
    (x : NamedCapture × NamedEvent) : Sourced (past ++ [x]) id labels' where
  name := by
    rw [hname]
    exact hs.name.imp_right fun ⟨y, hy, hr⟩ => ⟨y, List.mem_append_left _ hy, hr⟩
  numericName := by
    rw [hnumeric]
    exact hs.numericName.imp_right fun ⟨y, hy, hr⟩ => ⟨y, List.mem_append_left _ hy, hr⟩

theorem sourced_create (past : List (NamedCapture × NamedEvent)) (id : NodeId) :
    Sourced past id (NodeLabels.create id) := ⟨Or.inl rfl, Or.inl rfl⟩

theorem exists_of_mem_registered {id : NodeId} {level : Nat} {protocol : String} {r : Registration}
    (hr : r ∈ registered past id level protocol) :
    ∃ x ∈ past, r ∈ x.1.registrations x.2 id level protocol := by
  induction past using List.reverseRecOn with
  | nil => exact absurd hr List.not_mem_nil
  | append_singleton past x ih =>
      rw [registered, List.foldl_append, List.foldl_cons, List.foldl_nil, ← registered] at hr
      rcases List.mem_append.mp hr with hr | hr
      · split at hr
        · obtain ⟨y, hy, hmem⟩ := ih hr
          exact ⟨y, List.mem_append_left _ hy, hmem⟩
        · exact absurd hr List.not_mem_nil
      · exact ⟨x, List.mem_append_right _ List.mem_cons_self, hr⟩

theorem exists_of_mem_namesOf (h : (machine now).Run past s) {id : NodeId} {level : Nat}
    {protocol : String} {name : NodeName} (hname : name ∈ s.namesOf id level protocol) :
    (∃ x ∈ past, ∃ r ∈ x.1.registrations x.2 id level protocol, name.numericName = some r.numeric) ∧
      ∀ text, name.resName = some text →
        ∃ x ∈ past, ∃ r ∈ x.1.registrations x.2 id level protocol, r.resolved = some text := by
  obtain ⟨_, hnone, hall⟩ := run_registered h id level protocol
  cases hon : s.onStack id level protocol with
  | false =>
      rw [hnone hon] at hname
      exact absurd hname List.not_mem_nil
  | true =>
      obtain ⟨hne, _, hnumeric, hresolved⟩ := (hall hon).2 name hname
      have hsub : ∀ r ∈ forId name.nodeId (registered past id level protocol),
          ∃ x ∈ past, r ∈ x.1.registrations x.2 id level protocol :=
        fun r hr => exists_of_mem_registered (List.mem_of_mem_filter hr)
      constructor
      · obtain ⟨r, hlast⟩ := Option.isSome_iff_exists.mp (List.getLast?_isSome.mpr hne)
        obtain ⟨x, hx, hr⟩ := hsub r (List.mem_of_getLast? hlast)
        exact ⟨x, hx, r, hr, by rw [hnumeric, hlast]; rfl⟩
      · intro text htext
        rw [hresolved] at htext
        obtain ⟨r, hr, htext⟩ := List.mem_filterMap.mp (List.mem_of_getLast? htext)
        obtain ⟨x, hx, hr⟩ := hsub r hr
        exact ⟨x, hx, r, hr, htext⟩

theorem labelsAt_addNodePacket {packet : PacketInfo} {nodeId : NodeId} {direction : PacketDirection}
    {addr : NodeRef} {f : Frame} {d : DecodeState} (hpr : packet.protDesc = d.pr)
    (h : s.addNodePacket packet nodeId direction addr f d = some s') (id : NodeId) :
    (s'.labelsAt id).name = (s.labelsAt id).name ∧
      (s'.labelsAt id).numericName = (s.labelsAt id).numericName := by
  obtain ⟨labels, hadd, hname, hnumeric, _⟩ :=
    addNodePacket_spec s nodeId addr hpr (names_of_addNodePacket h)
  rw [hadd] at h
  obtain rfl := Option.some.inj h
  by_cases hid : nodeIdCompare nodeId id = 0
  · have hafter : (s.labels.upsert nodeId labels fun _ => labels).lookup id = some labels := by
      rw [← SortedTree.lookup_congr hid]
      exact SortedTree.lookup_upsert
    have hbefore : (s.labelsAt nodeId).name = (s.labelsAt id).name ∧
        (s.labelsAt nodeId).numericName = (s.labelsAt id).numericName := by
      unfold labelsAt
      rw [SortedTree.lookup_congr hid]
      cases s.labels.lookup id with
      | some old => exact ⟨rfl, rfl⟩
      | none => exact ⟨nodeIdStr_congr hid, nodeIdStr_congr hid⟩
    simp only [labelsAt, hafter, Option.getD_some]
    exact ⟨hname.trans hbefore.1, hnumeric.trans hbefore.2⟩
  · simp only [labelsAt, SortedTree.lookup_upsert_of_ne hid, and_self]

/-- **Where texts come from.** Whatever has happened, the text that a node is shown with is that of its
own id, or a packet of the node registered it as the resolved name of a protocol; so with its numeric
text. -/
theorem run_sourced (h : (machine now).Run past s) (id : NodeId) : Sourced past id (s.labelsAt id) := by
  induction h with
  | start => exact sourced_create [] id
  | @step past s s' h e hstep ih =>
      have hkept : s'.labels = s.labels → Sourced (past ++ [(s, e)]) id (s'.labelsAt id) := by
        intro hlabels
        rw [labelsAt, hlabels]
        exact ih.mono rfl rfl _
      have hempty : s'.labels = SortedTree.empty → Sourced (past ++ [(s, e)]) id (s'.labelsAt id) := by
        intro hlabels
        rw [labelsAt, hlabels]
        exact sourced_create _ id
      cases e with
      | clock | pauseCapture | endOfFile | linksUpdate | summaryUpdate =>
          obtain rfl := Option.some.inj hstep
          exact hkept rfl
      | startCapture =>
          obtain rfl := Option.some.inj hstep
          by_cases hstop : s.capture.captureStatus = .stop
          · exact hempty (if_pos hstop)
          · exact hkept (if_neg hstop)
      | stopCapture =>
          obtain rfl := Option.some.inj hstep
          by_cases hstop : s.capture.captureStatus = .stop
          · exact hkept (if_pos hstop)
          · exact hempty (if_neg hstop)
      | packetAcquired f =>
          simp only [machine, NamedCapture.step] at hstep
          split at hstep
          · obtain ⟨d, _, hstep⟩ := Option.bind_eq_some_iff.mp hstep
            obtain ⟨s₁, h₁, hstep⟩ := Option.bind_eq_some_iff.mp hstep
            obtain ⟨s₂, h₂, hstep⟩ := Option.bind_eq_some_iff.mp hstep
            obtain rfl := Option.some.inj hstep
            obtain ⟨hname₁, hnumeric₁⟩ := labelsAt_addNodePacket rfl h₁ id
            obtain ⟨hname₂, hnumeric₂⟩ := labelsAt_addNodePacket rfl h₂ id
            exact ih.mono (hname₂.trans hname₁) (hnumeric₂.trans hnumeric₁) _
          · cases hstep
      | nodesUpdate pref mode nameRes =>
          rcases nodesUpdate_cases (run_names h).same hstep id with ⟨hgone, _⟩ |
            ⟨node, _, _, _, _, _, _, hnode'⟩
          · rw [labelsAt, hgone]
            exact sourced_create _ id
          · obtain ⟨labels, labels', hlabels, hlabels', hidle, hactive⟩ := run_texts h hstep hnode'
            have hbefore : s.labelsAt id = labels := by rw [labelsAt, hlabels, Option.getD_some]
            have hafter : s'.labelsAt id = labels' := by rw [labelsAt, hlabels', Option.getD_some]
            rw [hbefore] at ih
            rw [hafter]
            have hsame : labels'.numericName = labels.numericName ∧ labels'.name = labels.name →
                Sourced (past ++ [(s, .nodesUpdate pref mode nameRes)]) id labels' :=
              fun htexts => ih.mono htexts.2 htexts.1 _
            by_cases hpackets : (updatedNode s.capture.now pref node).nodeStats.pktList = []
            · exact hsame (hidle hpackets)
            rcases (hactive hpackets).1 with ⟨_, x, _, name, _, hcandidate, _, hnumeric, hname⟩ |
              ⟨_, htexts⟩
            · have hmem := List.mem_of_mem_head? hcandidate.1
              obtain ⟨⟨y, hy, r, hr, htext⟩, hresolved⟩ :=
                exists_of_mem_namesOf (h.step (.nodesUpdate pref mode nameRes) hstep) hmem
              refine ⟨?_, Or.inr ⟨y, hy, _, _, r, hr, ?_⟩⟩
              · rw [hname]
                cases hres : name.resName with
                | none =>
                    have hkept : Sourced (past ++ [(s, .nodesUpdate pref mode nameRes)]) id labels :=
                      ih.mono rfl rfl _
                    exact hkept.name
                | some text =>
                    obtain ⟨y, hy, r, hr, htext⟩ := hresolved text hres
                    exact Or.inr ⟨y, hy, _, _, r, hr, htext⟩
              · exact Option.some.inj (htext.symm.trans hnumeric)
            · exact hsame htexts

def resolvedFrame : Frame :=
  { tcpFrame with
    srcCall :=
      ⟨{ NamesEnv.bare .ip with
        nameRes := true
        dnsLookup := fun _ => lit "gate" }, NodeId.clear, 0⟩ }

theorem run_sourced_resolvedFrame : ∃ past s, (machine ⟨10, 0⟩).Run past s ∧
    (s.labelsAt gateId).name = lit "gate" ∧ (s.labelsAt gateId).numericName = lit "10.0.0.1" ∧
    Sourced past gateId (s.labelsAt gateId) := by
  have hsteps : ((machine ⟨10, 0⟩).stepAll (initial ⟨10, 0⟩) [.startCapture, .packetAcquired resolvedFrame,
      .nodesUpdate ⟨5000, 0, 0, 0, 0, 5000, 0⟩ .ip true]).map (fun s =>
        ((s.labelsAt gateId).name, (s.labelsAt gateId).numericName)) =
      some (lit "gate", lit "10.0.0.1") := by
    decide +kernel
  obtain ⟨s, hs, htexts⟩ := Option.map_eq_some_iff.mp hsteps
  obtain ⟨hname, hnumeric⟩ := Prod.mk.inj htexts
  obtain ⟨past, hrun, _⟩ := Machine.Run.start.stepAll hs
  exact ⟨past, s, hrun, hname, hnumeric, run_sourced hrun gateId⟩
end NamedCapture

end EtherApe
