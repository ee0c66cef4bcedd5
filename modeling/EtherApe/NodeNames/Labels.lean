import EtherApe.Names.Levels
import EtherApe.NodeNames

/-!
# Texts and names of one node

What a packet and what an update do to the names of one node: a packet enters the names that its decoder
registers, at the levels of its own stack, where `protocol_stack_add_pkt` has just left a protocol. An
update drops the names of purged protocols and brings the other names into a new order.
-/

namespace EtherApe

/-! ### Protocols of a stack -/

namespace Protostack

variable {pstk : Protostack} {level : Nat} {name : String}

theorem mem_names_addPkt (pstk : Protostack) (now : Timeval) (packet : PacketInfo) (i : Level)
    (name : String) : name ∈ (pstk.addPkt now packet i).map (·.name) ↔
      name ∈ (pstk i).map (·.name) ∨ packet.protDesc.protonames i = some name := by
  unfold addPkt
  split
  next hnone => simp [hnone]
  next n hn =>
    unfold addAtLevel
    rw [hn, Option.some_inj]
    split
    next hany =>
      rw [updateNamed_names (f := addStats now packet.size) fun _ => rfl]
      refine ⟨Or.inl, fun h => h.elim id ?_⟩
      rintro rfl
      simpa using hany
    next =>
      rw [updateNamed_names (f := addStats now packet.size) fun _ => rfl, List.map_cons, List.mem_cons,
        or_comm]
      exact or_congr_right eq_comm

theorem find_addPkt_isSome_iff (now : Timeval) (packet : PacketInfo) :
    ((pstk.addPkt now packet).find level (some name)).isSome ↔
      (pstk.find level (some name)).isSome ∨ packet.protDesc.token level = some name := by
  rw [find_isSome_iff, find_isSome_iff, PacketProtos.token]
  by_cases h : level < stackSize + 1
  · rw [dif_pos h]
    simp only [h, exists_true_left]
    exact mem_names_addPkt pstk now packet ⟨level, h⟩ name
  · rw [dif_neg h]
    simp [h]

/-- The stack has no names that another one does not have. -/
def NamesWithin (pstk' pstk : Protostack) : Prop :=
  ∀ i, (pstk' i).map (·.name) ⊆ (pstk i).map (·.name)

theorem NamesWithin.find_isSome {pstk' : Protostack} (h : pstk'.NamesWithin pstk)
    (hsome : (pstk'.find level (some name)).isSome) : (pstk.find level (some name)).isSome := by
  obtain ⟨hlt, hmem⟩ := find_isSome_iff.mp hsome
  exact find_isSome_iff.mpr ⟨hlt, h _ hmem⟩

theorem namesWithin_subPkt (pstk : Protostack) (packet : PacketInfo) :
    (pstk.subPkt packet).NamesWithin pstk := by
  intro i
  rcases (subPktLoop_level (List.nodup_finRange (stackSize + 1)) pstk i :
      subPktLoop packet _ pstk i = pstk i ∨ _) with hsame | ⟨n, hsub⟩
  · rw [subPkt, hsame]
    exact fun _ h => h
  · rw [subPkt, hsub, updateNamed_names (f := subStats packet.size) fun _ => rfl]
    exact fun _ h => h

theorem namesWithin_purgeExpired (pstk : Protostack) (now : Timeval) (expireTime : ℚ) :
    (pstk.purgeExpired now expireTime).NamesWithin pstk :=
  fun i => ((purgeExpired_sublist pstk now expireTime i).map _).subset

theorem namesWithin_avg (pstk : Protostack) (avgtime : ℚ) : (pstk.avg avgtime).NamesWithin pstk := by
  intro i
  rw [avg, List.map_map]
  exact fun _ h => h

theorem namesWithin_sortMostUsed (pstk : Protostack) (level : Level) :
    (pstk.sortMostUsed level).2.NamesWithin pstk :=
  fun i => ((sortMostUsed_perm pstk level i).map _).subset

theorem NamesWithin.trans {a b c : Protostack} (hab : a.NamesWithin b) (hbc : b.NamesWithin c) :
    a.NamesWithin c := fun i _ h => hbc i (hab i h)

end Protostack

open Protostack in
theorem TrafficStats.namesWithin_refresh (now : Timeval) (store : PacketStore)
    (avgTime protoTimeout timeout : ℚ) (mainProt : Level → Option String) (ts : TrafficStats) :
    (ts.refresh now store avgTime protoTimeout timeout mainProt).stats.statsProtos.NamesWithin
      ts.statsProtos := by
  have hself : ts.statsProtos.NamesWithin ts.statsProtos := fun _ _ h => h
  refine refresh_keeps now store avgTime protoTimeout timeout mainProt ts
    (P := fun ts' => ts'.statsProtos.NamesWithin ts.statsProtos)
    (fun ts' i h => (namesWithin_sortMostUsed ts'.statsProtos i).trans h) ?_
  have hfold : ∀ (items : List PacketListItem) (ts' : TrafficStats),
      ts'.statsProtos.NamesWithin ts.statsProtos →
        (items.foldl uncountItem ts').statsProtos.NamesWithin ts.statsProtos := by
    intro items
    induction items with
    | nil => exact fun _ h => h
    | cons it items ih =>
        exact fun ts' h => ih _ ((namesWithin_subPkt ts'.statsProtos it.info).trans h)
  have hpurged : (ts.purgeExpiredPackets now store avgTime protoTimeout).2.statsProtos.NamesWithin
      ts.statsProtos := by
    simp only [purgeExpiredPackets, purgeLoop_snd, clearAverages_statsProtos]
    exact (namesWithin_purgeExpired _ now protoTimeout).trans (hfold _ ts hself)
  unfold update
  dsimp only
  split
  · exact (namesWithin_avg _ avgTime).trans hpurged
  · exact hpurged

/-! ### Names of a packet -/

/-- A name is only registered at a level that the packet has a protocol for. -/
theorem token_of_mem_names {env : NamesEnv} {inp : NameInput} {uninit : NodeId} {rounds : Nat}
    {a : AddedName} (ha : a ∈ (getPacketNames env inp uninit rounds).2.names) :
    ∃ name, inp.tokens.token a.level = some name := by
  obtain ⟨hs, h, hafter, hof⟩ := (getPacketNames_names env inp uninit rounds).1 a ha
  have hmem : h ∈ headers inp := hafter.isPrefix.subset (List.mem_append_right _ List.mem_cons_self)
  obtain ⟨name, htoken, _⟩ := Option.bind_eq_some_iff.mp (mem_headersFrom hmem).1
  exact ⟨name, by rw [hof.1, htoken]⟩

/-- What the registered names are to a protocol of a level. -/
def registrationsAt (tokens : PacketProtos) (nameRes : Bool) (packetSize level : Nat)
    (protocol : String) (names : List AddedName) : List Registration :=
  (names.filter fun a => a.level = level ∧ tokens.token a.level = some protocol).map fun a =>
    ⟨a.nodeId, if nameRes then a.resolved else none, a.numeric, packetSize⟩

namespace NodeLabels

section AddNames

variable {protos : Protostack} {tokens : PacketProtos} {nameRes : Bool} {packetSize : Nat}

theorem addName_spec {a : AddedName} {name : String} (htoken : tokens.token a.level = some name)
    (hsome : (protos.find a.level (some name)).isSome) (labels : NodeLabels) :
    ∃ labels', addName protos tokens nameRes packetSize labels a = some labels' ∧
      labels'.name = labels.name ∧ labels'.numericName = labels.numericName ∧
      ∀ level protocol, labels'.nodeNames level protocol =
        (registrationsAt tokens nameRes packetSize level protocol [a]).foldl
          (NodeName.grouping.enter nodeIdCompare) (labels.nodeNames level protocol) := by
  obtain ⟨p, hp⟩ := Option.isSome_iff_exists.mp hsome
  have hname : name = p.name := Option.some.inj (Protostack.find_eq_some hp)
  unfold addName
  rw [htoken, hp]
  refine ⟨_, rfl, rfl, rfl, fun level protocol => ?_⟩
  simp only [setNames, registrationsAt]
  by_cases hkey : level = a.level ∧ protocol = p.name
  · obtain ⟨rfl, rfl⟩ := hkey
    rw [if_pos ⟨rfl, rfl⟩, List.filter_cons_of_pos (by simp [htoken, hname])]
    rfl
  · have hkey' : ¬(a.level = level ∧ tokens.token a.level = some protocol) := by
      rw [htoken, Option.some_inj, hname]
      exact fun ⟨hl, hn⟩ => hkey ⟨hl.symm, hn.symm⟩
    rw [if_neg hkey, List.filter_cons_of_neg (by simpa using hkey')]
    rfl

/-- Where the protocols of the names are on the stack, every name is entered. -/
theorem foldlM_addName (nameRes : Bool) (packetSize : Nat) {names : List AddedName}
    (hnames : ∀ a ∈ names, ∃ name,
      tokens.token a.level = some name ∧ (protos.find a.level (some name)).isSome)
    (labels : NodeLabels) :
    ∃ labels', names.foldlM (addName protos tokens nameRes packetSize) labels = some labels' ∧
      labels'.name = labels.name ∧ labels'.numericName = labels.numericName ∧
      ∀ level protocol, labels'.nodeNames level protocol =
        (registrationsAt tokens nameRes packetSize level protocol names).foldl
          (NodeName.grouping.enter nodeIdCompare) (labels.nodeNames level protocol) := by
  induction names generalizing labels with
  | nil => exact ⟨labels, rfl, rfl, rfl, fun _ _ => rfl⟩
  | cons a names ih =>
      obtain ⟨name, htoken, hsome⟩ := hnames a List.mem_cons_self
      obtain ⟨labels₁, hadd, hname, hnumeric, hfirst⟩ := addName_spec htoken hsome labels
      obtain ⟨labels', hrest, hname', hnumeric', hall⟩ :=
        ih (fun b hb => hnames b (List.mem_cons_of_mem a hb)) labels₁
      refine ⟨labels', ?_, hname'.trans hname, hnumeric'.trans hnumeric, fun level protocol => ?_⟩
      · rw [List.foldlM_cons, hadd]
        exact hrest
      · rw [hall, hfirst, ← List.foldl_append]
        congr 1
        simp only [registrationsAt]
        rw [← List.map_append, ← List.filter_append, List.singleton_append]

end AddNames

/-! ### Updates -/

section Update

variable {now : Timeval} {pref : Preferences} {mode : ApeMode} {nameRes : Bool} {node : Node}
  {protos : Protostack} {labels labels' : NodeLabels}

theorem setNodeNameLoop_nodeNames {order : List (NameDecode × Nat)}
    (h : setNodeNameLoop nameRes protos labels order = some labels') :
    labels'.nodeNames = labels.nodeNames := by
  induction order with
  | nil => rw [Option.some.inj h]
  | cons x rest ih =>
      rw [setNodeNameLoop] at h
      split at h
      · exact ih h
      · split at h
        · exact ih h
        · split at h
          · obtain ⟨numericName, _, rfl⟩ := Option.map_eq_some_iff.mp h
            rfl
          · exact ih h

theorem update_nodeNames (h : labels.update now pref mode nameRes node = some labels') (level : Nat)
    (protocol : String) : ∃ names, names.Perm (labels.nodeNames level protocol) ∧
      labels'.nodeNames level protocol =
        if ((updatedNode now pref node).nodeStats.statsProtos.find level (some protocol)).isSome then
          names
        else [] := by
  unfold update at h
  dsimp only at h
  split at h
  · rw [setNodeNameLoop_nodeNames h]
    refine ⟨(labels.nodeNames level protocol).insertionSort NodeName.freqLe,
      List.perm_insertionSort _ _, ?_⟩
    dsimp only [sortNames, keepNames]
    split <;> rfl
  · obtain rfl := Option.some.inj h
    exact ⟨_, List.Perm.refl _, rfl⟩

/-- The search comes to an end where the names have their texts. -/
theorem setNodeNameLoop_isSome
    (h : ∀ level protocol, ∀ name ∈ labels.nodeNames level protocol, name.numericName.isSome)
    (order : List (NameDecode × Nat)) : (setNodeNameLoop nameRes protos labels order).isSome := by
  induction order with
  | nil => rfl
  | cons x rest ih =>
      obtain ⟨iter, j⟩ := x
      rw [setNodeNameLoop]
      split
      · exact ih
      next protocol _ =>
        split
        · exact ih
        next name names hnames =>
          split
          · have htext := h j protocol.name name (hnames ▸ List.mem_cons_self)
            rw [Option.isSome_map]
            exact htext
          · exact ih

theorem update_isSome
    (h : ∀ level protocol, ∀ name ∈ labels.nodeNames level protocol, name.numericName.isSome) :
    (labels.update now pref mode nameRes node).isSome := by
  unfold update
  dsimp only
  split
  · apply setNodeNameLoop_isSome
    intro level protocol name hname
    dsimp only [sortNames, keepNames] at hname
    rw [(List.perm_insertionSort _ _).mem_iff] at hname
    split at hname
    · exact h level protocol name hname
    · exact absurd hname List.not_mem_nil
  · rfl

end Update

end NodeLabels

theorem NodeName.numericName_recordOf {k : NodeId} {es : List Registration}
    (h : grouping.entriesOf nodeIdCompare k es ≠ []) :
    (grouping.recordOf nodeIdCompare k es).numericName.isSome := by
  obtain ⟨e, hlast⟩ := Option.isSome_iff_exists.mp (List.getLast?_isSome.mpr h)
  obtain ⟨before, hsplit⟩ := List.getLast?_eq_some_iff.mp hlast
  rw [Grouping.recordOf, hsplit, List.foldl_append]
  rfl

end EtherApe
