import EtherApe.Node
import Mathlib.Data.List.Count
import Mathlib.Order.Basic

/-!
# The limit on shown nodes

The model of `limit_nodes` in `diagram.c`. The canvas nodes are put into a temporary tree and traversed,
and the first of them are shown. The comparison of that tree takes a canvas node for a node of the
catalog, so what it compares first is the memory behind the canvas node where a node would have its
average. What is read there is a parameter; its values are linearly ordered, so a NaN is left out, with
which the comparison would be no order.
-/

namespace EtherApe

/-- The flag of a canvas node; its id is the key under which it is stored. -/
structure DrawnNode where
  shown : Bool
deriving DecidableEq

/-- The canvas nodes and the globals that `limit_nodes` sets. -/
structure Drawn where
  canvasNodes : SortedTree nodeIdCompare DrawnNode
  displayedNodes : Nat
  needReposition : Bool

section Limit

variable {α : Type*} [LinearOrder α]

/-- `traffic_compare`; `behind` is what is read behind a canvas node. -/
def trafficCompare (behind : NodeId → α) (a b : NodeId) : Int :=
  if behind a < behind b then 1
  else if behind b < behind a then -1
  else nodeIdCompare a b

instance (behind : NodeId → α) : ThreeWay (trafficCompare behind) where
  swap a b := by
    unfold trafficCompare
    rcases lt_trichotomy (behind a) (behind b) with hlt | heq | hgt
    · rw [if_neg (lt_asymm hlt), if_pos hlt, if_pos hlt]
    · rw [heq, if_neg (lt_irrefl _), if_neg (lt_irrefl _), if_neg (lt_irrefl _), if_neg (lt_irrefl _)]
      exact ThreeWay.swap a b
    · rw [if_pos hgt, if_neg (lt_asymm hgt), if_pos hgt]
      rfl
  trans a b c := by
    unfold trafficCompare
    intro hab hbc
    have hba : behind b ≤ behind a := by
      by_contra hlt
      rw [if_pos (not_le.mp hlt)] at hab
      omega
    have hcb : behind c ≤ behind b := by
      by_contra hlt
      rw [if_pos (not_le.mp hlt)] at hbc
      omega
    rw [if_neg (not_lt.mpr (hcb.trans hba))]
    by_cases hlt : behind c < behind a
    · rw [if_pos hlt]
      decide
    · have hsame : behind a = behind c := le_antisymm (not_lt.mp hlt) (hcb.trans hba)
      have hmiddle : behind b = behind c := le_antisymm (hba.trans hsame.le) hcb
      rw [hsame, hmiddle, if_neg (lt_irrefl _), if_neg (lt_irrefl _)] at hab
      rw [hmiddle, if_neg (lt_irrefl _), if_neg (lt_irrefl _)] at hbc
      rw [if_neg hlt]
      exact ThreeWay.trans a b c hab hbc

def addOrderedNode (behind : NodeId → α) (orderedNodes : SortedTree (trafficCompare behind) NodeId)
    (node : NodeId) : SortedTree (trafficCompare behind) NodeId := orderedNodes.insert node node

/-- The canvas nodes in the temporary tree. -/
def orderedNodes (behind : NodeId → α) (canvasNodes : SortedTree nodeIdCompare DrawnNode) :
    SortedTree (trafficCompare behind) NodeId :=
  (canvasNodes.entries.map Prod.fst).foldl (addOrderedNode behind) SortedTree.empty

/-- Sets the flag of a canvas node, and asks for a new layout if it was different. -/
def Drawn.setShown (s : Drawn) (node : NodeId) (shown : Bool) : Drawn :=
  { s with
    canvasNodes := s.canvasNodes.modify node fun _ => ⟨shown⟩
    needReposition := s.needReposition || s.canvasNodes.lookup node == some ⟨!shown⟩ }

def checkOrderedNode (s : Drawn × Nat) (node : NodeId) : Drawn × Nat :=
  if s.2 ≠ 0 then
    ({ s.1.setShown node true with displayedNodes := s.1.displayedNodes + 1 }, s.2 - 1)
  else (s.1.setShown node false, s.2)

def limitNodes (behind : NodeId → α) (nodeLimit : Int) (s : Drawn) : Drawn :=
  if nodeLimit < 0 then { s with displayedNodes := s.canvasNodes.entries.length }
  else
    ((orderedNodes behind s.canvasNodes).values.foldl checkOrderedNode
      ({ s with displayedNodes := 0 }, nodeLimit.toNat)).1

/-! ### The order of the traversal -/

/-- How many of the nodes come before one in the temporary tree. -/
def trafficRank (behind : NodeId → α) (nodes : List NodeId) (node : NodeId) : Nat :=
  nodes.countP fun other => trafficCompare behind other node < 0

/-- The nodes that an ascending list starts with are those with few nodes before them. -/
theorem mem_take_iff_rank {behind : NodeId → α} {os : List NodeId}
    (h : os.Pairwise fun a b => trafficCompare behind a b < 0) {node : NodeId} (hnode : node ∈ os)
    (n : Nat) : node ∈ os.take n ↔ trafficRank behind os node < n := by
  unfold trafficRank
  induction os generalizing n with
  | nil => exact absurd hnode List.not_mem_nil
  | cons o os ih =>
      obtain ⟨hhead, htail⟩ := List.pairwise_cons.mp h
      cases n with
      | zero => exact iff_of_false List.not_mem_nil (Nat.not_lt_zero _)
      | succ n =>
          rw [List.take_succ_cons, List.mem_cons]
          rcases List.mem_cons.mp hnode with rfl | hmem
          · refine iff_of_true (Or.inl rfl) ?_
            have hself : trafficCompare behind node node = 0 := ThreeWay.refl node
            have hnone : os.countP (fun other => trafficCompare behind other node < 0) = 0 := by
              rw [List.countP_eq_zero]
              intro other hother
              have hpos := ThreeWay.pos_of_lt (hhead other hother)
              simpa using hpos.le
            rw [List.countP_cons_of_neg (by simp [hself]), hnone]
            exact Nat.succ_pos n
          · have hlt := hhead node hmem
            have hne : node ≠ o := by
              intro heq
              have hself : trafficCompare behind o o = 0 := ThreeWay.refl o
              rw [heq, hself] at hlt
              exact absurd hlt (lt_irrefl 0)
            rw [List.countP_cons_of_pos (by simpa using hlt), Nat.succ_lt_succ_iff, ← ih htail hmem n]
            exact or_iff_right hne

theorem trafficRank_perm (behind : NodeId → α) {os nodes : List NodeId} (h : os.Perm nodes)
    (node : NodeId) : trafficRank behind os node = trafficRank behind nodes node := h.countP_eq _

theorem trafficCompare_ne_zero {behind : NodeId → α} {a b : NodeId} (h : nodeIdCompare a b ≠ 0) :
    trafficCompare behind a b ≠ 0 := by
  unfold trafficCompare
  split
  · exact one_ne_zero
  · split
    · decide
    · exact h

section Ordered

variable (behind : NodeId → α) (canvasNodes : SortedTree nodeIdCompare DrawnNode)

theorem keys_pairwise :
    (canvasNodes.entries.map Prod.fst).Pairwise fun a b => nodeIdCompare a b ≠ 0 := by
  rw [List.pairwise_map]
  exact canvasNodes.sorted.imp fun hlt => ne_of_lt hlt

theorem orderedNodes_entries :
    (orderedNodes behind canvasNodes).entries.Perm
      ((canvasNodes.entries.map Prod.fst).map fun node => (node, node)) := by
  have hkeys : (canvasNodes.entries.map Prod.fst).Pairwise fun a b => trafficCompare behind a b ≠ 0 :=
    (keys_pairwise canvasNodes).imp trafficCompare_ne_zero
  have hperm := SortedTree.foldl_insert_perm (fun node => node) (t := SortedTree.empty) hkeys
    fun node _ => SortedTree.lookup_empty node
  rw [SortedTree.empty_entries, List.append_nil] at hperm
  exact hperm

theorem orderedNodes_values :
    (orderedNodes behind canvasNodes).values.Perm (canvasNodes.entries.map Prod.fst) := by
  have hperm := (orderedNodes_entries behind canvasNodes).map Prod.snd
  rw [List.map_map] at hperm
  exact hperm.trans (List.Perm.of_eq (List.map_id' _))

theorem orderedNodes_sorted :
    (orderedNodes behind canvasNodes).values.Pairwise fun a b => trafficCompare behind a b < 0 := by
  rw [SortedTree.values, List.pairwise_map]
  refine (orderedNodes behind canvasNodes).sorted.imp_of_mem fun {a b} ha hb hlt => ?_
  have hsame : ∀ e ∈ (orderedNodes behind canvasNodes).entries, e.1 = e.2 := by
    intro e he
    obtain ⟨node, _, rfl⟩ := List.mem_map.mp ((orderedNodes_entries behind canvasNodes).mem_iff.mp he)
    rfl
  rwa [hsame a ha, hsame b hb] at hlt

end Ordered

/-! ### What the traversal sets -/

theorem setShown_lookup (s : Drawn) (node other : NodeId) (shown : Bool) :
    (s.setShown node shown).canvasNodes.lookup other =
      if nodeIdCompare node other = 0 then (s.canvasNodes.lookup other).map fun _ => ⟨shown⟩
      else s.canvasNodes.lookup other := SortedTree.lookup_modify _ _ _ _

/-- The traversal shows the first `n` of the nodes and hides the others, and leaves what it does not
visit. -/
structure Checked (os : List NodeId) (n : Nat) (s s' : Drawn) : Prop where
  keys : s'.canvasNodes.entries.map Prod.fst = s.canvasNodes.entries.map Prod.fst
  displayed : s'.displayedNodes = s.displayedNodes + min n os.length
  visited : ∀ o ∈ os, s'.canvasNodes.lookup o =
    (s.canvasNodes.lookup o).map fun _ => ⟨decide (o ∈ os.take n)⟩
  unvisited : ∀ o, (∀ o' ∈ os, nodeIdCompare o' o ≠ 0) →
    s'.canvasNodes.lookup o = s.canvasNodes.lookup o
  kept : s.needReposition = true → s'.needReposition = true
  reposition : ∀ o ∈ os, s'.canvasNodes.lookup o ≠ s.canvasNodes.lookup o → s'.needReposition = true

theorem Checked.cons {o : NodeId} {os : List NodeId} {n n' : Nat} {s s₁ s' : Drawn} {shown : Bool}
    (h : Checked os n' s₁ s') (hother : ∀ o' ∈ os, nodeIdCompare o o' ≠ 0)
    (hnodes : s₁.canvasNodes = (s.setShown o shown).canvasNodes)
    (hneed : s₁.needReposition = (s.setShown o shown).needReposition)
    (hdisplayed : s₁.displayedNodes + min n' os.length = s.displayedNodes + min n (o :: os).length)
    (hfirst : decide (o ∈ (o :: os).take n) = shown)
    (hrest : ∀ o' ∈ os, o' ∈ (o :: os).take n ↔ o' ∈ os.take n') : Checked (o :: os) n s s' := by
  have hsame : ∀ o' ∈ os, s₁.canvasNodes.lookup o' = s.canvasNodes.lookup o' := by
    intro o' ho'
    rw [hnodes, setShown_lookup, if_neg (hother o' ho')]
  have hself : s'.canvasNodes.lookup o = (s.canvasNodes.lookup o).map fun _ => ⟨shown⟩ := by
    rw [h.unvisited o fun o' ho' hzero => hother o' ho' (ThreeWay.eq_symm hzero), hnodes,
      setShown_lookup, if_pos (ThreeWay.refl o)]
  have hkept : s.needReposition = true → s₁.needReposition = true := by
    intro hs
    rw [hneed, Drawn.setShown, hs, Bool.true_or]
  refine ⟨?_, ?_, ?_, ?_, fun hs => h.kept (hkept hs), ?_⟩
  · rw [h.keys, hnodes]
    exact SortedTree.modify_keys _ _ _
  · rw [h.displayed, hdisplayed]
  · intro o' ho'
    rcases List.mem_cons.mp ho' with rfl | ho'
    · rw [hself, hfirst]
    · rw [h.visited o' ho', hsame o' ho']
      simp only [hrest o' ho']
  · intro o' ho'
    rw [List.forall_mem_cons] at ho'
    rw [h.unvisited o' ho'.2, hnodes, setShown_lookup, if_neg ho'.1]
  · intro o' ho' hchanged
    rcases List.mem_cons.mp ho' with rfl | ho'
    · -- The flag of the first node was different, so its own step asks for a new layout.
      refine h.kept ?_
      rw [hself] at hchanged
      cases hlookup : s.canvasNodes.lookup o' with
      | none =>
          rw [hlookup] at hchanged
          exact absurd rfl hchanged
      | some drawn =>
          rw [hlookup] at hchanged
          have hflag : drawn = ⟨!shown⟩ := by
            cases drawn with
            | mk old => cases old <;> cases shown <;> simp_all
          rw [hneed, Drawn.setShown, hlookup, hflag]
          simp
    · refine h.reposition o' ho' ?_
      rwa [hsame o' ho']

theorem foldl_checkOrderedNode {os : List NodeId} (h : os.Pairwise fun a b => nodeIdCompare a b ≠ 0)
    (n : Nat) (s : Drawn) : Checked os n s (os.foldl checkOrderedNode (s, n)).1 := by
  induction os generalizing n s with
  | nil =>
      refine ⟨rfl, ?_, fun o ho => absurd ho List.not_mem_nil, fun _ _ => rfl, id,
        fun o ho => absurd ho List.not_mem_nil⟩
      rw [List.length_nil, Nat.min_zero]
      rfl
  | cons o os ih =>
      obtain ⟨hother, hos⟩ := List.pairwise_cons.mp h
      have hdiffers : ∀ o' ∈ os, o' ≠ o := by
        intro o' ho' heq
        have hne := hother o' ho'
        rw [heq] at hne
        exact hne (ThreeWay.refl o)
      rw [List.foldl_cons]
      cases n with
      | zero =>
          have hstep : checkOrderedNode (s, 0) o = (s.setShown o false, 0) := rfl
          rw [hstep]
          refine (ih hos 0 (s.setShown o false)).cons hother rfl rfl ?_ rfl fun o' ho' => Iff.rfl
          rw [Nat.zero_min, Nat.zero_min]
          rfl
      | succ n =>
          have hstep : checkOrderedNode (s, n + 1) o =
              ({ s.setShown o true with displayedNodes := s.displayedNodes + 1 }, n) := rfl
          rw [hstep]
          have hrun := ih hos n { s.setShown o true with displayedNodes := s.displayedNodes + 1 }
          refine hrun.cons hother rfl rfl ?_ ?_ fun o' ho' => ?_
          · rw [List.length_cons]
            simp only
            omega
          · rw [List.take_succ_cons]
            exact decide_eq_true List.mem_cons_self
          · rw [List.take_succ_cons, List.mem_cons]
            exact or_iff_right (hdiffers o' ho')

/-! ### The busiest nodes -/

/-- The node of the catalog behind the first canvas node has a larger average than that behind the
second. -/
def Busier (allNodes : NodesCatalog) (c d : NodeId) : Prop :=
  ∃ nodeC nodeD, allNodes.lookup c = some nodeC ∧ allNodes.lookup d = some nodeD ∧
    nodeD.nodeStats.stats.average < nodeC.nodeStats.stats.average

/-- A limit of `n` nodes is kept, and the nodes shown are the busiest. -/
structure ShowsBusiest (allNodes : NodesCatalog) (n : Nat) (s s' : Drawn) : Prop where
  keys : s'.canvasNodes.entries.map Prod.fst = s.canvasNodes.entries.map Prod.fst
  shown : s'.canvasNodes.entries.countP (fun e => e.2.shown) = min n s.canvasNodes.entries.length
  displayed : s'.displayedNodes = min n s.canvasNodes.entries.length
  reposition : ∀ node, s'.canvasNodes.lookup node ≠ s.canvasNodes.lookup node →
    s'.needReposition = true
  busiest : ∀ c d, s'.canvasNodes.lookup c = some ⟨false⟩ → s'.canvasNodes.lookup d = some ⟨true⟩ →
    ¬Busier allNodes c d

/-- Of the nodes that have fewer than `n` before them in the order of what lies behind the canvas nodes,
and then of their ids, none is less busy than one of the others. -/
def AgreesBehind (behind : NodeId → α) (allNodes : NodesCatalog) (n : Nat) (nodes : List NodeId) :
    Prop :=
  ∀ c ∈ nodes, ∀ d ∈ nodes, n ≤ trafficRank behind nodes c → trafficRank behind nodes d < n →
    ¬Busier allNodes c d

section Busiest

variable (behind : NodeId → α) (allNodes : NodesCatalog) (n : Nat) (s : Drawn)

theorem limitNodes_checked :
    Checked (orderedNodes behind s.canvasNodes).values n { s with displayedNodes := 0 }
      (limitNodes behind n s) := by
  have hpairwise : (orderedNodes behind s.canvasNodes).values.Pairwise
      fun a b => nodeIdCompare a b ≠ 0 :=
    ((orderedNodes_values behind s.canvasNodes).pairwise_iff
      fun hab hba => hab (ThreeWay.eq_symm hba)).mpr (keys_pairwise s.canvasNodes)
  rw [limitNodes, if_neg (by omega), Int.toNat_natCast]
  exact foldl_checkOrderedNode hpairwise n _

/-- A canvas node is shown when it has fewer than `n` before it. -/
theorem limitNodes_lookup {node : NodeId} (h : node ∈ s.canvasNodes.entries.map Prod.fst) :
    (limitNodes behind n s).canvasNodes.lookup node =
      some ⟨decide (trafficRank behind (s.canvasNodes.entries.map Prod.fst) node < n)⟩ := by
  have hperm := orderedNodes_values behind s.canvasNodes
  have hvisited := hperm.mem_iff.mpr h
  obtain ⟨e, he, rfl⟩ := List.mem_map.mp h
  have hfound : s.canvasNodes.lookup e.1 = some e.2 :=
    SortedTree.lookup_eq_some_iff.mpr ⟨e.1, he, ThreeWay.refl _⟩
  rw [(limitNodes_checked behind n s).visited e.1 hvisited, hfound, Option.map_some]
  have hrank := mem_take_iff_rank (orderedNodes_sorted behind s.canvasNodes) hvisited n
  rw [trafficRank_perm behind hperm] at hrank
  simp only [hrank]

theorem limitNodes_keys : (limitNodes behind n s).canvasNodes.entries.map Prod.fst =
    s.canvasNodes.entries.map Prod.fst := (limitNodes_checked behind n s).keys

theorem lookup_of_mem {s : Drawn} {e : NodeId × DrawnNode} (he : e ∈ s.canvasNodes.entries) :
    s.canvasNodes.lookup e.1 = some e.2 :=
  SortedTree.lookup_eq_some_iff.mpr ⟨e.1, he, ThreeWay.refl _⟩

theorem limitNodes_shown :
    (limitNodes behind n s).canvasNodes.entries.countP (fun e => e.2.shown) =
      min n s.canvasNodes.entries.length := by
  have hperm := orderedNodes_values behind s.canvasNodes
  have hsorted := orderedNodes_sorted behind s.canvasNodes
  set os := (orderedNodes behind s.canvasNodes).values with hos
  set nodes := s.canvasNodes.entries.map Prod.fst with hnodes
  have hranked : (limitNodes behind n s).canvasNodes.entries.countP (fun e => e.2.shown) =
      nodes.countP fun node => trafficRank behind nodes node < n := by
    rw [hnodes, ← limitNodes_keys behind n s, List.countP_map]
    apply List.countP_congr
    intro e he
    have hkey : e.1 ∈ s.canvasNodes.entries.map Prod.fst := by
      rw [← limitNodes_keys behind n s]
      exact List.mem_map_of_mem he
    have hfound := (lookup_of_mem he).symm.trans (limitNodes_lookup behind n s hkey)
    rw [Option.some.inj hfound, Function.comp_apply, limitNodes_keys]
  have htaken : os.countP (fun node => trafficRank behind nodes node < n) =
      os.countP fun node => decide (node ∈ os.take n) := by
    apply List.countP_congr
    intro node hnode
    rw [← trafficRank_perm behind hperm, decide_eq_true_iff, decide_eq_true_iff]
    exact (mem_take_iff_rank hsorted hnode n).symm
  have hdistinct : os.Nodup := by
    apply hsorted.imp
    intro a b hlt heq
    have hself : trafficCompare behind b b = 0 := ThreeWay.refl b
    rw [heq, hself] at hlt
    exact lt_irrefl 0 hlt
  have hfirst : (os.take n).countP (fun node => decide (node ∈ os.take n)) = (os.take n).length :=
    List.countP_eq_length.mpr fun node hnode => decide_eq_true hnode
  have hlast : (os.drop n).countP (fun node => decide (node ∈ os.take n)) = 0 := by
    rw [List.countP_eq_zero]
    intro node hnode hmem
    exact List.disjoint_take_drop hdistinct le_rfl (of_decide_eq_true hmem) hnode
  have hlength : os.length = s.canvasNodes.entries.length := by
    rw [hperm.length_eq, hnodes, List.length_map]
  rw [hranked, ← hperm.countP_eq, htaken]
  conv_lhs => rw [← List.take_append_drop n os]
  rw [List.countP_append]
  simp only [List.take_append_drop]
  rw [hfirst, hlast, Nat.add_zero, List.length_take, hlength]

theorem limitNodes_reposition {node : NodeId}
    (h : (limitNodes behind n s).canvasNodes.lookup node ≠ s.canvasNodes.lookup node) :
    (limitNodes behind n s).needReposition = true := by
  have hchecked := limitNodes_checked behind n s
  by_cases hmem : ∀ o ∈ (orderedNodes behind s.canvasNodes).values, nodeIdCompare o node ≠ 0
  · exact absurd (hchecked.unvisited node hmem) h
  · push Not at hmem
    obtain ⟨o, ho, hsame⟩ := hmem
    refine hchecked.reposition o ho ?_
    rwa [SortedTree.lookup_congr hsame, SortedTree.lookup_congr hsame]

end Busiest

theorem lookup_limitNodes_iff (behind : NodeId → α) (n : Nat) (s : Drawn) {node : NodeId} {shown : Bool}
    (h : node ∈ s.canvasNodes.entries.map Prod.fst) :
    (limitNodes behind n s).canvasNodes.lookup node = some ⟨shown⟩ ↔
      decide (trafficRank behind (s.canvasNodes.entries.map Prod.fst) node < n) = shown := by
  rw [limitNodes_lookup behind n s h, Option.some.injEq, DrawnNode.mk.injEq]

theorem exists_key_of_lookup (behind : NodeId → α) (n : Nat) (s : Drawn) {node : NodeId} {shown : Bool}
    (h : (limitNodes behind n s).canvasNodes.lookup node = some ⟨shown⟩) :
    ∃ key ∈ s.canvasNodes.entries.map Prod.fst, nodeIdCompare node key = 0 ∧
      decide (trafficRank behind (s.canvasNodes.entries.map Prod.fst) key < n) = shown := by
  obtain ⟨key, hmem, hsame⟩ := SortedTree.exists_mem_of_lookup h
  have hkey : key ∈ s.canvasNodes.entries.map Prod.fst := by
    rw [← limitNodes_keys behind n s]
    exact List.mem_map_of_mem hmem
  refine ⟨key, hkey, hsame, ?_⟩
  rw [← lookup_limitNodes_iff behind n s hkey, ← SortedTree.lookup_congr hsame]
  exact h

/-- The limit is always kept, but the nodes shown are the busiest if and only if what lies behind the
canvas nodes agrees with the averages. -/
theorem limitNodes_showsBusiest_iff (behind : NodeId → α) (allNodes : NodesCatalog) (n : Nat)
    (s : Drawn) :
    ShowsBusiest allNodes n s (limitNodes behind n s) ↔
      AgreesBehind behind allNodes n (s.canvasNodes.entries.map Prod.fst) := by
  have hkept := limitNodes_checked behind n s
  constructor
  · intro h c hc d hd hrankc hrankd
    refine h.busiest c d ?_ ?_
    · rw [lookup_limitNodes_iff behind n s hc]
      exact decide_eq_false (not_lt.mpr hrankc)
    · rw [lookup_limitNodes_iff behind n s hd]
      exact decide_eq_true hrankd
  · intro h
    refine ⟨limitNodes_keys behind n s, limitNodes_shown behind n s, ?_,
      fun node hnode => limitNodes_reposition behind n s hnode, ?_⟩
    · rw [hkept.displayed, (orderedNodes_values behind s.canvasNodes).length_eq, List.length_map]
      exact Nat.zero_add _
    · intro c d hc hd hbusier
      obtain ⟨c', hc', hsamec, hrankc⟩ := exists_key_of_lookup behind n s hc
      obtain ⟨d', hd', hsamed, hrankd⟩ := exists_key_of_lookup behind n s hd
      refine h c' hc' d' hd' (not_lt.mp (of_decide_eq_false hrankc)) (of_decide_eq_true hrankd) ?_
      obtain ⟨nodeC, nodeD, hnodeC, hnodeD, hlt⟩ := hbusier
      refine ⟨nodeC, nodeD, ?_, ?_, hlt⟩
      · rwa [← SortedTree.lookup_congr hsamec]
      · rwa [← SortedTree.lookup_congr hsamed]

end Limit

/-- The id of a host with a MAC of zeros but for its last byte. -/
def hostId (last : UInt8) : NodeId := ⟨.link6, NodeAddr.setEth Octets.zero fun i => if i = 5 then last else 0⟩

/-- A node that has had the given average. -/
def hostNode (last : UInt8) (average : ℚ) : Node :=
  { Node.create ⟨0, 0⟩ last.toNat (hostId last) with
    nodeStats := { TrafficStats.init ⟨0, 0⟩ with stats := { BasicStats.reset ⟨0, 0⟩ with average := average } } }

/-- Two hosts, the second of which is busier. -/
def twoHosts : NodesCatalog :=
  (SortedTree.empty.insert (hostId 1) (hostNode 1 1)).insert (hostId 2) (hostNode 2 2)

def twoCanvasNodes : Drawn :=
  { canvasNodes := (SortedTree.empty.insert (hostId 1) ⟨true⟩).insert (hostId 2) ⟨true⟩
    displayedNodes := 2
    needReposition := false }

/-- With zeros behind both canvas nodes the id decides, and the less busy host is shown. -/
theorem not_all_limits_show_busiest :
    ¬∀ (behind : NodeId → ℚ) (allNodes : NodesCatalog) (n : Nat) (s : Drawn),
      (∀ e ∈ s.canvasNodes.entries, (allNodes.lookup e.1).isSome) →
        ShowsBusiest allNodes n s (limitNodes behind n s) := by
  intro h
  have hbusiest := (h (fun _ => 0) twoHosts 1 twoCanvasNodes (by decide +kernel)).busiest
  refine hbusiest (hostId 2) (hostId 1) (by decide +kernel) (by decide +kernel) ?_
  exact ⟨hostNode 2 2, hostNode 1 1, by rfl, by rfl, by decide +kernel⟩

end EtherApe
