import EtherApe.Lib.ListStore
import EtherApe.UiUtils

/-!
# The table of nodes

The model of `nodes_table_update` in `node_windows.c`. The catalog of nodes is traversed in its order
while an iterator goes through the rows of the store, which is not sorted. A row holds the id of its
node and the texts of its columns; insertions and removals are counted. How the texts are made of a node is
a parameter of the table, since nothing in it looks at them.
-/

namespace EtherApe

open Printf

inductive NodesColumn
  | name
  | numeric
  | instantaneous
  | accumulated
  | avgsize
  | lastheard
  | packets
deriving DecidableEq, Repr

/-- A row of the store; a text that is not set is NULL. -/
structure NodeRow where
  nodeId : NodeId
  texts : NodesColumn → Option (List UInt8)

/-- What a row is given from its node. -/
abbrev NodeTexts := Export.Node → NodesColumn → Option (List UInt8)

/-- The texts of `nodes_table_update_row`, with the exact averages of the node rounded to doubles. -/
def nodeTexts (clock : Clock) : NodeTexts := fun node column =>
  match column with
  | .name => some node.name.bytes
  | .numeric => some node.numericName.bytes
  | .instantaneous => some (trafficToStr (binary64 node.nodeStats.stats.average) true)
  | .accumulated => some (trafficToStr node.nodeStats.stats.accumulated false)
  | .avgsize => some (trafficToStr (binary64 node.nodeStats.stats.avgSize) false)
  | .packets => some (decimal node.nodeStats.stats.accuPackets)
  | .lastheard => timevalToStr clock node.nodeStats.stats.lastTime

def nodesTableUpdateRow (texts : NodeTexts) (row : NodeRow) (node : Export.Node) : NodeRow :=
  { row with texts := texts node }

def NodeRow.create (node : Export.Node) : NodeRow := ⟨node.nodeId, fun _ => none⟩

/-- `struct NTTraverse`, with the numbers of rows inserted and removed so far. -/
structure NTTraverse where
  gs : RowCursor NodeRow
  inserted : Nat
  removed : Nat

/-- One node of the catalog; `none` when the loop does not end, as for a comparison that returns anything
but `-1`, `0` and `1`. -/
def nodesTableIterate (texts : NodeTexts) (node : Export.Node) (tt : NTTraverse) : Option NTTraverse :=
  match _h : tt.gs.current with
  | none =>
      let row := nodesTableUpdateRow texts (NodeRow.create node) node
      some { tt with gs := tt.gs.prepend row, inserted := tt.inserted + 1 }
  | some row =>
      let order := nodeIdCompare node.nodeId row.nodeId
      if order = 0 then
        some { tt with gs := (tt.gs.set (nodesTableUpdateRow texts row node)).next }
      else if order = -1 then
        let row := nodesTableUpdateRow texts (NodeRow.create node) node
        some { tt with gs := (tt.gs.insertBefore row).next, inserted := tt.inserted + 1 }
      else if order = 1 then
        nodesTableIterate texts node { tt with gs := tt.gs.remove, removed := tt.removed + 1 }
      else none
termination_by tt.gs.ahead.length
decreasing_by exact RowCursor.length_remove _h

/-- The loop that removes the rows from the iterator on. -/
def NTTraverse.removeRest (tt : NTTraverse) : NTTraverse :=
  { gs := ⟨tt.gs.passed, []⟩, inserted := tt.inserted, removed := tt.removed + tt.gs.ahead.length }

def nodesTableUpdate (texts : NodeTexts) (allNodes : Export.NodesCatalog) (rows : List NodeRow) :
    Option NTTraverse :=
  (allNodes.values.foldlM (fun tt node => nodesTableIterate texts node tt)
    ⟨RowCursor.first rows, 0, 0⟩).map NTTraverse.removeRest

/-! ### The rows after an update -/

/-- A row stands for a node, and has been refreshed from it. -/
def RefreshedFrom (texts : NodeTexts) (row : NodeRow) (node : Export.Node) : Prop :=
  nodeIdCompare node.nodeId row.nodeId = 0 ∧ row.texts = texts node

/-- The rows stand for the nodes, one for each in some order. -/
def RowsFor (texts : NodeTexts) (rows : List NodeRow) (nodes : List Export.Node) : Prop :=
  ∃ rows', rows.Perm rows' ∧ List.Forall₂ (RefreshedFrom texts) rows' nodes

section Iterate

variable (texts : NodeTexts) (node : Export.Node)

theorem refreshedFrom_create :
    RefreshedFrom texts (nodesTableUpdateRow texts (NodeRow.create node) node) node :=
  ⟨ThreeWay.refl _, rfl⟩

theorem nodesTableIterate_passed (tt : NTTraverse) :
    ∃ tt' row, nodesTableIterate texts node tt = some tt' ∧ RefreshedFrom texts row node ∧
      tt'.gs.passed.Perm (tt.gs.passed ++ [row]) := by
  fun_induction nodesTableIterate texts node tt with
  | case1 tt hend =>
      exact ⟨_, _, rfl, refreshedFrom_create texts node, (List.perm_append_singleton _ _).symm⟩
  | case2 tt row hrow order hsame =>
      exact ⟨_, nodesTableUpdateRow texts row node, rfl, ⟨hsame, rfl⟩, List.Perm.refl _⟩
  | case3 tt row hrow order hother hless =>
      exact ⟨_, _, rfl, refreshedFrom_create texts node, List.Perm.refl _⟩
  | case4 tt row hrow order hother hnotless hgreater ih => exact ih
  | case5 tt row hrow order hother hnotless hnotgreater =>
      rcases nodeIdCompare_values node.nodeId row.nodeId with h | h | h
      · exact absurd h hnotless
      · exact absurd h hother
      · exact absurd h hnotgreater

theorem nodesTableIterate_of_eq {tt : NTTraverse} {row : NodeRow} (h : tt.gs.current = some row)
    (heq : nodeIdCompare node.nodeId row.nodeId = 0) :
    nodesTableIterate texts node tt =
      some { tt with gs := (tt.gs.set (nodesTableUpdateRow texts row node)).next } := by
  unfold nodesTableIterate
  split
  next hnone => exact absurd (h.symm.trans hnone) (Option.some_ne_none row)
  next row' hrow =>
    obtain rfl := Option.some.inj (h.symm.trans hrow)
    exact if_pos heq

end Iterate

section Update

variable (texts : NodeTexts)

theorem rowsFor_snoc {passed passed' : List NodeRow} {row : NodeRow} {nodes : List Export.Node}
    {node : Export.Node} (h : RowsFor texts passed nodes) (hrow : RefreshedFrom texts row node)
    (hperm : passed'.Perm (passed ++ [row])) : RowsFor texts passed' (nodes ++ [node]) := by
  obtain ⟨rows, hrows, hall⟩ := h
  refine ⟨rows ++ [row], hperm.trans (hrows.append_right [row]), ?_⟩
  exact List.rel_append hall (List.Forall₂.cons hrow List.Forall₂.nil)

/-- The traversal passes one row for each node. -/
theorem foldlM_iterate (nodes : List Export.Node) (tt : NTTraverse) (before : List Export.Node)
    (h : RowsFor texts tt.gs.passed before) :
    ∃ tt', nodes.foldlM (fun tt node => nodesTableIterate texts node tt) tt = some tt' ∧
      RowsFor texts tt'.gs.passed (before ++ nodes) := by
  induction nodes generalizing tt before with
  | nil => exact ⟨tt, rfl, by rwa [List.append_nil]⟩
  | cons node nodes ih =>
      obtain ⟨tt', row, hstep, hrow, hperm⟩ := nodesTableIterate_passed texts node tt
      obtain ⟨tt'', hrun, hfor⟩ := ih tt' (before ++ [node]) (rowsFor_snoc texts h hrow hperm)
      refine ⟨tt'', ?_, ?_⟩
      · rw [List.foldlM_cons, hstep]
        exact hrun
      · rwa [List.append_assoc, List.singleton_append] at hfor

/-- Where the rows are those of the nodes already, the traversal only refreshes them. -/
theorem foldlM_iterate_same {nodes : List Export.Node} {tt : NTTraverse}
    (h : List.Forall₂ (fun row node => nodeIdCompare node.nodeId row.nodeId = 0) tt.gs.ahead nodes) :
    ∃ tt', nodes.foldlM (fun tt node => nodesTableIterate texts node tt) tt = some tt' ∧
      tt'.gs.ahead = [] ∧ tt'.inserted = tt.inserted ∧ tt'.removed = tt.removed := by
  induction nodes generalizing tt with
  | nil => exact ⟨tt, rfl, List.forall₂_nil_right_iff.mp h, rfl, rfl⟩
  | cons node nodes ih =>
      obtain ⟨row, ahead, heq, hrest, hahead⟩ := List.forall₂_cons_right_iff.mp h
      have hcurrent : tt.gs.current = some row := by
        rw [RowCursor.current, hahead]
        rfl
      have hstep := nodesTableIterate_of_eq texts node hcurrent heq
      have hnext : ((tt.gs.set (nodesTableUpdateRow texts row node)).next).ahead = ahead := by
        rw [RowCursor.set_next, hahead]
        rfl
      have hrows : List.Forall₂ (fun row node => nodeIdCompare node.nodeId row.nodeId = 0)
          ((tt.gs.set (nodesTableUpdateRow texts row node)).next).ahead nodes := by
        rw [hnext]
        exact hrest
      obtain ⟨tt', hrun, hend, hinserted, hremoved⟩ :=
        @ih { tt with gs := (tt.gs.set (nodesTableUpdateRow texts row node)).next } hrows
      refine ⟨tt', ?_, hend, hinserted, hremoved⟩
      rw [List.foldlM_cons, hstep]
      exact hrun

end Update

/-- After an update the table has one refreshed row for every node of the catalog and no other, whatever
rows it had and whatever texts a node gives its row; and if these were the rows of the nodes in their order,
none is inserted or removed. -/
theorem nodesTableUpdate_synchronises (texts : NodeTexts) (allNodes : Export.NodesCatalog)
    (rows : List NodeRow) :
    ∃ tt, nodesTableUpdate texts allNodes rows = some tt ∧
      RowsFor texts tt.gs.rows allNodes.values ∧
      (List.Forall₂ (fun row node => nodeIdCompare node.nodeId row.nodeId = 0) rows allNodes.values →
        tt.inserted = 0 ∧ tt.removed = 0) := by
  obtain ⟨tt, hrun, hfor⟩ := foldlM_iterate texts allNodes.values ⟨RowCursor.first rows, 0, 0⟩ []
    ⟨[], List.Perm.refl _, List.Forall₂.nil⟩
  refine ⟨tt.removeRest, ?_, ?_, fun hsame => ?_⟩
  · rw [nodesTableUpdate, hrun]
    rfl
  · rw [NTTraverse.removeRest, RowCursor.rows, List.append_nil]
    exact hfor
  · obtain ⟨tt', hrun', hend, hinserted, hremoved⟩ :=
      @foldlM_iterate_same texts allNodes.values ⟨RowCursor.first rows, 0, 0⟩ hsame
    obtain rfl : tt' = tt := Option.some.inj (hrun'.symm.trans hrun)
    refine ⟨hinserted, ?_⟩
    rw [NTTraverse.removeRest, hend, hremoved]
    rfl

/-- A node that has just been heard of, in the row that an empty table gets for it. -/
example :
    let stats := BasicStats.reset ⟨0, 0⟩
    let node : Export.Node := ⟨NodeId.clear, ⟨lit "host", by decide⟩, ⟨lit "host", by decide⟩,
      ⟨0, stats, stats, stats, fun _ => []⟩⟩
    (nodesTableUpdate (nodeTexts ⟨⟨0, 0⟩, fun _ => none⟩) (SortedTree.empty.insert NodeId.clear node) []).map
        (fun tt => tt.gs.rows.map fun row => (row.texts .name, row.texts .accumulated)) =
      some [(some (lit "host"), some (lit "0 bytes"))] := by
  decide +kernel

end EtherApe
