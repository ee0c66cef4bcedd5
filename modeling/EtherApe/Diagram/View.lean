import EtherApe.Diagram.LimitNodes
import EtherApe.Diagram.NewNodes
import EtherApe.Lib.Runs

/-!
# What the window shows

The model of the rest of a refresh: which canvas nodes have a visible item, which links are drawn, and
which protocols the legend names. The canvas nodes are kept in three trees under the same keys, one for
what `update_diagram` makes and deletes, one for the flags that `limit_nodes` sets, and one for the
items. Positions, sizes, fonts and colors are left out. The limit on nodes is an option of the command
line, so it stays the same for a whole run.
-/

namespace EtherApe

/-- The two triangles of a link, which are shown and hidden together. -/
structure CanvasLink where
  visible : Bool
deriving DecidableEq

structure View where
  diagram : Diagram
  drawn : Drawn
  /-- Whether the `node_item` of a canvas node is visible. -/
  nodeItems : SortedTree nodeIdCompare Bool
  canvasLinks : SortedTree linkIdCompare CanvasLink
  /-- The labels of `prot_table`. -/
  legend : List String
  knownProtocols : Int

def Capture.protocolSummaryFind (s : Capture) (level : Nat) (protoname : String) : Option Protocol :=
  s.protosummaryStats.bind fun stats => stats.statsProtos.find level (some protoname)

namespace View

def initial (now : Timeval) : View where
  diagram := Diagram.initial now
  drawn := ⟨SortedTree.empty, 0, true⟩
  nodeItems := SortedTree.empty
  canvasLinks := SortedTree.empty
  legend := []
  knownProtocols := 0

def shown (v : View) (id : NodeId) : Bool := (v.drawn.canvasNodes.lookup id).any DrawnNode.shown

/-! ### Nodes -/

def askReposition (v : View) : View := { v with drawn := { v.drawn with needReposition := true } }

/-- `check_new_node`: the item is hidden until it has a position. -/
def checkNewNode (v : View) (pref : Preferences) (p : NodePtr) : View :=
  match Diagram.nodeAt v.diagram.capture.allNodes p with
  | some node =>
      if Diagram.displayNode v.diagram.capture.now pref node ∧
          (v.diagram.canvasNodes.lookup node.nodeId).isNone then
        { v with
          diagram := v.diagram.checkNewNode pref p
          drawn := { v.drawn with
            canvasNodes := v.drawn.canvasNodes.insert node.nodeId ⟨true⟩
            needReposition := true }
          nodeItems := v.nodeItems.insert node.nodeId false }
      else v
  | none => v

def setNewNodes (v : View) (newNodes : List NodePtr) : View :=
  { v with diagram := { v.diagram with capture := { v.diagram.capture with newNodes := newNodes } } }

def checkNewNodes (pref : Preferences) : Nat → View → View
  | 0, v => v
  | rounds + 1, v =>
      match newNodesPop v.diagram.capture.allNodes v.diagram.capture.newNodes with
      | (some p, newNodes) => checkNewNodes pref rounds ((v.setNewNodes newNodes).checkNewNode pref p)
      | (none, newNodes) => v.setNewNodes newNodes

def beginUpdate (v : View) (now : Timeval) (pref : Preferences) : View :=
  let capture := { v.diagram.capture with now := now }.nodesUpdate pref
  let v := checkNewNodes pref (capture.newNodes.length + 1)
    { v with diagram := { v.diagram with capture := capture } }
  { v with diagram := { v.diagram with
      phase := .canvasNodes (v.diagram.canvasNodes.entries.map Prod.fst) [] } }

/-- `canvas_node_update`: a canvas node that is queued asks for a new layout. -/
def visitCanvasNode (v : View) (pref : Preferences) : Option View :=
  match v.diagram.phase with
  | .canvasNodes (k :: _) _ =>
      let displayed := (v.diagram.capture.allNodes.lookup k).any fun node =>
        decide (Diagram.displayNode v.diagram.capture.now pref node)
      (v.diagram.visitCanvasNode pref).map fun diagram =>
        { v with
          diagram := diagram
          drawn := { v.drawn with needReposition := v.drawn.needReposition || !displayed } }
  | _ => none

/-- `reposition_canvas_nodes` for every canvas node: its item is hidden or shown. -/
def repositionCanvasNodes (v : View) : View :=
  if v.drawn.needReposition then
    { v with
      drawn := { v.drawn with needReposition := false }
      nodeItems := (v.nodeItems.traverse (fun _ k _ => ((), v.shown k)) ()).2 }
  else v

/-! ### Links -/

def checkNewLink (canvasLinks : SortedTree linkIdCompare CanvasLink) (linkId : LinkId) :
    SortedTree linkIdCompare CanvasLink :=
  if (canvasLinks.lookup linkId).isNone then canvasLinks.insert linkId ⟨true⟩ else canvasLinks

/-- `canvas_link_update`: a link is drawn when both of its ends are shown. -/
def canvasLinkUpdate (v : View) (_ : Unit) (linkId : LinkId) (canvasLink : CanvasLink) :
    SortedTree.Visited Unit CanvasLink :=
  if (v.diagram.capture.allLinks.lookup linkId).isNone then ⟨(), canvasLink, true⟩
  else if ¬v.shown linkId.dst then ⟨(), ⟨false⟩, false⟩
  else if ¬v.shown linkId.src then ⟨(), ⟨false⟩, false⟩
  else ⟨(), ⟨true⟩, false⟩

/-- `diagram_update_links` after the links of the catalog are updated. -/
def updateCanvasLinks (v : View) : View :=
  let canvasLinks :=
    (v.diagram.capture.allLinks.entries.map Prod.fst).foldl checkNewLink v.canvasLinks
  { v with canvasLinks := (canvasLinks.sweep v.canvasLinkUpdate (fun _ _ => ()) ()).2 }

/-! ### The legend -/

/-- `purge_expired_legend_protocol` for every label. -/
def purgeLegend (v : View) (level : Level) : View :=
  let expired := fun label => (v.diagram.capture.protocolSummaryFind level label).isNone
  { v with
    legend := v.legend.filter fun label => !expired label
    knownProtocols := v.knownProtocols - v.legend.countP expired }

/-- The protocol of one round of `check_new_protocol`; the labels it is looked for in are those from
before the loop. -/
def addLabel (childlist : List String) (v : View) (protocol : Protocol) : View :=
  if protocol.name ∈ childlist then v
  else { v with legend := v.legend ++ [protocol.name], knownProtocols := v.knownProtocols + 1 }

def checkNewProtocol (v : View) (level : Level) : View :=
  match v.diagram.capture.protosummaryStats with
  | some stats => (stats.statsProtos level).foldl (addLabel v.legend) v
  | none => v

def updateLegend (v : View) (level : Level) : View := (v.purgeLegend level).checkNewProtocol level

def deleteGuiProtocols (v : View) : View := { v with legend := [], knownProtocols := 0 }

/-! ### The rest of a refresh -/

def removeCanvasNodes (v : View) (deleteList : List NodeId) : View :=
  { v with
    drawn := { v.drawn with
      canvasNodes := deleteList.foldl SortedTree.remove v.drawn.canvasNodes }
    nodeItems := deleteList.foldl SortedTree.remove v.nodeItems }

section Limit

variable {α : Type*} [LinearOrder α]

/-- After the traversal: nodes, links and legend. -/
def finishNodes (v : View) (pref : Preferences) (nodeLimit : Int) (behind : NodeId → α)
    (level : Level) : Option View :=
  match v.diagram.phase with
  | .canvasNodes [] deleteList =>
      (v.diagram.finishNodes pref).map fun diagram =>
        let v := { v with diagram := diagram }.removeCanvasNodes deleteList
        let v := { v with drawn := limitNodes behind nodeLimit v.drawn }.repositionCanvasNodes
        v.updateCanvasLinks.updateLegend level
  | _ => none

end Limit

/-- `gui_stop_capture`: a stop that is not put off clears the legend. -/
def guiStopCapture (v : View) : View :=
  let stopped := { v with diagram := v.diagram.guiStopCapture }
  if v.diagram.capture.captureStatus = .stop then stopped
  else
    match v.diagram.phase with
    | .idle => stopped.deleteGuiProtocols
    | _ => stopped

def finishUpdate (v : View) (now : Timeval) (keepTimer : Bool) : Option View :=
  match v.diagram.phase with
  | .redraw =>
      let v := { v with diagram := { v.diagram with
        capture := { v.diagram.capture with now := now }, phase := .idle } }
      some (if keepTimer ∧ v.diagram.stopRequested then v.guiStopCapture else v)
  | _ => none

end View

/-- What may come next; `behind` is what `traffic_compare` reads behind the canvas nodes. -/
inductive ViewEvent (α : Type*)
  | capture (e : Event)
  | guiStopCapture
  | askReposition
  | deleteGuiProtocols
  | beginUpdate (now : Timeval) (pref : Preferences)
  | visitCanvasNode (pref : Preferences)
  | finishNodes (pref : Preferences) (behind : NodeId → α) (level : Level)
  | finishUpdate (now : Timeval) (keepTimer : Bool)

namespace View

variable {α : Type*} [LinearOrder α]

/-- One step; the preferences dialog may ask for a new layout or clear the legend at any time. -/
def step (nodeLimit : Int) (v : View) : ViewEvent α → Option View
  | .capture e => (v.diagram.step (.capture e)).map fun diagram => { v with diagram := diagram }
  | .guiStopCapture => some v.guiStopCapture
  | .askReposition => some v.askReposition
  | .deleteGuiProtocols => some v.deleteGuiProtocols
  | .beginUpdate now pref =>
      (v.diagram.step (.beginUpdate now pref)).map fun _ => v.beginUpdate now pref
  | .visitCanvasNode pref => v.visitCanvasNode pref
  | .finishNodes pref behind level => v.finishNodes pref nodeLimit behind level
  | .finishUpdate now keepTimer => v.finishUpdate now keepTimer

def machine (now : Timeval) (nodeLimit : Int) : Machine View (ViewEvent α) where
  start := initial now
  step := step nodeLimit

end View

namespace Diagram

theorem checkNewNodes_capture (pref : Preferences) (rounds : Nat) (d : Diagram) :
    ∃ newNodes, (checkNewNodes pref rounds d).capture = { d.capture with newNodes := newNodes } := by
  induction rounds generalizing d with
  | zero => exact ⟨_, rfl⟩
  | succ rounds ih =>
      unfold checkNewNodes
      split
      next p newNodes _ =>
        obtain ⟨newNodes', hcapture⟩ := ih (checkNewNode { d with
          capture := { d.capture with newNodes := newNodes } } pref p)
        refine ⟨newNodes', ?_⟩
        rw [hcapture]
        unfold checkNewNode
        split
        · split <;> rfl
        · rfl
      next newNodes _ => exact ⟨newNodes, rfl⟩

theorem beginUpdate_capture (d : Diagram) (now : Timeval) (pref : Preferences) :
    ∃ newNodes, (d.beginUpdate now pref).capture =
      { { d.capture with now := now }.nodesUpdate pref with newNodes := newNodes } :=
  checkNewNodes_capture pref _ _

end Diagram

namespace View

/-! ### The diagram of a view -/

theorem checkNewNode_diagram (v : View) (pref : Preferences) (p : NodePtr) :
    (v.checkNewNode pref p).diagram = v.diagram.checkNewNode pref p := by
  unfold checkNewNode
  cases hnode : Diagram.nodeAt v.diagram.capture.allNodes p with
  | none => simp only [Diagram.checkNewNode, hnode]
  | some node =>
      dsimp only
      split
      next => rfl
      next hold => simp only [Diagram.checkNewNode, hnode, if_neg hold]

theorem checkNewNodes_diagram (pref : Preferences) (rounds : Nat) (v : View) :
    (checkNewNodes pref rounds v).diagram = Diagram.checkNewNodes pref rounds v.diagram := by
  induction rounds generalizing v with
  | zero => rfl
  | succ rounds ih =>
      rw [checkNewNodes, Diagram.checkNewNodes]
      rcases newNodesPop v.diagram.capture.allNodes v.diagram.capture.newNodes with ⟨found, newNodes⟩
      cases found with
      | none => rfl
      | some p =>
          change (checkNewNodes pref rounds ((v.setNewNodes newNodes).checkNewNode pref p)).diagram = _
          rw [ih, checkNewNode_diagram]
          rfl

theorem checkNewNodes_rest (pref : Preferences) (rounds : Nat) (v : View) :
    (checkNewNodes pref rounds v).canvasLinks = v.canvasLinks ∧
      (checkNewNodes pref rounds v).legend = v.legend ∧
      (checkNewNodes pref rounds v).knownProtocols = v.knownProtocols := by
  induction rounds generalizing v with
  | zero => exact ⟨rfl, rfl, rfl⟩
  | succ rounds ih =>
      unfold checkNewNodes
      split
      next p newNodes _ =>
        obtain ⟨hlinks, hlegend, hknown⟩ := ih ((v.setNewNodes newNodes).checkNewNode pref p)
        rw [hlinks, hlegend, hknown]
        unfold checkNewNode
        split
        · split <;> exact ⟨rfl, rfl, rfl⟩
        · exact ⟨rfl, rfl, rfl⟩
      next newNodes _ => exact ⟨rfl, rfl, rfl⟩

theorem beginUpdate_rest (v : View) (now : Timeval) (pref : Preferences) :
    (v.beginUpdate now pref).canvasLinks = v.canvasLinks ∧
      (v.beginUpdate now pref).legend = v.legend ∧
      (v.beginUpdate now pref).knownProtocols = v.knownProtocols := checkNewNodes_rest pref _ _

theorem beginUpdate_diagram (v : View) (now : Timeval) (pref : Preferences) :
    (v.beginUpdate now pref).diagram = v.diagram.beginUpdate now pref := by
  unfold beginUpdate Diagram.beginUpdate
  simp only [checkNewNodes_diagram]

theorem visitCanvasNode_diagram {v v' : View} {pref : Preferences}
    (h : v.visitCanvasNode pref = some v') : v.diagram.visitCanvasNode pref = some v'.diagram := by
  unfold visitCanvasNode at h
  split at h
  next =>
    obtain ⟨diagram, hdiagram, rfl⟩ := Option.map_eq_some_iff.mp h
    exact hdiagram
  next => cases h

@[simp] theorem repositionCanvasNodes_diagram (v : View) :
    v.repositionCanvasNodes.diagram = v.diagram := by
  unfold repositionCanvasNodes
  split <;> rfl

end View

end EtherApe
