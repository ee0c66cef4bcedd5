import EtherApe.Capture

/-!
# The diagram

The model of `update_diagram` as far as it decides which nodes have a canvas node. A refresh is not
atomic: while it goes through the canvas nodes it lets pending events in, so the traversal is a part
of the state, with the keys still to visit and the keys queued for deletion. A refresh cannot start
inside another one, and a stop that comes inside one is put off.
-/

namespace EtherApe

structure CanvasNode where
  canvasNodeId : NodeId

/-- Where a refresh stands; `already_updating` is true unless it is `idle`. -/
inductive Phase
  | idle
  | canvasNodes (remaining deleteList : List NodeId)
  | redraw

structure Diagram where
  capture : Capture
  canvasNodes : SortedTree nodeIdCompare CanvasNode
  phase : Phase
  stopRequested : Bool

namespace Diagram

def initial (now : Timeval) : Diagram :=
  { capture := Capture.initial now, canvasNodes := SortedTree.empty, phase := .idle
    stopRequested := false }

/-- `display_node`: a node is too old only when it has no packets left. -/
def displayNode (now : Timeval) (pref : Preferences) (node : Node) : Prop :=
  ¬(pref.guiNodeTimeoutTime ≤ substractTimesMs now node.nodeStats.stats.lastTime ∧
    pref.guiNodeTimeoutTime ≠ 0 ∧ node.nodeStats.pktList.length = 0)

instance (now : Timeval) (pref : Preferences) (node : Node) :
    Decidable (displayNode now pref node) := inferInstanceAs (Decidable (¬_))

def nodeAt (allNodes : NodesCatalog) (p : NodePtr) : Option Node :=
  allNodes.values.find? fun node => node.addr = p.addr

def checkNewNode (d : Diagram) (pref : Preferences) (p : NodePtr) : Diagram :=
  match nodeAt d.capture.allNodes p with
  | some node =>
      if displayNode d.capture.now pref node ∧ (d.canvasNodes.lookup node.nodeId).isNone then
        { d with canvasNodes := d.canvasNodes.insert node.nodeId ⟨node.nodeId⟩ }
      else d
  | none => d

/-- The loop over `new_nodes_pop`. Every round but the last takes one node off the list. -/
def checkNewNodes (pref : Preferences) : Nat → Diagram → Diagram
  | 0, d => d
  | rounds + 1, d =>
      match newNodesPop d.capture.allNodes d.capture.newNodes with
      | (some p, newNodes) =>
          checkNewNodes pref rounds
            (checkNewNode { d with capture := { d.capture with newNodes := newNodes } } pref p)
      | (none, newNodes) => { d with capture := { d.capture with newNodes := newNodes } }

/-- The beginning of a refresh, up to the traversal of the canvas nodes: the nodes are updated, and
all new ones are looked at. -/
def beginUpdate (d : Diagram) (now : Timeval) (pref : Preferences) : Diagram :=
  let capture := { d.capture with now := now }.nodesUpdate pref
  let d := checkNewNodes pref (capture.newNodes.length + 1) { d with capture := capture }
  { d with phase := .canvasNodes (d.canvasNodes.entries.map Prod.fst) [] }

/-- `canvas_node_update` for the next key of the traversal: a canvas node without a node to display is
queued. -/
def visitCanvasNode (d : Diagram) (pref : Preferences) : Option Diagram :=
  match d.phase with
  | .canvasNodes (k :: remaining) deleteList =>
      let displayed := (d.capture.allNodes.lookup k).any fun node =>
        decide (displayNode d.capture.now pref node)
      some { d with
        phase := .canvasNodes remaining (if displayed then deleteList else k :: deleteList) }
  | _ => none

/-- After the traversal: the queued canvas nodes are removed, and the links and the summary updated. -/
def finishNodes (d : Diagram) (pref : Preferences) : Option Diagram :=
  match d.phase with
  | .canvasNodes [] deleteList =>
      some { d with
        capture := (d.capture.linksUpdate pref).protocolSummaryUpdateAll pref
        canvasNodes := deleteList.foldl SortedTree.remove d.canvasNodes
        phase := .redraw }
  | _ => none

/-- `gui_stop_capture`, up to the refresh that follows the stop. -/
def guiStopCapture (d : Diagram) : Diagram :=
  let d := { d with stopRequested := false }
  if d.capture.captureStatus = .stop then d
  else
    match d.phase with
    | .idle => { d with capture := d.capture.stopCapture }
    | _ => { d with stopRequested := true }

/-- The end of a refresh; when it keeps its timer it sees to a stop that was put off. -/
def finishUpdate (d : Diagram) (now : Timeval) (keepTimer : Bool) : Option Diagram :=
  match d.phase with
  | .redraw =>
      let d := { d with capture := { d.capture with now := now }, phase := .idle }
      some (if keepTimer ∧ d.stopRequested then d.guiStopCapture else d)
  | _ => none

end Diagram

/-- The updates are called by a refresh only. -/
def Event.isUpdate : Event → Bool
  | .nodesUpdate _ => true
  | .linksUpdate _ => true
  | .summaryUpdate _ => true
  | _ => false

/-- What may come next: an event of the capture, or the next part of a refresh. -/
inductive DiagramEvent
  | capture (e : Event)
  | guiStopCapture
  | beginUpdate (now : Timeval) (pref : Preferences)
  | visitCanvasNode (pref : Preferences)
  | finishNodes (pref : Preferences)
  | finishUpdate (now : Timeval) (keepTimer : Bool)

namespace Diagram

/-- One step; the events of a capture may come at any time. -/
def step (d : Diagram) : DiagramEvent → Option Diagram
  | .capture e =>
      if e.isUpdate then none
      else (d.capture.step e).map fun capture => { d with capture := capture }
  | .guiStopCapture => some d.guiStopCapture
  | .beginUpdate now pref =>
      match d.phase with
      | .idle =>
          if d.capture.captureStatus = .pause ∨ d.capture.captureStatus = .capEof then none
          else some (d.beginUpdate now pref)
      | _ => none
  | .visitCanvasNode pref => d.visitCanvasNode pref
  | .finishNodes pref => d.finishNodes pref
  | .finishUpdate now keepTimer => d.finishUpdate now keepTimer

def steps (d : Diagram) : List DiagramEvent → Option Diagram
  | [] => some d
  | e :: es => (d.step e).bind fun d => d.steps es

/-- The diagrams that some order of steps leads to. -/
inductive Reached : Diagram → Prop
  | initial (now : Timeval) : Reached (initial now)
  | step {d d' : Diagram} (h : Reached d) (e : DiagramEvent) (hstep : d.step e = some d') : Reached d'

theorem Reached.steps {d d' : Diagram} (h : Reached d) {es : List DiagramEvent}
    (hsteps : d.steps es = some d') : Reached d' := by
  induction es generalizing d with
  | nil =>
      obtain rfl := Option.some.inj hsteps
      exact h
  | cons e es ih =>
      obtain ⟨mid, hstep, hrest⟩ := Option.bind_eq_some_iff.mp hsteps
      exact ih (h.step e hstep) hrest

end Diagram

end EtherApe
