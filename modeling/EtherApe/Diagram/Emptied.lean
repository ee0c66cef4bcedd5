import EtherApe.Diagram.Legend

/-!
# A stop empties the window

A stop leaves the canvas to the refresh that follows it. That refresh finds no node for any canvas node,
so it queues all of them; and whatever else it lets in before they are deleted, short of a new start, has
no packets to add.
-/

namespace EtherApe

/-- The canvas nodes are being visited. -/
def Phase.traversing : Phase → Bool
  | .canvasNodes _ _ => true
  | _ => false

def Event.starts : Event → Bool
  | .startCapture => true
  | _ => false

def DiagramEvent.starts : DiagramEvent → Bool
  | .capture e => e.starts
  | _ => false

def ViewEvent.starts {α : Type*} : ViewEvent α → Bool
  | .capture e => e.starts
  | _ => false

namespace Diagram

variable {d d' : Diagram}

theorem consistent_step (h : d.capture.Consistent) {e : DiagramEvent} (hd' : d.step e = some d') :
    d'.capture.Consistent := by
  have hstop : ∀ c : Diagram, c.capture.Consistent → c.guiStopCapture.capture.Consistent := by
    intro c hc
    unfold guiStopCapture
    dsimp only
    split
    · exact hc
    · split
      · exact hc.stopCapture
      · exact hc
  cases e with
  | capture e =>
      simp only [Diagram.step] at hd'
      split at hd'
      · cases hd'
      · obtain ⟨s, hs, rfl⟩ := Option.map_eq_some_iff.mp hd'
        exact h.step hs
  | guiStopCapture =>
      obtain rfl := Option.some.inj hd'
      exact hstop d h
  | beginUpdate now pref =>
      have hclock : Capture.Consistent { d.capture with now := now } := ⟨h.counts, h.closed⟩
      have hupdated := hclock.nodesUpdate pref
      obtain ⟨newNodes, hcapture⟩ := d.beginUpdate_capture now pref
      simp only [Diagram.step] at hd'
      split at hd'
      next =>
        split at hd'
        · cases hd'
        · obtain rfl := Option.some.inj hd'
          rw [hcapture]
          exact ⟨hupdated.counts, hupdated.closed⟩
      next => cases hd'
  | visitCanvasNode pref =>
      simp only [Diagram.step, visitCanvasNode] at hd'
      split at hd'
      · obtain rfl := Option.some.inj hd'
        exact h
      · cases hd'
  | finishNodes pref =>
      simp only [Diagram.step, finishNodes] at hd'
      split at hd'
      · obtain rfl := Option.some.inj hd'
        exact (h.linksUpdate pref).summaryUpdate pref
      · cases hd'
  | finishUpdate now keepTimer =>
      simp only [Diagram.step, finishUpdate] at hd'
      split at hd'
      next =>
        have hidle : Capture.Consistent { d.capture with now := now } := ⟨h.counts, h.closed⟩
        obtain rfl := Option.some.inj hd'
        split
        · exact hstop _ hidle
        · exact hidle
      next => cases hd'

theorem Reached.consistent (h : Reached d) : d.capture.Consistent := by
  induction h with
  | initial now => exact Capture.Consistent.initial now
  | step _ e hstep ih => exact consistent_step ih hstep

theorem guiStopCapture_of_stopped (h : d.capture.captureStatus = .stop) :
    d.guiStopCapture = { d with stopRequested := false } := by
  unfold guiStopCapture
  dsimp only
  rw [if_pos h]

/-- Nothing but a start changes the status of a stopped capture. -/
theorem status_step (h : d.capture.captureStatus = .stop) {e : DiagramEvent} (he : e.starts = false)
    (hd' : d.step e = some d') : d'.capture.captureStatus = .stop := by
  cases e with
  | capture e =>
      simp only [Diagram.step] at hd'
      split at hd'
      next => cases hd'
      next hupdate =>
        obtain ⟨s, hs, rfl⟩ := Option.map_eq_some_iff.mp hd'
        cases e with
        | startCapture => cases he
        | clock now =>
            obtain rfl := Option.some.inj hs
            exact h
        | pauseCapture =>
            obtain rfl := Option.some.inj hs
            simp [Capture.pauseCapture, h]
        | endOfFile =>
            obtain rfl := Option.some.inj hs
            simp [Capture.endOfFile, h]
        | stopCapture =>
            obtain rfl := Option.some.inj hs
            exact Capture.stopCapture_captureStatus _
        | packetAcquired env rawPacket rawSize pktSize mem =>
            simp only [Capture.step] at hs
            split at hs
            next hguard => exact absurd h hguard.1
            next => cases hs
        | nodesUpdate pref => exact absurd rfl hupdate
        | linksUpdate pref => exact absurd rfl hupdate
        | summaryUpdate pref => exact absurd rfl hupdate
  | guiStopCapture =>
      obtain rfl := Option.some.inj hd'
      rw [guiStopCapture_of_stopped h]
      exact h
  | beginUpdate now pref =>
      obtain ⟨newNodes, hcapture⟩ := d.beginUpdate_capture now pref
      simp only [Diagram.step] at hd'
      split at hd'
      next =>
        split at hd'
        · cases hd'
        · obtain rfl := Option.some.inj hd'
          rw [hcapture]
          exact h
      next => cases hd'
  | visitCanvasNode pref =>
      simp only [Diagram.step, visitCanvasNode] at hd'
      split at hd'
      · obtain rfl := Option.some.inj hd'
        exact h
      · cases hd'
  | finishNodes pref =>
      simp only [Diagram.step, finishNodes] at hd'
      split at hd'
      · obtain rfl := Option.some.inj hd'
        unfold Capture.protocolSummaryUpdateAll
        split <;> exact h
      · cases hd'
  | finishUpdate now keepTimer =>
      simp only [Diagram.step, finishUpdate] at hd'
      split at hd'
      next =>
        let idle : Diagram :=
          { d with capture := { d.capture with now := now }, phase := .idle }
        have hidle : idle.capture.captureStatus = .stop := h
        obtain rfl := Option.some.inj hd'
        split
        · change idle.guiStopCapture.capture.captureStatus = .stop
          rw [guiStopCapture_of_stopped hidle]
          exact h
        · exact h
      next => cases hd'

end Diagram

namespace View

variable {α : Type*} [LinearOrder α] {nodeLimit : Int} {v v' : View} {now : Timeval}
  {pref : Preferences}

theorem step_diagram {e : ViewEvent α} (hv' : v.step nodeLimit e = some v') :
    v'.diagram = v.diagram ∨
      ∃ e', e'.starts = e.starts ∧ v.diagram.step e' = some v'.diagram := by
  have hstop : ∀ w : View, w.guiStopCapture.diagram = w.diagram.guiStopCapture := by
    intro w
    unfold guiStopCapture
    dsimp only
    split
    · rfl
    · split <;> rfl
  cases e with
  | capture e =>
      obtain ⟨diagram, hdiagram, rfl⟩ := Option.map_eq_some_iff.mp hv'
      exact Or.inr ⟨.capture e, rfl, hdiagram⟩
  | guiStopCapture =>
      obtain rfl := Option.some.inj hv'
      refine Or.inr ⟨.guiStopCapture, rfl, ?_⟩
      rw [hstop]
      rfl
  | askReposition =>
      obtain rfl := Option.some.inj hv'
      exact Or.inl rfl
  | deleteGuiProtocols =>
      obtain rfl := Option.some.inj hv'
      exact Or.inl rfl
  | beginUpdate now pref =>
      obtain ⟨diagram, hdiagram, rfl⟩ := Option.map_eq_some_iff.mp hv'
      refine Or.inr ⟨.beginUpdate now pref, rfl, ?_⟩
      rw [beginUpdate_diagram, hdiagram]
      simp only [Diagram.step] at hdiagram
      split at hdiagram
      next =>
        split at hdiagram
        · cases hdiagram
        · exact hdiagram.symm
      next => cases hdiagram
  | visitCanvasNode pref => exact Or.inr ⟨.visitCanvasNode pref, rfl, visitCanvasNode_diagram hv'⟩
  | finishNodes pref behind level =>
      exact Or.inr ⟨.finishNodes pref, rfl, finishNodes_diagram hv'⟩
  | finishUpdate now keepTimer =>
      refine Or.inr ⟨.finishUpdate now keepTimer, rfl, ?_⟩
      have hfinish : v.finishUpdate now keepTimer = some v' := hv'
      change v.diagram.finishUpdate now keepTimer = some v'.diagram
      unfold finishUpdate at hfinish
      unfold Diagram.finishUpdate
      cases hphase : v.diagram.phase with
      | redraw =>
          rw [hphase] at hfinish
          obtain rfl := Option.some.inj hfinish
          change some (ite _ _ _) = some _
          split
          · rw [hstop]
          · rfl
      | idle =>
          rw [hphase] at hfinish
          cases hfinish
      | canvasNodes remaining deleteList =>
          rw [hphase] at hfinish
          cases hfinish

theorem reached_of_run {past : List (View × ViewEvent α)} (h : (machine now nodeLimit).Run past v) :
    Diagram.Reached v.diagram := by
  induction h with
  | start => exact Diagram.Reached.initial now
  | step _ e hstep ih =>
      rcases step_diagram hstep with hsame | ⟨e', _, hstep'⟩
      · rw [hsame]
        exact ih
      · exact ih.step e' hstep'

/-- Nothing is shown. -/
structure Empty (v : View) : Prop where
  canvasNodes : v.diagram.canvasNodes.entries = []
  nodeItems : v.nodeItems.entries = []
  canvasLinks : v.canvasLinks.entries = []
  legend : v.legend = []

/-- In the traversal each canvas node is to be visited or is queued; outside of it there is none. -/
def Emptying (v : View) : Prop :=
  match v.diagram.phase with
  | .canvasNodes remaining deleteList =>
      ∀ k ∈ v.diagram.canvasNodes.entries.map Prod.fst, k ∈ remaining ∨ k ∈ deleteList
  | _ => v.Empty

theorem Emptying.of_eq (h : v.Emptying) (hphase : v'.diagram.phase = v.diagram.phase)
    (hcanvas : v'.diagram.canvasNodes = v.diagram.canvasNodes) (hitems : v'.nodeItems = v.nodeItems)
    (hlinks : v'.canvasLinks = v.canvasLinks) (hlegend : v'.legend = v.legend ∨ v'.legend = []) :
    v'.Emptying := by
  unfold Emptying at h ⊢
  rw [hphase, hcanvas]
  cases hold : v.diagram.phase with
  | canvasNodes remaining deleteList =>
      rw [hold] at h
      exact h
  | idle =>
      rw [hold] at h
      refine ⟨hcanvas ▸ h.canvasNodes, hitems ▸ h.nodeItems, hlinks ▸ h.canvasLinks, ?_⟩
      exact hlegend.elim (fun hsame => hsame.trans h.legend) fun hempty => hempty
  | redraw =>
      rw [hold] at h
      refine ⟨hcanvas ▸ h.canvasNodes, hitems ▸ h.nodeItems, hlinks ▸ h.canvasLinks, ?_⟩
      exact hlegend.elim (fun hsame => hsame.trans h.legend) fun hempty => hempty

/-- A view whose capture is stopped, with what holds in all runs. -/
structure Stopped (nodeLimit : Int) (v : View) : Prop where
  status : v.diagram.capture.captureStatus = .stop
  sound : v.diagram.Sound
  consistent : v.diagram.capture.Consistent
  agrees : v.Agrees nodeLimit
  listed : v.Listed

theorem Stopped.step (h : v.Stopped nodeLimit) {e : ViewEvent α} (he : e.starts = false)
    (hv' : v.step nodeLimit e = some v') : v'.Stopped nodeLimit := by
  refine ⟨?_, ?_, ?_, h.agrees.step hv', h.listed.step hv'⟩
  all_goals rcases step_diagram hv' with hsame | ⟨e', he', hstep⟩
  · rw [hsame]
    exact h.status
  · exact Diagram.status_step h.status (he'.trans he) hstep
  · rw [hsame]
    exact h.sound
  · exact h.sound.step hstep
  · rw [hsame]
    exact h.consistent
  · exact Diagram.consistent_step h.consistent hstep

theorem guiStopCapture_of_stopped (h : v.diagram.capture.captureStatus = .stop) :
    v.guiStopCapture = { v with diagram := { v.diagram with stopRequested := false } } := by
  rw [guiStopCapture, if_pos h, Diagram.guiStopCapture_of_stopped h]

theorem emptying_beginUpdate (v : View) (now : Timeval) (pref : Preferences) :
    (v.beginUpdate now pref).Emptying := fun _ hk => Or.inl hk

theorem Emptying.visitCanvasNode (h : v.Emptying) (hs : v.Stopped nodeLimit)
    (hv' : v.visitCanvasNode pref = some v') : v'.Emptying := by
  obtain ⟨hnodes, _, _⟩ := hs.consistent.closed hs.status
  unfold View.visitCanvasNode at hv'
  split at hv'
  next k remaining deleteList hphase =>
    obtain ⟨diagram, hdiagram, rfl⟩ := Option.map_eq_some_iff.mp hv'
    rw [Diagram.visitCanvasNode, hphase] at hdiagram
    obtain rfl := Option.some.inj hdiagram
    rw [Emptying, hphase] at h
    intro k' hk'
    -- There is no node in the catalog, so the one that is visited is queued.
    rw [hnodes, SortedTree.lookup_empty]
    rcases h k' hk' with hremaining | hqueued
    · rcases List.mem_cons.mp hremaining with rfl | hremaining
      · exact Or.inr List.mem_cons_self
      · exact Or.inl hremaining
    · exact Or.inr (List.mem_cons_of_mem _ hqueued)
  next => cases hv'

theorem entries_eq_nil {κ ν : Type*} {cmp : κ → κ → Int} [ThreeWay cmp] {t : SortedTree cmp ν}
    (h : ∀ k, t.lookup k = none) : t.entries = [] := by
  rw [List.eq_nil_iff_forall_not_mem]
  intro e he
  have hfound : t.lookup e.1 = some e.2 :=
    SortedTree.lookup_eq_some_iff.mpr ⟨e.1, he, ThreeWay.refl e.1⟩
  rw [h] at hfound
  cases hfound

/-- The end of the traversal deletes them all, and with them the links and the labels. -/
theorem Emptying.finishNodes {behind : NodeId → α} {level : Level} (h : v.Emptying)
    (hs : v.Stopped nodeLimit) (hv' : v.finishNodes pref nodeLimit behind level = some v') :
    v'.Emptying := by
  obtain ⟨deleteList, _, hphase, _⟩ := finishNodes_eq_some hv'
  obtain ⟨hrefreshed, hagrees⟩ := hs.agrees.finishNodes hv'
  obtain ⟨_, hlegend⟩ := hs.listed.finishNodes hv'
  have hs' : v'.Stopped nodeLimit := hs.step (e := .finishNodes pref behind level) rfl hv'
  obtain ⟨_, hlinks, hsummary⟩ := hs'.consistent.closed hs'.status
  have hfinish := finishNodes_diagram hv'
  rw [Diagram.finishNodes, hphase] at hfinish
  rw [Emptying, hphase] at h
  have hcanvas : v'.diagram.canvasNodes.entries = [] := by
    rw [← Option.some.inj hfinish]
    apply entries_eq_nil
    intro id
    rw [SortedTree.lookup_foldl_remove]
    split
    · rfl
    · rename_i hkept
      rw [← Option.not_isSome_iff_eq_none, SortedTree.isSome_lookup_iff]
      rintro ⟨key, hkey, hsame⟩
      rcases h key hkey with hremaining | hqueued
      · cases hremaining
      · exact hkept ⟨key, hqueued, ThreeWay.eq_symm hsame⟩
  have hempty : v'.Empty := by
    refine ⟨hcanvas, ?_, entries_eq_nil fun id => ?_, ?_⟩
    · have hkeys := hagrees.items
      rw [SortedTree.SameKeys, hcanvas] at hkeys
      exact List.map_eq_nil_iff.mp hkeys.symm
    · rw [hrefreshed.links, hlinks, SortedTree.lookup_empty]
      rfl
    · rw [List.eq_nil_iff_forall_not_mem]
      intro name hname
      rw [hlegend, Capture.protocolSummaryFind, hsummary] at hname
      cases hname
  have hredraw : v'.diagram.phase = .redraw := by rw [← Option.some.inj hfinish]
  rw [Emptying, hredraw]
  exact hempty

theorem Emptying.step (h : v.Emptying) (hs : v.Stopped nodeLimit) {e : ViewEvent α}
    (he : e.starts = false) (hv' : v.step nodeLimit e = some v') : v'.Emptying := by
  cases e with
  | capture e =>
      obtain ⟨diagram, hdiagram, rfl⟩ := Option.map_eq_some_iff.mp hv'
      simp only [Diagram.step] at hdiagram
      split at hdiagram
      · cases hdiagram
      · obtain ⟨_, _, rfl⟩ := Option.map_eq_some_iff.mp hdiagram
        exact h.of_eq rfl rfl rfl rfl (Or.inl rfl)
  | guiStopCapture =>
      obtain rfl := Option.some.inj hv'
      rw [guiStopCapture_of_stopped hs.status]
      exact h.of_eq rfl rfl rfl rfl (Or.inl rfl)
  | askReposition =>
      obtain rfl := Option.some.inj hv'
      exact h.of_eq rfl rfl rfl rfl (Or.inl rfl)
  | deleteGuiProtocols =>
      obtain rfl := Option.some.inj hv'
      exact h.of_eq rfl rfl rfl rfl (Or.inr rfl)
  | beginUpdate now pref =>
      obtain ⟨_, _, rfl⟩ := Option.map_eq_some_iff.mp hv'
      exact emptying_beginUpdate v now pref
  | visitCanvasNode pref => exact h.visitCanvasNode hs hv'
  | finishNodes pref behind level => exact h.finishNodes hs hv'
  | finishUpdate now keepTimer =>
      simp only [View.step, View.finishUpdate] at hv'
      split at hv'
      next hphase =>
        rw [Emptying, hphase] at h
        let idle : View := { v with diagram := { v.diagram with
          capture := { v.diagram.capture with now := now }, phase := .idle } }
        have hstatus : idle.diagram.capture.captureStatus = .stop := hs.status
        have hidle : idle.Emptying := ⟨h.canvasNodes, h.nodeItems, h.canvasLinks, h.legend⟩
        obtain rfl := Option.some.inj hv'
        split
        · change idle.guiStopCapture.Emptying
          rw [guiStopCapture_of_stopped hstatus]
          exact hidle.of_eq rfl rfl rfl rfl (Or.inl rfl)
        · exact hidle
      next => cases hv'

theorem emptying_stepAll (hs : v.Stopped nodeLimit) (h : v.Emptying) {events : List (ViewEvent α)}
    (hother : ∀ e ∈ events, e.starts = false)
    (hsteps : (machine now nodeLimit).stepAll v events = some v') : v'.Emptying := by
  induction events generalizing v with
  | nil =>
      obtain rfl := Option.some.inj hsteps
      exact h
  | cons e events ih =>
      obtain ⟨w, hstep, hrest⟩ := Option.bind_eq_some_iff.mp hsteps
      obtain ⟨he, hother⟩ := List.forall_mem_cons.mp hother
      exact ih (hs.step he hstep) (h.step hs he hstep) hother hrest

/-- **Emptied window.** In any run a refresh of a stopped capture deletes every canvas node, every link
and every label, whatever else comes meanwhile or later, short of a new start. -/
theorem run_emptied {past : List (View × ViewEvent α)} (h : (machine now nodeLimit).Run past v)
    (hstatus : v.diagram.capture.captureStatus = .stop) {refreshNow : Timeval}
    {events : List (ViewEvent α)} (hother : ∀ e ∈ events, e.starts = false)
    (hsteps : (machine now nodeLimit).stepAll v (.beginUpdate refreshNow pref :: events) = some v')
    (hphase : v'.diagram.phase.traversing = false) : v'.Empty := by
  have hreached := reached_of_run h
  have hs : v.Stopped nodeLimit :=
    ⟨hstatus, hreached.sound, hreached.consistent, agrees_of_run h, listed_of_run h⟩
  obtain ⟨w, hbegin, hrest⟩ := Option.bind_eq_some_iff.mp hsteps
  have hw : w.Emptying := by
    obtain ⟨_, _, rfl⟩ := Option.map_eq_some_iff.mp hbegin
    exact emptying_beginUpdate v refreshNow pref
  have hstep : v.step nodeLimit (.beginUpdate refreshNow pref : ViewEvent α) = some w := hbegin
  have hempty := emptying_stepAll (hs.step rfl hstep) hw hother hrest
  unfold Emptying at hempty
  split at hempty
  next hcanvas =>
    rw [hcanvas] at hphase
    cases hphase
  next => exact hempty

/-- Two canvas nodes and their link are there when the capture is stopped, and gone after the refresh. -/
theorem run_emptied_frame : ∃ past, ∃ v v' : View, (machine (α := Nat) ⟨10, 0⟩ (-1)).Run past v ∧
    v.canvasLinks.entries.length = 1 ∧ v.diagram.canvasNodes.entries.length = 2 ∧ v'.Empty := by
  let pref : Preferences := ⟨1000, 0, 1000, 0, 0, 0, 0⟩
  let before : List (ViewEvent Nat) := frameShown ++
    [.finishNodes pref (fun _ => 0) 1, .finishUpdate ⟨20, 0⟩ true, .guiStopCapture]
  let refresh : List (ViewEvent Nat) :=
    [.visitCanvasNode pref, .visitCanvasNode pref, .finishNodes pref (fun _ => 0) 1,
      .finishUpdate ⟨30, 0⟩ true]
  have hbefore : ((machine (α := Nat) ⟨10, 0⟩ (-1)).stepAll (View.initial ⟨10, 0⟩) before).map
      (fun v => (decide (v.diagram.capture.captureStatus = .stop), v.canvasLinks.entries.length,
        v.diagram.canvasNodes.entries.length)) = some (true, 1, 2) := by decide +kernel
  have hafter : (((machine (α := Nat) ⟨10, 0⟩ (-1)).stepAll (View.initial ⟨10, 0⟩) before).bind
      fun v => (machine (α := Nat) ⟨10, 0⟩ (-1)).stepAll v (.beginUpdate ⟨20, 0⟩ pref :: refresh)).map
        (fun v => v.diagram.phase.traversing) = some false := by decide +kernel
  obtain ⟨v, hv, hcounts⟩ := Option.map_eq_some_iff.mp hbefore
  obtain ⟨v', hsteps, hphase⟩ := Option.map_eq_some_iff.mp hafter
  rw [hv, Option.bind_some] at hsteps
  obtain ⟨past, hrun, _⟩ := Machine.Run.start.stepAll hv
  obtain ⟨hstatus, hlengths⟩ := Prod.mk.inj hcounts
  obtain ⟨hlinks, hnodes⟩ := Prod.mk.inj hlengths
  have hother : ∀ e ∈ refresh, e.starts = false := by decide
  exact ⟨past, v, v', hrun, hlinks, hnodes,
    run_emptied hrun (of_decide_eq_true hstatus) hother hsteps hphase⟩

end View

end EtherApe
