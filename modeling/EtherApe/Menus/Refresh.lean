import EtherApe.Capture.References
import EtherApe.Menus

/-!
# One refresh at a time

In every run there is one refresh source, no update of the diagram redraws while another one does, and no
capture is closed under an update that is redrawing.
-/

namespace EtherApe.Menus

/-- The source that a call comes from in the end. -/
def Caller.source? : Caller → Option Nat
  | source id => some id
  | stopUpdate caller => caller.source?
  | _ => none

namespace Gui

/-- There is one refresh source, which is running just when one of the calls came from it. -/
def Refreshed (s : Gui) (calls : List Caller) : Prop :=
  ∃ source, s.loop.sources = [source] ∧ source.id = s.diagramTimeout ∧ source.kind.isIdle = s.isIdle ∧
    calls.filterMap Caller.source? = (if source.running then [source.id] else []) ∧
    (source.removed = true → source.running = true)

/-- One update redraws at most, no stop is requested of a capture that is closed, and none was closed under an
update. -/
structure Guarded (s : Gui) : Prop where
  updating : s.alreadyUpdating = !s.updates.isEmpty
  single : s.updates.length ≤ 1
  requested : s.stopRequested = true → s.capture.captureStatus ≠ .stop
  closings : ∀ n ∈ s.closings, n = 0

/-! ### Sources that replace each other -/

variable {s : Gui} {calls : List Caller}

theorem destroyingTimeout_refreshed (h : s.loop.sources = []) (hcalls : calls.filterMap Caller.source? = []) :
    s.destroyingTimeout.Refreshed calls := by
  refine ⟨_, MainLoop.add_empty h .idle, rfl, rfl, hcalls, ?_⟩
  intro hremoved
  cases hremoved

theorem destroyingIdle_refreshed (h : s.loop.sources = []) (hcalls : calls.filterMap Caller.source? = []) :
    s.destroyingIdle.Refreshed calls := by
  refine ⟨_, MainLoop.add_empty h (.timeout s.refreshPeriod), rfl, rfl, hcalls, ?_⟩
  intro hremoved
  cases hremoved

theorem notified_refreshed (h : s.loop.sources = []) (hcalls : calls.filterMap Caller.source? = [])
    (kind : Refresh) : (s.notified (some kind)).Refreshed calls := by
  cases kind with
  | timeout interval => exact destroyingTimeout_refreshed h hcalls
  | idle => exact destroyingIdle_refreshed h hcalls

theorem notified_frame (s : Gui) (gone : Option Refresh) : (s.notified gone).alreadyUpdating = s.alreadyUpdating ∧
    (s.notified gone).updates = s.updates ∧ (s.notified gone).stopRequested = s.stopRequested ∧
    (s.notified gone).capture = s.capture ∧ (s.notified gone).closings = s.closings ∧
    (s.notified gone).controls = s.controls := by
  cases gone with
  | none => exact ⟨rfl, rfl, rfl, rfl, rfl, rfl⟩
  | some kind =>
      cases kind with
      | timeout interval => exact ⟨rfl, rfl, rfl, rfl, rfl, rfl⟩
      | idle => exact ⟨rfl, rfl, rfl, rfl, rfl, rfl⟩

theorem Guarded.notified (h : s.Guarded) (gone : Option Refresh) : (s.notified gone).Guarded := by
  obtain ⟨hupdating, hupdates, hrequested, hcapture, hclosings, _⟩ := notified_frame s gone
  constructor
  · rw [hupdating, hupdates]
    exact h.updating
  · rw [hupdates]
    exact h.single
  · rw [hrequested, hcapture]
    exact h.requested
  · rw [hclosings]
    exact h.closings

theorem finish_refreshed {id : Nat} (h : s.Refreshed (.source id :: calls)) (again : Bool) :
    (({ s with loop := (s.loop.finish id again).2 } : Gui).notified (s.loop.finish id again).1).Refreshed calls := by
  obtain ⟨source, hsources, hid, hkind, hcalls, _⟩ := h
  have hrunning : source.running = true := by
    by_contra hrests
    rw [if_neg hrests] at hcalls
    cases hcalls
  rw [if_pos hrunning] at hcalls
  obtain ⟨hsame, hrest⟩ := List.cons.inj hcalls
  rw [MainLoop.finish, MainLoop.find_single hsources, if_pos hsame.symm]
  dsimp only
  split
  · exact notified_refreshed (MainLoop.drop_single hsources hsame.symm) hrest source.kind
  next hstays =>
    refine ⟨{ source with running := false }, MainLoop.update_single hsources hsame.symm _, hid, hkind, hrest, ?_⟩
    intro hremoved
    exact absurd (Or.inl hremoved) hstays

/-- A source that is removed is replaced, at once or when it returns. -/
theorem Refreshed.timeoutChanged (h : s.Refreshed calls) : s.timeoutChanged.Refreshed calls := by
  obtain ⟨source, hsources, hid, hkind, hcalls, hremoved⟩ := h
  rw [Gui.timeoutChanged, MainLoop.remove, MainLoop.find_single hsources, if_pos hid]
  dsimp only
  split
  · exact ⟨source, hsources, hid, hkind, hcalls, hremoved⟩
  · split
    next hrunning =>
      exact ⟨{ source with removed := true }, MainLoop.update_single hsources hid _, hid, hkind, hcalls,
        fun _ => hrunning⟩
    next hrests =>
      rw [if_neg hrests] at hcalls
      exact notified_refreshed (MainLoop.drop_single hsources hid) hcalls source.kind

/-! ### Statuses of the capture -/

theorem startCapture_status (capture : Capture) : capture.startCapture.captureStatus = .play := by
  rw [Capture.startCapture]
  split
  next hplay => exact hplay
  · split
    · rfl
    · rfl

theorem endOfFile_status {capture : Capture} (h : capture.captureStatus ≠ .stop) :
    capture.endOfFile.captureStatus ≠ .stop := by
  rw [Capture.endOfFile, if_neg h]
  exact Status.noConfusion

theorem pauseCapture_status {capture : Capture} (h : capture.captureStatus ≠ .stop) :
    capture.pauseCapture.captureStatus ≠ .stop := by
  rw [Capture.pauseCapture]
  split
  · exact h
  · exact Status.noConfusion

/-! ### Calls that return -/

/-- Between two calls of the main loop. -/
structure Settled (s : Gui) : Prop where
  refreshed : s.Refreshed s.updates
  guarded : s.Guarded

theorem Settled.timeoutChanged (h : s.Settled) : s.timeoutChanged.Settled := by
  constructor
  · have hupdates : s.timeoutChanged.updates = s.updates := (notified_frame _ _).2.1
    rw [hupdates]
    exact h.refreshed.timeoutChanged
  · rw [Gui.timeoutChanged]
    apply Guarded.notified
    exact ⟨h.guarded.updating, h.guarded.single, h.guarded.requested, h.guarded.closings⟩

theorem startStopped_settled (h : s.Settled) (env : StartEnv) : (s.startStopped env).Settled := by
  rw [startStopped]
  split
  · exact h
  · split
    · exact h
    · refine ⟨h.refreshed, ⟨h.guarded.updating, h.guarded.single, fun _ => ?_, h.guarded.closings⟩⟩
      rw [startCapture_status]
      exact Status.noConfusion

/-- Whatever `update_diagram` was called by, its return leaves nothing open. -/
theorem returned_settled {caller : Caller} (hrefreshed : s.Refreshed (caller :: s.updates)) (hguarded : s.Guarded)
    (again : Bool) : (returned caller again s).Settled := by
  induction caller generalizing again with
  | source id =>
      rw [returned]
      dsimp only
      refine ⟨?_, Guarded.notified ?_ _⟩
      · rw [(notified_frame _ _).2.1]
        exact finish_refreshed hrefreshed again
      · exact ⟨hguarded.updating, hguarded.single, hguarded.requested, hguarded.closings⟩
  | sizeAllocate => exact ⟨hrefreshed, hguarded⟩
  | stopMenuitem => exact ⟨hrefreshed, hguarded⟩
  | stopUpdate caller ih => exact ih hrefreshed true
  | stopStart env => exact startStopped_settled ⟨hrefreshed, hguarded⟩ env

theorem guiEofCapture_frame (s : Gui) : ∃ controls, s.guiEofCapture = { s with controls } := by
  rw [guiEofCapture]
  split
  · exact ⟨s.controls, rfl⟩
  · exact ⟨_, rfl⟩

theorem updateDiagram_settled {caller : Caller} (hrefreshed : s.Refreshed (caller :: s.updates))
    (hguarded : s.Guarded) : (updateDiagram caller s).Settled := by
  have hredraws : (if s.alreadyUpdating then returned caller false s
      else { s with alreadyUpdating := true, updates := caller :: s.updates }).Settled := by
    split
    · exact returned_settled hrefreshed hguarded false
    next hrests =>
      have hupdates : s.updates = [] := by
        have hupdating := hguarded.updating
        rw [eq_false_of_ne_true hrests] at hupdating
        apply List.isEmpty_iff.mp
        simpa using hupdating.symm
      refine ⟨hrefreshed, ⟨rfl, ?_, hguarded.requested, hguarded.closings⟩⟩
      rw [List.length_cons, hupdates]
      exact Nat.le_refl 1
  rw [updateDiagram]
  split
  · exact returned_settled hrefreshed hguarded false
  · obtain ⟨controls, heof⟩ := s.guiEofCapture_frame
    rw [heof]
    apply returned_settled
    · exact hrefreshed
    · exact ⟨hguarded.updating, hguarded.single, hguarded.requested, hguarded.closings⟩
  · exact hredraws

/-- A capture is closed only when no update is redrawing. -/
theorem guiStopCapture_settled {caller : Caller} (hcaller : ∀ id, caller ≠ .source id)
    (hrefreshed : s.Refreshed (caller :: s.updates)) (hguarded : s.Guarded) :
    (guiStopCapture caller s).Settled := by
  rw [guiStopCapture]
  dsimp only
  split
  · apply returned_settled
    · exact hrefreshed
    · refine ⟨hguarded.updating, hguarded.single, fun hrequested => ?_, hguarded.closings⟩
      cases hrequested
  next hopen =>
    split
    · have hrequested : Guarded { s with stopRequested := true } :=
        ⟨hguarded.updating, hguarded.single, fun _ => hopen, hguarded.closings⟩
      cases caller with
      | source id => exact absurd rfl (hcaller id)
      | sizeAllocate => exact ⟨hrefreshed, hrequested⟩
      | stopMenuitem => exact ⟨hrefreshed, hrequested⟩
      | stopUpdate caller => exact returned_settled (s := { s with stopRequested := true }) hrefreshed hrequested true
      | stopStart env => exact ⟨hrefreshed, hrequested⟩
    next hrests =>
      apply updateDiagram_settled
      · exact hrefreshed
      · refine ⟨hguarded.updating, hguarded.single, fun hrequested => ?_, ?_⟩
        · cases hrequested
        · intro n hn
          obtain rfl | hn := List.mem_cons.mp hn
          · have hupdating := hguarded.updating
            rw [eq_false_of_ne_true hrests] at hupdating
            apply List.length_eq_zero_iff.mpr
            apply List.isEmpty_iff.mp
            simpa using hupdating.symm
          · exact hguarded.closings n hn

theorem redrawn_settled (h : s.Settled) {diffms : Float} {s' : Gui} (hs' : s.redrawn diffms = some s') :
    s'.Settled := by
  rw [redrawn] at hs'
  split at hs'
  · cases hs'
  next caller updates hupdates =>
    have hsingle := h.guarded.single
    rw [hupdates, List.length_cons] at hsingle
    have hlast : updates = [] := List.length_eq_zero_iff.mp (by omega)
    have hrefreshed : Refreshed { s with updates, alreadyUpdating := false } (caller :: updates) := by
      rw [← hupdates]
      exact h.refreshed
    have hguarded : Guarded { s with updates, alreadyUpdating := false } := by
      subst hlast
      exact ⟨rfl, Nat.zero_le 1, h.guarded.requested, h.guarded.closings⟩
    dsimp only at hs'
    split at hs'
    · rw [← Option.some.inj hs']
      exact returned_settled hrefreshed hguarded false
    · split at hs'
      · rw [← Option.some.inj hs']
        exact returned_settled hrefreshed hguarded false
      · split at hs'
        · rw [← Option.some.inj hs']
          exact guiStopCapture_settled (fun id hid => Caller.noConfusion hid) hrefreshed hguarded
        · rw [← Option.some.inj hs']
          exact returned_settled hrefreshed hguarded true

end Gui

/-! ### Runs -/

open Gui

theorem initial_settled (capture : Capture) (refreshPeriod : UInt32) (controls : Controls) :
    (initial capture refreshPeriod controls).Settled := by
  constructor
  · exact destroyingIdle_refreshed rfl rfl
  · refine ⟨rfl, Nat.zero_le 1, fun hrequested => ?_, fun n hn => ?_⟩
    · cases hrequested
    · cases hn

theorem step_settled {s s' : Gui} (h : s.Settled) {event : Event} (hs' : step s event = some s') : s'.Settled := by
  cases event with
  | refresh id =>
      obtain ⟨loop, hcall, rfl⟩ := Option.map_eq_some_iff.mp hs'
      obtain ⟨source, hsources, hid, hkind, hcalls, _⟩ := h.refreshed
      obtain ⟨rfl, hrests, hremoved, hloop⟩ := MainLoop.call_single hsources hcall
      rw [if_neg (by rw [hrests]; exact Bool.false_ne_true)] at hcalls
      apply updateDiagram_settled
      · refine ⟨_, hloop, hid, hkind, congrArg (source.id :: ·) hcalls, fun _ => rfl⟩
      · exact ⟨h.guarded.updating, h.guarded.single, h.guarded.requested, h.guarded.closings⟩
  | sizeAllocate =>
      rw [← Option.some.inj hs']
      exact updateDiagram_settled h.refreshed h.guarded
  | redrawn diffms => exact redrawn_settled h hs'
  | periodChanged newperiod =>
      rw [← Option.some.inj hs', changeRefreshPeriod]
      apply Settled.timeoutChanged
      exact ⟨h.refreshed, ⟨h.guarded.updating, h.guarded.single, h.guarded.requested, h.guarded.closings⟩⟩
  | start env =>
      rw [← Option.some.inj hs', guiStartCapture]
      split
      · exact guiStopCapture_settled (fun id hid => Caller.noConfusion hid) h.refreshed h.guarded
      · exact startStopped_settled h env
  | pause removed =>
      rw [step] at hs'
      split at hs'
      · rw [← Option.some.inj hs', guiPauseCapture]
        split
        · exact h
        · refine ⟨h.refreshed, ⟨h.guarded.updating, h.guarded.single, fun hrequested => ?_, h.guarded.closings⟩⟩
          exact pauseCapture_status (h.guarded.requested hrequested)
      · cases hs'
  | stop =>
      rw [← Option.some.inj hs']
      exact guiStopCapture_settled (fun id hid => Caller.noConfusion hid) h.refreshed h.guarded
  | endOfFile =>
      rw [← Option.some.inj hs']
      refine ⟨h.refreshed, ⟨h.guarded.updating, h.guarded.single, fun hrequested => ?_, h.guarded.closings⟩⟩
      exact endOfFile_status (h.guarded.requested hrequested)

/-- **One refresh at a time.** In every run of the refresh, the size allocate, the start, pause and stop buttons,
the end of the file and changes of the period, there is one refresh source, which is running just when the update
that redraws came from it; one update redraws at most; and no capture has been closed under an update. -/
theorem run_settled {capture : Capture} {refreshPeriod : UInt32} {controls : Controls}
    {past : List (Gui × Event)} {s : Gui} (h : (machine capture refreshPeriod controls).Run past s) :
    (∃ source, s.loop.sources = [source] ∧ source.id = s.diagramTimeout ∧ source.kind.isIdle = s.isIdle ∧
      (source.running = true ↔ ∃ caller ∈ s.updates, caller.source? = some source.id)) ∧
    s.updates.length ≤ 1 ∧ (s.alreadyUpdating = true ↔ s.updates ≠ []) ∧
    (s.stopRequested = true → s.capture.captureStatus ≠ .stop) ∧ ∀ n ∈ s.closings, n = 0 := by
  have hsettled : s.Settled := by
    induction h with
    | start => exact initial_settled capture refreshPeriod controls
    | step _ event hstep ih => exact step_settled ih hstep
  obtain ⟨⟨source, hsources, hid, hkind, hcalls, _⟩, hguarded⟩ := hsettled
  refine ⟨⟨source, hsources, hid, hkind, ?_⟩, hguarded.single, ?_, hguarded.requested, hguarded.closings⟩
  · rw [← List.mem_filterMap, hcalls]
    cases source.running
    · simp
    · simp
  · rw [hguarded.updating]
    simp

/-- A capture that runs, and what comes while it is refreshed: the stop button, a new period, a new size. -/
def playing : Machine Gui Event := machine (Capture.initial ⟨10, 0⟩).startCapture 100 ⟨false, true, true, false⟩

def refreshEvents : List Event := [.refresh 1, .stop, .periodChanged 50, .sizeAllocate]

theorem run_settled_stopped : ∃ past s, playing.Run past s ∧ past.map Prod.snd = refreshEvents ∧
    s.stopRequested = true ∧ s.capture.captureStatus ≠ .stop ∧ s.updates.length = 1 ∧
    ∃ source, s.loop.sources = [source] ∧ source.removed = true ∧
      ∃ caller ∈ s.updates, caller.source? = some source.id := by
  have hrefreshed : (playing.stepAll playing.start refreshEvents).any (fun s => s.stopRequested = true ∧
      s.updates.length = 1 ∧ ∀ source ∈ s.loop.sources, source.running = true ∧ source.removed = true) = true := by
    decide +kernel
  obtain ⟨s, hs, hs'⟩ := (Option.any_eq_true _ _).mp hrefreshed
  obtain ⟨hrequested, hlength, hrunning⟩ := of_decide_eq_true hs'
  obtain ⟨past, hrun, hevents⟩ := Machine.Run.start.stepAll hs
  obtain ⟨⟨source, hsources, _, _, hcaller⟩, _, _, hopen, _⟩ := run_settled hrun
  obtain ⟨hsource, hremoved⟩ := hrunning source (by rw [hsources]; exact List.mem_singleton_self source)
  exact ⟨past, s, hrun, hevents, hrequested, hopen hrequested, hlength, source, hsources, hremoved,
    hcaller.mp hsource⟩

end EtherApe.Menus
