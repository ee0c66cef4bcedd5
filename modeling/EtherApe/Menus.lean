import EtherApe.Capture
import EtherApe.Lib.MainLoop
import EtherApe.Lib.Runs
import EtherApe.Preferences

/-!
# The refresh of the diagram and the buttons

What `menus.c` and `diagram.c` do when the user starts, pauses and stops the capture while the diagram is
refreshed. The refresh is called by a timeout or an idle function, which replace each other, and yields to
the main loop while it redraws; then anything may happen, other calls of the refresh among it. The calls that
are redrawing are kept on a stack, each with what called it. What is drawn is left out, and so are the menus
that stop and start the capture themselves, to open a file or to change the interface or the mode.
-/

namespace EtherApe.Menus

/-- The two sources that call `update_diagram`. -/
inductive Refresh
  | timeout (interval : UInt32)
  | idle

def Refresh.isIdle : Refresh → Bool
  | timeout _ => false
  | idle => true

/-- What `init_capture` returns, and whether there is a file to be read. -/
structure StartEnv where
  initialized : Bool
  inputFile : Bool

/-- What a call of `update_diagram` returns to. `gui_stop_capture` calls it too, and is itself called by the
stop button, at the end of another update, or to start again. -/
inductive Caller
  | source (id : Nat)
  | sizeAllocate
  | stopMenuitem
  | stopUpdate (caller : Caller)
  | stopStart (env : StartEnv)

/-- The sensitivity of the buttons and of their menu items. -/
structure Controls where
  start : Bool
  stop : Bool
  pause : Bool
  next : Bool
deriving DecidableEq

/-- The state of the program between two calls of the main loop. The last component is not in the program: for
every capture that was closed, how many updates were redrawing then. -/
structure Gui where
  capture : Capture
  alreadyUpdating : Bool
  stopRequested : Bool
  isIdle : Bool
  diagramTimeout : Nat
  refreshPeriod : UInt32
  loop : MainLoop Refresh
  controls : Controls
  updates : List Caller
  closings : List Nat

namespace Gui

/-! ### The refresh source -/

def destroyingTimeout (s : Gui) : Gui :=
  let (id, loop) := s.loop.add .idle
  { s with diagramTimeout := id, loop, isIdle := true }

def destroyingIdle (s : Gui) : Gui :=
  let (id, loop) := s.loop.add (.timeout s.refreshPeriod)
  { s with diagramTimeout := id, loop, isIdle := false }

/-- The destroy notify of a source that is gone, if one is. -/
def notified (s : Gui) : Option Refresh → Gui
  | none => s
  | some (.timeout _) => s.destroyingTimeout
  | some .idle => s.destroyingIdle

def timeoutChanged (s : Gui) : Gui :=
  let (gone, loop) := s.loop.remove s.diagramTimeout
  { s with loop }.notified gone

def changeRefreshPeriod (newperiod : UInt32) (s : Gui) : Gui :=
  { s with refreshPeriod := newperiod }.timeoutChanged

/-! ### Starting -/

/-- The end of `gui_start_capture`, behind the stop of a capture that has come to its end. -/
def startStopped (env : StartEnv) (s : Gui) : Gui :=
  if s.capture.captureStatus = .stop ∧ env.initialized = false then s
  else if s.capture.captureStatus = .play then s
  else
    { s with
      capture := s.capture.startCapture
      controls := ⟨false, true, true, env.inputFile⟩ }

def guiEofCapture (s : Gui) : Gui :=
  if s.capture.captureStatus = .stop then s
  else { s with controls := ⟨true, s.controls.stop, false, false⟩ }

/-- `pause_capture` fails when there is no source to be removed. -/
def guiPauseCapture (removed : Bool) (s : Gui) : Gui :=
  if s.capture.captureStatus = .play ∧ removed = false then s
  else
    { s with
      capture := s.capture.pauseCapture
      controls := ⟨true, true, false, false⟩ }

/-! ### Updating and stopping -/

/-- `update_diagram` returns. -/
def returned : Caller → Bool → Gui → Gui
  | .source id, again, s =>
      let (gone, loop) := s.loop.finish id again
      { s with loop }.notified gone
  | .sizeAllocate, _, s => s
  | .stopMenuitem, _, s => s
  | .stopUpdate caller, _, s => returned caller true s
  | .stopStart env, _, s => s.startStopped env

/-- Up to the guard of `update_diagram`. What gets past it redraws. -/
def updateDiagram (caller : Caller) (s : Gui) : Gui :=
  match s.capture.captureStatus with
  | .pause => returned caller false s
  | .capEof => returned caller false s.guiEofCapture
  | _ =>
      if s.alreadyUpdating then returned caller false s
      else { s with alreadyUpdating := true, updates := caller :: s.updates }

/-- `gui_stop_capture` returns `FALSE`. -/
def stopFailed : Caller → Gui → Gui
  | .stopUpdate caller, s => returned caller true s
  | _, s => s

def guiStopCapture (caller : Caller) (s : Gui) : Gui :=
  let s := { s with stopRequested := false }
  if s.capture.captureStatus = .stop then returned caller true s
  else if s.alreadyUpdating then stopFailed caller { s with stopRequested := true }
  else
    updateDiagram caller
      { s with
        capture := s.capture.stopCapture
        controls := ⟨true, false, false, false⟩
        closings := s.updates.length :: s.closings }

def guiStartCapture (env : StartEnv) (s : Gui) : Gui :=
  if s.capture.captureStatus = .capEof then guiStopCapture (.stopStart env) s else s.startStopped env

/-- The end of `update_diagram`, with the time since the last redraw. -/
def redrawn (diffms : Float) (s : Gui) : Option Gui :=
  match s.updates with
  | [] => none
  | caller :: updates =>
      let s := { s with updates, alreadyUpdating := false }
      if s.isIdle = false ∧ diffms > s.refreshPeriod.toFloat * 1.2 then some (returned caller false s)
      else if s.isIdle = true ∧ diffms < s.refreshPeriod.toFloat then some (returned caller false s)
      else if s.stopRequested then some (guiStopCapture (.stopUpdate caller) s)
      else some (returned caller true s)

end Gui

/-! ### Runs -/

/-- What the main loop calls, in `main` or while the diagram redraws. -/
inductive Event
  | refresh (id : Nat)
  | sizeAllocate
  | redrawn (diffms : Float)
  | periodChanged (newperiod : UInt32)
  | start (env : StartEnv)
  | pause (removed : Bool)
  | stop
  | endOfFile

/-- One call. A button that is not sensitive cannot be pressed; that matters for the pause button. -/
def step (s : Gui) : Event → Option Gui
  | .refresh id => (s.loop.call id).map fun loop => { s with loop }.updateDiagram (.source id)
  | .sizeAllocate => some (s.updateDiagram .sizeAllocate)
  | .redrawn diffms => s.redrawn diffms
  | .periodChanged newperiod => some (s.changeRefreshPeriod newperiod)
  | .start env => some (s.guiStartCapture env)
  | .pause removed => if s.controls.pause then some (s.guiPauseCapture removed) else none
  | .stop => some (s.guiStopCapture .stopMenuitem)
  | .endOfFile => some { s with capture := s.capture.endOfFile }

/-- The state before `main` starts the capture, with the refresh set up by `destroying_idle`. -/
def initial (capture : Capture) (refreshPeriod : UInt32) (controls : Controls) : Gui :=
  Gui.destroyingIdle
    { capture
      alreadyUpdating := false
      stopRequested := false
      isIdle := false
      diagramTimeout := 0
      refreshPeriod
      loop := MainLoop.empty
      controls
      updates := []
      closings := [] }

def machine (capture : Capture) (refreshPeriod : UInt32) (controls : Controls) : Machine Gui Event where
  start := initial capture refreshPeriod controls
  step := step

end EtherApe.Menus
