import EtherApe.Replay

/-!
# The timers of a replay

Removing the timer runs its destroy notify, which arms a new one as long as the status is still PLAY:
the timer outlives a pause, and `stop_capture` does not remove it at all. As long as it is pending, a
start adds a second one.
-/

namespace EtherApe

namespace Replay

variable {delays : Delays} {s s' : Replay} {e : Event} {id : Nat}

/-- At most one timer is pending, and `capture_source` denotes it. -/
def SingleTimer (s : Replay) : Prop := s.timeouts.Only s.captureSource

/-- A start that is not ignored finds no timer. -/
def StartsIdle (s : Replay) : Event → Prop
  | .startCapture => s.captureStatus = .play ∨ s.timeouts.pending = []
  | .pauseCapture => True
  | .stopCapture => True
  | .forceNextPacket => True
  | .fire _ _ => True

/-! ### Single steps -/

@[simp] theorem getOfflinePacket_timeouts (result : PcapResult) :
    (s.getOfflinePacket delays result).timeouts = s.timeouts := by
  unfold getOfflinePacket
  split
  · rfl
  · cases result <;> rfl

@[simp] theorem getOfflinePacket_captureSource (result : PcapResult) :
    (s.getOfflinePacket delays result).captureSource = s.captureSource := by
  unfold getOfflinePacket
  split
  · rfl
  · cases result <;> rfl

/-- The destroy notify puts at most one timer in the place of the one that is taken out. -/
theorem SingleTimer.destroyTimeout (h : s.SingleTimer) (hid : s.timeouts.Pending id) :
    (s.destroyTimeout id).SingleTimer := by
  have hidle : (s.timeouts.remove id).pending = [] := Timeouts.Only.remove_pending h hid
  unfold Replay.destroyTimeout capTODestroy
  split
  · exact Timeouts.only_add hidle
  · exact Timeouts.only_of_idle hidle

theorem SingleTimer.gSourceRemove (h : s.SingleTimer) (id : Nat) :
    (s.gSourceRemove id).2.SingleTimer := by
  unfold Replay.gSourceRemove
  split
  next hid => exact h.destroyTimeout hid
  next => exact h

theorem SingleTimer.startCapture (h : s.SingleTimer) (hidle : StartsIdle s .startCapture) :
    s.startCapture.SingleTimer := by
  unfold Replay.startCapture
  split
  · exact h
  next hplay => exact Timeouts.only_add (hidle.resolve_left hplay)

theorem SingleTimer.pauseCapture (h : s.SingleTimer) : s.pauseCapture.SingleTimer := by
  have hremove := h.gSourceRemove s.captureSource
  unfold Replay.pauseCapture
  split
  · exact h
  · dsimp only
    split
    · exact hremove
    · exact hremove

theorem SingleTimer.stopCapture (h : s.SingleTimer) : s.stopCapture.SingleTimer := by
  unfold Replay.stopCapture
  split
  · exact h
  · exact h

theorem SingleTimer.forceNextPacket (h : s.SingleTimer) : s.forceNextPacket.SingleTimer := by
  unfold Replay.forceNextPacket
  split
  · exact SingleTimer.gSourceRemove (s := { s with msToNext := 0 }) h s.captureSource
  · exact h

theorem SingleTimer.fire (h : s.SingleTimer) (hid : s.timeouts.Pending id) (result : PcapResult) :
    ((s.getOfflinePacket delays result).destroyTimeout id).SingleTimer := by
  have hread : (s.getOfflinePacket delays result).SingleTimer := by
    unfold SingleTimer
    rwa [getOfflinePacket_timeouts, getOfflinePacket_captureSource]
  exact hread.destroyTimeout (by rwa [getOfflinePacket_timeouts])

/-- A start that leaves a single timer found none, unless it was ignored. -/
theorem startsIdle_of_single (h : s.startCapture.SingleTimer) : StartsIdle s .startCapture := by
  unfold Replay.startCapture at h
  split at h
  next hplay => exact Or.inl hplay
  next => exact Or.inr (Timeouts.Only.idle_of_add h)

/-! ### Runs -/

theorem singleTimer_characterized :
    (machine delays).Characterizes SingleTimer SingleTimer StartsIdle where
  start := Timeouts.only_of_idle rfl
  sound h := h
  step {s s' e} h hstep hidle := by
    change step delays s e = some s' at hstep
    cases e with
    | startCapture =>
        obtain rfl := Option.some.inj hstep
        exact h.startCapture hidle
    | pauseCapture =>
        obtain rfl := Option.some.inj hstep
        exact h.pauseCapture
    | stopCapture =>
        obtain rfl := Option.some.inj hstep
        exact h.stopCapture
    | forceNextPacket =>
        obtain rfl := Option.some.inj hstep
        exact h.forceNextPacket
    | fire id result =>
        obtain ⟨hid, hs'⟩ := Option.ite_none_right_eq_some.mp hstep
        obtain rfl := Option.some.inj hs'
        exact h.fire hid result
  needed {s s' e} _ hstep hsingle := by
    change step delays s e = some s' at hstep
    cases e with
    | startCapture =>
        obtain rfl := Option.some.inj hstep
        exact startsIdle_of_single hsingle
    | pauseCapture => trivial
    | stopCapture => trivial
    | forceNextPacket => trivial
    | fire _ _ => trivial

/-- **Timers.** Throughout a run at most one timer is pending, the one that `capture_source` denotes,
just when no start adds a timer while one is pending. -/
theorem run_single_timer_iff {past : List (Replay × Event)} (h : (machine delays).Run past s) :
    Machine.Always SingleTimer past s ↔ ∀ x ∈ past, StartsIdle x.1 x.2 :=
  singleTimer_characterized.always_iff h

/-- The delays of a replay for which no bounds were given. -/
def anyDelays : Delays := ⟨0, 2 ^ 64 - 1⟩

theorem step_fire {i : Nat} {result : PcapResult} (hi : s.timeouts.Pending i) :
    (machine delays).step s (.fire i result) =
      some ((s.getOfflinePacket delays result).destroyTimeout i) := if_pos hi

def onePacket : PcapPacket := ⟨⟨1, 0⟩, 60, 60, fun _ => 0⟩

/-- The state after the first timer of a replay has read a packet. -/
def onePacketRead : Replay :=
  (initial.startCapture.getOfflinePacket anyDelays (.packet onePacket)).destroyTimeout 1

theorem run_onePacketRead : (machine anyDelays).Run [(initial, Event.startCapture),
    (initial.startCapture, .fire 1 (.packet onePacket))] onePacketRead :=
  (Machine.Run.start.step Event.startCapture rfl).step _ (step_fire (by decide))

/-- The state after a pause in which the timer has fired once more. -/
def pausedAndFired : Replay :=
  (onePacketRead.pauseCapture.getOfflinePacket anyDelays (.packet onePacket)).destroyTimeout 3

theorem run_single_timer_iff_restarted : ∃ past, (machine anyDelays).Run past pausedAndFired.startCapture ∧
    pausedAndFired.timeouts.pending = [] ∧
    pausedAndFired.startCapture.timeouts.Pending 4 ∧
    Machine.Always SingleTimer past pausedAndFired.startCapture := by
  have hrun : (machine anyDelays).Run _ pausedAndFired.startCapture :=
    ((run_onePacketRead.step .pauseCapture rfl).step _ (step_fire (by decide))).step .startCapture rfl
  refine ⟨_, hrun, by decide, by decide, (run_single_timer_iff hrun).mpr fun x hx => ?_⟩
  simp only [List.cons_append, List.nil_append, List.mem_cons, List.not_mem_nil, or_false] at hx
  rcases hx with rfl | rfl | rfl | rfl | rfl
  · exact Or.inr rfl
  · trivial
  · trivial
  · trivial
  · exact Or.inr rfl

/-- A pause and a start before the timer has fired leave two timers. -/
theorem pause_start_two_timers : ¬∀ past s, (machine anyDelays).Run past s →
    Machine.Always SingleTimer past s := by
  intro h
  have hrun : (machine anyDelays).Run _ initial.startCapture.pauseCapture.startCapture :=
    .step (.step (.step .start .startCapture rfl) .pauseCapture rfl) .startCapture rfl
  have hlen : initial.startCapture.pauseCapture.startCapture.timeouts.pending.length ≤ 1 :=
    (h _ _ hrun).2.1
  exact absurd hlen (by decide)

end Replay

end EtherApe
