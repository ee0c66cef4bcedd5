import EtherApe.Replay.Timers

/-!
# The packets of a replay

A timer hands over the packet that the timer before it has read, and then reads the next one. The
pointer to the packet is only replaced by the next packet, so after the end of the file or an error a
further timer hands the same packet over again.
-/

namespace EtherApe

namespace Replay

variable {delays : Delays} {s s' : Replay} {e : Event} {results : List PcapResult}

/-- The packets handed over are those delivered, each once and in their order, but for the last one,
which may still wait. -/
def OnceInOrder (s : Replay) : Prop :=
  s.acquired <+: delivered s.results ∧ (delivered s.results).length ≤ s.acquired.length + 1

/-- The last answer was a packet. -/
def LastDelivered (results : List PcapResult) : Prop := ∃ p, results.getLast? = some (.packet p)

/-- A timer that reads on finds a packet just read, or no packet was delivered yet. -/
def FiresFresh (s : Replay) : Event → Prop
  | .startCapture => True
  | .pauseCapture => True
  | .stopCapture => True
  | .forceNextPacket => True
  | .fire _ _ => s.captureStatus = .stop ∨ delivered s.results = [] ∨ LastDelivered s.results

/-! ### Delivered packets -/

@[simp] theorem delivered_nil : delivered [] = [] := rfl

@[simp] theorem delivered_packet (p : PcapPacket) :
    delivered (results ++ [.packet p]) =
      delivered results ++ [(p, (delivered results).length)] := by
  simp [delivered, List.zipIdx_append, PcapResult.packet?]

@[simp] theorem delivered_endOfFile : delivered (results ++ [.endOfFile]) = delivered results := by
  rw [delivered, List.filterMap_append, List.filterMap_cons_none rfl, List.filterMap_nil,
    List.append_nil, delivered]

@[simp] theorem delivered_error : delivered (results ++ [.error]) = delivered results := by
  rw [delivered, List.filterMap_append, List.filterMap_cons_none rfl, List.filterMap_nil,
    List.append_nil, delivered]

theorem number_lt {x : Delivered} (h : x ∈ delivered results) : x.2 < (delivered results).length := by
  have hlt := List.snd_lt_of_mem_zipIdx h
  rw [delivered, List.length_zipIdx]
  omega

theorem lastDelivered_concat (r : PcapResult) :
    LastDelivered (results ++ [r]) ↔ ∃ p, r = .packet p := by
  simp [LastDelivered]

/-! ### The packet in hand -/

/-- What the statics and the record say as long as the timers fire on fresh packets. -/
structure Kept (s : Replay) : Prop where
  pkt : s.pkt = (delivered s.results).getLast?
  stopped : s.captureStatus = .stop → s.results = []
  waiting : LastDelivered s.results → s.acquired = (delivered s.results).dropLast
  passed : ¬LastDelivered s.results → s.acquired = delivered s.results

theorem Kept.onceInOrder (h : s.Kept) : s.OnceInOrder := by
  unfold OnceInOrder
  by_cases hlast : LastDelivered s.results
  · rw [h.waiting hlast]
    refine ⟨List.dropLast_prefix _, ?_⟩
    rw [List.length_dropLast]
    omega
  · rw [h.passed hlast]
    exact ⟨List.prefix_refl _, Nat.le_succ _⟩

theorem Kept.of_nil (hpkt : s.pkt = none) (hresults : s.results = []) (hacquired : s.acquired = []) :
    s.Kept := by
  refine ⟨?_, fun _ => hresults, fun hlast => ?_, fun _ => ?_⟩
  · rw [hpkt, hresults]
    rfl
  · rw [hresults] at hlast
    obtain ⟨p, hp⟩ := hlast
    cases hp
  · rw [hacquired, hresults]
    rfl

theorem Kept.of_record (h : s.Kept) (hpkt : s'.pkt = s.pkt) (hresults : s'.results = s.results)
    (hacquired : s'.acquired = s.acquired)
    (hstatus : s'.captureStatus = .stop → s.captureStatus = .stop) : s'.Kept := by
  refine ⟨?_, fun hstop => ?_, ?_, ?_⟩
  · rw [hpkt, hresults]
    exact h.pkt
  · rw [hresults]
    exact h.stopped (hstatus hstop)
  · rw [hresults, hacquired]
    exact h.waiting
  · rw [hresults, hacquired]
    exact h.passed

@[simp] theorem destroyTimeout_acquired (i : Nat) :
    (s.destroyTimeout i).acquired = s.acquired := by
  unfold Replay.destroyTimeout capTODestroy
  split <;> rfl

@[simp] theorem destroyTimeout_results (i : Nat) : (s.destroyTimeout i).results = s.results := by
  unfold Replay.destroyTimeout capTODestroy
  split <;> rfl

theorem Kept.destroyTimeout (h : s.Kept) (id : Nat) : (s.destroyTimeout id).Kept := by
  unfold Replay.destroyTimeout capTODestroy
  split
  · exact h.of_record rfl rfl rfl fun hstop => hstop
  · exact h.of_record rfl rfl rfl fun hstop => hstop

theorem Kept.gSourceRemove (h : s.Kept) (id : Nat) : (s.gSourceRemove id).2.Kept := by
  unfold Replay.gSourceRemove
  split
  · exact h.destroyTimeout id
  · exact h

theorem Kept.startCapture (h : s.Kept) : s.startCapture.Kept := by
  unfold Replay.startCapture
  split
  · exact h
  · exact h.of_record rfl rfl rfl fun hstop => Status.noConfusion hstop

theorem Kept.pauseCapture (h : s.Kept) : s.pauseCapture.Kept := by
  have hremove := h.gSourceRemove s.captureSource
  unfold Replay.pauseCapture
  split
  · exact h
  · dsimp only
    split
    · exact hremove.of_record rfl rfl rfl fun hstop => Status.noConfusion hstop
    · exact hremove

theorem Kept.stopCapture (h : s.Kept) : s.stopCapture.Kept := by
  unfold Replay.stopCapture
  split
  · exact h
  · exact Kept.of_nil rfl rfl rfl

theorem Kept.forceNextPacket (h : s.Kept) : s.forceNextPacket.Kept := by
  have hzero : { s with msToNext := 0 }.Kept := h.of_record rfl rfl rfl fun hstop => hstop
  unfold Replay.forceNextPacket
  split
  · exact hzero.gSourceRemove _
  · exact h

/-- The packet in hand is handed over, and after it all that were delivered are. -/
theorem Kept.packetAcquired (h : s.Kept)
    (hfresh : delivered s.results = [] ∨ LastDelivered s.results) :
    s.packetAcquired.acquired = delivered s.results := by
  change s.acquired ++ s.pkt.toList = _
  rw [h.pkt]
  by_cases hlast : LastDelivered s.results
  · rw [h.waiting hlast]
    rcases List.eq_nil_or_concat (delivered s.results) with hnil | ⟨before, x, hx⟩
    · rw [hnil]
      rfl
    · rw [hx, List.concat_eq_append, List.dropLast_concat, List.getLast?_concat]
      rfl
  · have hnil := hfresh.resolve_right hlast
    rw [h.passed hlast, hnil]
    rfl

theorem Kept.pcapNextEx (h : s.acquired = delivered s.results)
    (hpkt : s.pkt = (delivered s.results).getLast?) (hstatus : s.captureStatus ≠ .stop)
    (result : PcapResult) : (s.pcapNextEx delays result).Kept := by
  cases result with
  | packet p =>
      refine ⟨?_, fun hstop => absurd hstop hstatus, fun _ => ?_, fun hlast => ?_⟩
      · simp [Replay.pcapNextEx]
      · simpa [Replay.pcapNextEx] using h
      · exact absurd ((lastDelivered_concat _).mpr ⟨p, rfl⟩) hlast
  | endOfFile =>
      refine ⟨?_, fun hstop => Status.noConfusion hstop, fun hlast => ?_, fun _ => ?_⟩
      · simpa [Replay.pcapNextEx] using hpkt
      · obtain ⟨p, hp⟩ := (lastDelivered_concat _).mp hlast
        cases hp
      · simpa [Replay.pcapNextEx] using h
  | error =>
      refine ⟨?_, fun hstop => absurd hstop hstatus, fun hlast => ?_, fun _ => ?_⟩
      · simpa [Replay.pcapNextEx] using hpkt
      · obtain ⟨p, hp⟩ := (lastDelivered_concat _).mp hlast
        cases hp
      · simpa [Replay.pcapNextEx] using h

theorem Kept.getOfflinePacket (h : s.Kept) {id : Nat} {result : PcapResult}
    (hfresh : FiresFresh s (.fire id result)) : (s.getOfflinePacket delays result).Kept := by
  unfold Replay.getOfflinePacket
  split
  next hstop =>
    refine ⟨?_, h.stopped, h.waiting, h.passed⟩
    change none = (delivered s.results).getLast?
    rw [h.stopped hstop]
    rfl
  next hstop =>
    exact Kept.pcapNextEx (h.packetAcquired (hfresh.resolve_left hstop)) h.pkt hstop result

/-- A timer that fires on a packet that was handed over already breaks the order. -/
theorem Kept.firesFresh (h : s.Kept) {id : Nat} {result : PcapResult}
    (honce : (s.getOfflinePacket delays result).OnceInOrder) : FiresFresh s (.fire id result) := by
  by_contra hstale
  obtain ⟨hstop, hstale⟩ := not_or.mp hstale
  obtain ⟨hsome, hlast⟩ := not_or.mp hstale
  obtain ⟨before, x, hx⟩ : ∃ before x, delivered s.results = before ++ [x] :=
    ⟨_, _, (List.dropLast_append_getLast hsome).symm⟩
  have hnumber : x.2 < (delivered s.results).length := number_lt (by simp [hx])
  have hacquired : (s.getOfflinePacket delays result).acquired = delivered s.results ++ [x] := by
    rw [Replay.getOfflinePacket, if_neg hstop]
    have hpacket : s.packetAcquired.acquired = delivered s.results ++ [x] := by
      change s.acquired ++ s.pkt.toList = _
      rw [h.pkt, h.passed hlast, hx, List.getLast?_concat]
      rfl
    cases result <;> exact hpacket
  have hresults : (s.getOfflinePacket delays result).results = s.results ++ [result] := by
    rw [Replay.getOfflinePacket, if_neg hstop]
    cases result <;> rfl
  have hbegins := honce.1
  rw [hacquired, hresults] at hbegins
  cases result with
  | packet p =>
      rw [delivered_packet] at hbegins
      have hsame := (List.prefix_append_right_inj _).mp hbegins
      obtain rfl := (List.cons_prefix_cons.mp hsame).1
      exact absurd hnumber (lt_irrefl _)
  | endOfFile =>
      rw [delivered_endOfFile] at hbegins
      exact absurd hbegins.length_le (by simp)
  | error =>
      rw [delivered_error] at hbegins
      exact absurd hbegins.length_le (by simp)

/-! ### Runs -/

theorem onceInOrder_characterized :
    (machine delays).Characterizes Kept OnceInOrder FiresFresh where
  start := Kept.of_nil rfl rfl rfl
  sound h := h.onceInOrder
  step {s s' e} h hstep hfresh := by
    change step delays s e = some s' at hstep
    cases e with
    | startCapture =>
        obtain rfl := Option.some.inj hstep
        exact h.startCapture
    | pauseCapture =>
        obtain rfl := Option.some.inj hstep
        exact h.pauseCapture
    | stopCapture =>
        obtain rfl := Option.some.inj hstep
        exact h.stopCapture
    | forceNextPacket =>
        obtain rfl := Option.some.inj hstep
        exact h.forceNextPacket
    | fire i result =>
        obtain ⟨_, hs'⟩ := Option.ite_none_right_eq_some.mp hstep
        obtain rfl := Option.some.inj hs'
        exact (h.getOfflinePacket hfresh).destroyTimeout i
  needed {s s' e} h hstep honce := by
    change step delays s e = some s' at hstep
    cases e with
    | startCapture => trivial
    | pauseCapture => trivial
    | stopCapture => trivial
    | forceNextPacket => trivial
    | fire i result =>
        obtain ⟨_, hs'⟩ := Option.ite_none_right_eq_some.mp hstep
        obtain rfl := Option.some.inj hs'
        rw [OnceInOrder, destroyTimeout_acquired, destroyTimeout_results] at honce
        have hadded : (s.getOfflinePacket delays result).OnceInOrder := honce
        exact h.firesFresh hadded

/-- **Packets.** Throughout a run each packet of a capture is handed over once and in order just when no
timer fires after an answer that was no packet, once a packet was delivered. -/
theorem run_once_in_order_iff {past : List (Replay × Event)} (h : (machine delays).Run past s) :
    Machine.Always OnceInOrder past s ↔ ∀ x ∈ past, FiresFresh x.1 x.2 :=
  onceInOrder_characterized.always_iff h

/-- The state after three timers, the second and the third of which have handed over a packet each. -/
def twoPacketsAcquired : Replay :=
  (((onePacketRead.getOfflinePacket anyDelays (.packet onePacket)).destroyTimeout 2).getOfflinePacket anyDelays
    .endOfFile).destroyTimeout 3

theorem run_once_in_order_iff_twoPackets : ∃ past, (machine anyDelays).Run past twoPacketsAcquired ∧
    twoPacketsAcquired.acquired.map Prod.snd = [0, 1] ∧
    Machine.Always OnceInOrder past twoPacketsAcquired := by
  have hrun : (machine anyDelays).Run _ twoPacketsAcquired :=
    (run_onePacketRead.step _ (step_fire (by decide))).step _ (step_fire (by decide))
  refine ⟨_, hrun, by decide, (run_once_in_order_iff hrun).mpr fun x hx => ?_⟩
  simp only [List.cons_append, List.nil_append, List.mem_cons, List.not_mem_nil, or_false] at hx
  rcases hx with rfl | rfl | rfl | rfl
  · trivial
  · exact Or.inr (Or.inl rfl)
  · exact Or.inr (Or.inr ⟨_, rfl⟩)
  · exact Or.inr (Or.inr ⟨_, rfl⟩)

/-- The packet before an error is handed over again, as in a file that was cut off. -/
theorem error_hands_over_twice : ¬∀ past s, (machine anyDelays).Run past s →
    Machine.Always OnceInOrder past s := by
  intro h
  have herror : (machine anyDelays).Run _
      ((onePacketRead.getOfflinePacket anyDelays .error).destroyTimeout 2) :=
    run_onePacketRead.step _ (step_fire (by decide))
  exact absurd (h _ _ (herror.step (.fire 3 .error) (step_fire (by decide)))).2.1.length_le
    (by decide)

/-! ### Replays without errors -/

/-- No answer is an error, a start does not follow the end of the file without a stop, and it finds no
timer. -/
def Undisturbed (s : Replay) : Event → Prop
  | .startCapture => s.captureStatus ≠ .capEof ∧ StartsIdle s .startCapture
  | .pauseCapture => True
  | .stopCapture => True
  | .forceNextPacket => True
  | .fire _ result => result ≠ .error

/-- Until the end of the file all answers were packets, and from there on there is no timer. -/
structure ReadsOn (s : Replay) : Prop where
  single : s.SingleTimer
  ended : s.captureStatus = .capEof → s.timeouts.pending = []
  packets : s.captureStatus ≠ .capEof → s.results ≠ [] → LastDelivered s.results

theorem ReadsOn.open_of_pending (h : s.ReadsOn) {i : Nat} (hi : s.timeouts.Pending i) :
    s.captureStatus ≠ .capEof := by
  intro hended
  obtain ⟨t, ht, _⟩ := hi
  rw [h.ended hended] at ht
  cases ht

theorem ReadsOn.firesFresh (h : s.ReadsOn) {i : Nat} {result : PcapResult}
    (hi : s.timeouts.Pending i) : FiresFresh s (.fire i result) := by
  by_cases hnil : s.results = []
  · exact Or.inr (Or.inl (by rw [hnil, delivered_nil]))
  · exact Or.inr (Or.inr (h.packets (h.open_of_pending hi) hnil))

@[simp] theorem destroyTimeout_captureStatus (i : Nat) :
    (s.destroyTimeout i).captureStatus = s.captureStatus := by
  unfold Replay.destroyTimeout capTODestroy
  split <;> rfl

theorem ReadsOn.of_record (h : s.ReadsOn) (hsingle : s'.SingleTimer)
    (hresults : s'.results = s.results) (hopen : s.captureStatus ≠ .capEof)
    (hopen' : s'.captureStatus ≠ .capEof) : s'.ReadsOn := by
  refine ⟨hsingle, fun hended => absurd hended hopen', fun _ hsome => ?_⟩
  rw [hresults] at hsome ⊢
  exact h.packets hopen hsome

/-- Removing a timer makes a difference only before the end of the file. -/
theorem ReadsOn.gSourceRemove (h : s.ReadsOn) (i : Nat) : (s.gSourceRemove i).2.ReadsOn := by
  have hsingle := h.single.gSourceRemove i
  unfold Replay.gSourceRemove at hsingle ⊢
  split
  next hi =>
    rw [if_pos hi] at hsingle
    refine h.of_record hsingle (destroyTimeout_results i) (h.open_of_pending hi) ?_
    rw [destroyTimeout_captureStatus]
    exact h.open_of_pending hi
  next => exact h

theorem ReadsOn.startCapture (h : s.ReadsOn) (hstart : Undisturbed s .startCapture) :
    s.startCapture.ReadsOn := by
  have hsingle := h.single.startCapture hstart.2
  unfold Replay.startCapture at hsingle ⊢
  split
  · exact h
  next hplay =>
    rw [if_neg hplay] at hsingle
    exact h.of_record hsingle rfl hstart.1 fun hended => Status.noConfusion hended

theorem ReadsOn.pauseCapture (h : s.ReadsOn) : s.pauseCapture.ReadsOn := by
  have hremove := h.gSourceRemove s.captureSource
  unfold Replay.pauseCapture
  split
  · exact h
  next hplay =>
    dsimp only
    split
    · refine ⟨hremove.single, fun hended => Status.noConfusion hended, fun _ => hremove.packets ?_⟩
      have hstatus : (s.gSourceRemove s.captureSource).2.captureStatus = s.captureStatus := by
        unfold Replay.gSourceRemove
        split
        · exact destroyTimeout_captureStatus _
        · rfl
      rw [hstatus, not_ne_iff.mp hplay]
      decide
    · exact hremove

theorem ReadsOn.stopCapture (h : s.ReadsOn) : s.stopCapture.ReadsOn := by
  have hsingle := h.single.stopCapture
  unfold Replay.stopCapture at hsingle ⊢
  split
  · exact h
  next hstop =>
    rw [if_neg hstop] at hsingle
    exact ⟨hsingle, fun hended => Status.noConfusion hended, fun _ hsome => absurd rfl hsome⟩

theorem ReadsOn.forceNextPacket (h : s.ReadsOn) : s.forceNextPacket.ReadsOn := by
  have hzero : { s with msToNext := 0 }.ReadsOn := ⟨h.single, h.ended, h.packets⟩
  unfold Replay.forceNextPacket
  split
  · exact hzero.gSourceRemove _
  · exact h

theorem ReadsOn.fire (h : s.ReadsOn) {i : Nat} (hi : s.timeouts.Pending i) {result : PcapResult}
    (hresult : result ≠ .error) :
    ((s.getOfflinePacket delays result).destroyTimeout i).ReadsOn := by
  have hsingle : ((s.getOfflinePacket delays result).destroyTimeout i).SingleTimer :=
    h.single.fire hi result
  refine ⟨hsingle, ?_, ?_⟩
  · intro hended
    rw [destroyTimeout_captureStatus] at hended
    unfold Replay.destroyTimeout capTODestroy
    rw [if_neg (by rw [hended]; decide), getOfflinePacket_timeouts]
    exact Timeouts.Only.remove_pending h.single hi
  · rw [destroyTimeout_captureStatus, destroyTimeout_results]
    unfold Replay.getOfflinePacket
    split
    next hstop => exact fun _ => h.packets (h.open_of_pending hi)
    next hstop =>
      cases result with
      | packet p => exact fun _ _ => (lastDelivered_concat _).mpr ⟨p, rfl⟩
      | endOfFile => exact fun hended => absurd rfl hended
      | error => exact absurd rfl hresult

theorem ReadsOn.step (h : s.ReadsOn) (hstep : (machine delays).step s e = some s')
    (he : Undisturbed s e) : s'.ReadsOn := by
  change Replay.step delays s e = some s' at hstep
  cases e with
  | startCapture =>
      obtain rfl := Option.some.inj hstep
      exact h.startCapture he
  | pauseCapture =>
      obtain rfl := Option.some.inj hstep
      exact h.pauseCapture
  | stopCapture =>
      obtain rfl := Option.some.inj hstep
      exact h.stopCapture
  | forceNextPacket =>
      obtain rfl := Option.some.inj hstep
      exact h.forceNextPacket
  | fire i result =>
      obtain ⟨hi, hs'⟩ := Option.ite_none_right_eq_some.mp hstep
      obtain rfl := Option.some.inj hs'
      exact h.fire hi he

/-- Without errors and with a single timer, packets are handed over once and in order. -/
theorem once_in_order_of_undisturbed {past : List (Replay × Event)}
    (h : (machine delays).Run past s) (hundisturbed : ∀ x ∈ past, Undisturbed x.1 x.2) :
    Machine.Always OnceInOrder past s := by
  have hstart : ReadsOn (machine delays).start ∧ Kept (machine delays).start :=
    ⟨⟨Timeouts.only_of_idle rfl, fun _ => rfl, fun _ hsome => absurd rfl hsome⟩,
      onceInOrder_characterized.start⟩
  refine Machine.Always.mono (fun hs => Kept.onceInOrder hs.2)
    (Machine.Run.always (I := fun s => ReadsOn s ∧ Kept s) hstart ?_ h hundisturbed)
  intro s s' e hs hstep he
  refine ⟨hs.1.step hstep he, onceInOrder_characterized.step hs.2 hstep ?_⟩
  cases e with
  | startCapture => trivial
  | pauseCapture => trivial
  | stopCapture => trivial
  | forceNextPacket => trivial
  | fire i result => exact hs.1.firesFresh (Option.ite_none_right_eq_some.mp hstep).1

end Replay

end EtherApe
