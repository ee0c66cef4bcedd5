import EtherApe.Diagram.CanvasLinks

/-!
# The legend

The legend has a label for each protocol of the summary at the level shown, and a counter of its own.
New labels are looked for among those that were there before the loop, so a protocol that the summary
had twice would get two labels; it never has.
-/

namespace EtherApe

/-! ### Names of the summary -/

namespace TrafficStats

variable {ts : TrafficStats}

/-- No level has two protocols of one name. -/
def NamesNodup (ts : TrafficStats) : Prop := ∀ i, Protostack.NamesNodup (ts.statsProtos i)

theorem NamesNodup.init (now : Timeval) : (TrafficStats.init now).NamesNodup := fun _ => List.nodup_nil

theorem NamesNodup.addPacket (h : ts.NamesNodup) (now : Timeval) (store : PacketStore)
    (packet : PacketInfo) (direction : PacketDirection) :
    (ts.addPacket now store packet direction).2.NamesNodup := Protostack.addPkt_names h now packet

theorem NamesNodup.uncountItem (h : ts.NamesNodup) (packet : PacketListItem) :
    (ts.uncountItem packet).NamesNodup :=
  Protostack.subPktLoop_names h (List.nodup_finRange _)

theorem NamesNodup.update (h : ts.NamesNodup) (now : Timeval) (store : PacketStore)
    (avgTime protoExpireTime : ℚ) :
    (ts.update now store avgTime protoExpireTime).2.2.NamesNodup := by
  have hloop : ∀ (items : List PacketListItem), (items.foldl TrafficStats.uncountItem ts).NamesNodup := by
    intro items
    induction items using List.reverseRecOn with
    | nil => exact h
    | append_singleton items item ih =>
        rw [List.foldl_append]
        exact ih.uncountItem item
  have hpurged : (ts.purgeExpiredPackets now store avgTime protoExpireTime).2.NamesNodup := by
    intro i
    simp only [TrafficStats.purgeExpiredPackets, purgeLoop_snd, clearAverages_statsProtos]
    exact ((Protostack.purgeExpired_sublist _ now protoExpireTime i).map _).nodup (hloop _ i)
  unfold TrafficStats.update
  dsimp only
  split
  · intro i
    have hnames := hpurged i
    simpa [TrafficStats.average, Protostack.avg, Protostack.NamesNodup, Function.comp_def] using hnames
  · exact hpurged

end TrafficStats

namespace Capture

variable {s s' : Capture}

/-- No level of the summary has two protocols of one name. -/
def SummaryNamed (s : Capture) : Prop :=
  ∀ stats, s.protosummaryStats = some stats → stats.NamesNodup

theorem SummaryNamed.of_eq (h : s.SummaryNamed)
    (hsummary : s'.protosummaryStats = s.protosummaryStats) : s'.SummaryNamed := by
  rw [SummaryNamed, hsummary]
  exact h

theorem SummaryNamed.of_none (hsummary : s.protosummaryStats = none) : s.SummaryNamed := by
  intro stats hstats
  rw [hsummary] at hstats
  cases hstats

theorem SummaryNamed.protocolSummaryOpen (s : Capture) : s.protocolSummaryOpen.SummaryNamed := by
  intro stats hstats
  obtain rfl := Option.some.inj hstats
  exact TrafficStats.NamesNodup.init _

theorem SummaryNamed.registerPacket (h : s.SummaryNamed) (packet : PacketInfo) (src dst : NodeId)
    (mem : Malloc) : (s.registerPacket packet src dst mem).SummaryNamed := by
  intro stats hstats
  unfold Capture.registerPacket at hstats
  rw [protocolSummaryAddPacket_eq] at hstats
  obtain rfl := Option.some.inj hstats
  apply TrafficStats.NamesNodup.addPacket
  change ((s.protosummaryStats.getD _)).NamesNodup
  cases hsummary : s.protosummaryStats with
  | none => exact TrafficStats.NamesNodup.init _
  | some stats => exact h stats hsummary

theorem SummaryNamed.protocolSummaryUpdateAll (h : s.SummaryNamed) (pref : Preferences) :
    (s.protocolSummaryUpdateAll pref).SummaryNamed := by
  unfold Capture.protocolSummaryUpdateAll
  split
  next stats hsummary =>
    intro stats' hstats'
    obtain rfl := Option.some.inj hstats'
    exact (h stats hsummary).update _ _ _ _
  next => exact h

theorem SummaryNamed.stopCapture (h : s.SummaryNamed) : s.stopCapture.SummaryNamed := by
  unfold Capture.stopCapture
  split
  next => exact h
  next =>
    apply SummaryNamed.of_none
    change (Capture.protocolSummaryClose _).protosummaryStats = none
    unfold Capture.protocolSummaryClose
    split
    next => rfl
    next hnone => exact hnone

theorem SummaryNamed.step (h : s.SummaryNamed) {e : Event} (hs' : s.step e = some s') :
    s'.SummaryNamed := by
  cases e with
  | clock now =>
      obtain rfl := Option.some.inj hs'
      exact h.of_eq rfl
  | startCapture =>
      obtain rfl := Option.some.inj hs'
      unfold Capture.startCapture
      split
      next => exact h
      next =>
        split
        · exact (SummaryNamed.protocolSummaryOpen s).of_eq rfl
        · exact h.of_eq rfl
  | pauseCapture =>
      obtain rfl := Option.some.inj hs'
      unfold Capture.pauseCapture
      split
      · exact h
      · exact h.of_eq rfl
  | endOfFile =>
      obtain rfl := Option.some.inj hs'
      unfold Capture.endOfFile
      split
      · exact h
      · exact h.of_eq rfl
  | stopCapture =>
      obtain rfl := Option.some.inj hs'
      exact h.stopCapture
  | packetAcquired env rawPacket rawSize pktSize mem =>
      simp only [Capture.step] at hs'
      split at hs'
      next =>
        obtain ⟨decoded, _, rfl⟩ := packetAcquired_eq_some hs'
        have hdecoded : SummaryNamed { s with
            conversations := decoded.conversations, pphLkentry := decoded.pphLkentry } := h.of_eq rfl
        exact hdecoded.registerPacket _ _ _ mem
      next => exact absurd hs'.symm (Option.some_ne_none s')
  | nodesUpdate pref =>
      obtain rfl := Option.some.inj hs'
      exact h.of_eq rfl
  | linksUpdate pref =>
      obtain rfl := Option.some.inj hs'
      exact h.of_eq rfl
  | summaryUpdate pref =>
      obtain rfl := Option.some.inj hs'
      exact h.protocolSummaryUpdateAll pref

theorem protocolSummaryFind_isSome_iff {level : Level} {name : String} :
    (s.protocolSummaryFind level name).isSome ↔
      ∃ stats, s.protosummaryStats = some stats ∧ name ∈ (stats.statsProtos level).map (·.name) := by
  unfold protocolSummaryFind
  cases s.protosummaryStats with
  | none => simp
  | some stats =>
      rw [Option.bind_some, Protostack.find_isSome_iff]
      constructor
      · exact fun ⟨_, hname⟩ => ⟨stats, rfl, hname⟩
      · intro ⟨stats', hstats, hname⟩
        obtain rfl := Option.some.inj hstats
        exact ⟨level.isLt, hname⟩

end Capture

namespace View

variable {α : Type*} [LinearOrder α] {nodeLimit : Int} {v v' : View} {now : Timeval}
  {pref : Preferences}

/-- What holds between the steps. -/
structure Listed (v : View) : Prop where
  nodup : v.legend.Nodup
  count : v.knownProtocols = v.legend.length
  summary : v.diagram.capture.SummaryNamed

theorem Listed.of_eq (h : v.Listed) (hlegend : v'.legend = v.legend)
    (hknown : v'.knownProtocols = v.knownProtocols)
    (hsummary : v.diagram.capture.SummaryNamed → v'.diagram.capture.SummaryNamed) : v'.Listed where
  nodup := hlegend ▸ h.nodup
  count := by
    rw [hknown, hlegend]
    exact h.count
  summary := hsummary h.summary

theorem Listed.deleteGuiProtocols (h : v.Listed) : v.deleteGuiProtocols.Listed where
  nodup := List.nodup_nil
  count := rfl
  summary := h.summary

/-! ### The legend of a refresh -/

theorem purgeLegend_count (v : View) (level : Level) (h : v.knownProtocols = v.legend.length) :
    (v.purgeLegend level).knownProtocols = (v.purgeLegend level).legend.length := by
  unfold purgeLegend
  dsimp only
  set expired := fun label => (v.diagram.capture.protocolSummaryFind level label).isNone
  have hlength := List.length_eq_countP_add_countP (l := v.legend) expired
  rw [h, ← List.countP_eq_length_filter, hlength]
  have hkept : v.legend.countP (fun label => !expired label) =
      v.legend.countP fun label => decide ¬expired label = true := by
    apply List.countP_congr
    intro label _
    cases expired label <;> simp
  rw [hkept]
  omega

theorem foldl_addLabel (childlist : List String) (protocols : List Protocol) (v : View) :
    (protocols.foldl (addLabel childlist) v).legend =
        v.legend ++ (protocols.map (·.name)).filter (· ∉ childlist) ∧
      (protocols.foldl (addLabel childlist) v).knownProtocols =
        v.knownProtocols + ((protocols.map (·.name)).filter (· ∉ childlist)).length := by
  induction protocols generalizing v with
  | nil => simp
  | cons protocol protocols ih =>
      obtain ⟨hlegend, hknown⟩ := ih (addLabel childlist v protocol)
      rw [List.foldl_cons, hlegend, hknown, List.map_cons]
      unfold addLabel
      split
      next hmem =>
        rw [List.filter_cons_of_neg (by simpa using hmem)]
        exact ⟨rfl, rfl⟩
      next hmem =>
        rw [List.filter_cons_of_pos (by simpa using hmem)]
        refine ⟨by simp, ?_⟩
        rw [List.length_cons, Nat.cast_add, Nat.cast_one]
        dsimp only
        omega

/-- A label for each protocol of the summary at the level, and one only. -/
theorem updateLegend_spec (h : v.Listed) (level : Level) :
    (v.updateLegend level).legend.Nodup ∧
      (v.updateLegend level).knownProtocols = (v.updateLegend level).legend.length ∧
      ∀ name, name ∈ (v.updateLegend level).legend ↔
        (v.diagram.capture.protocolSummaryFind level name).isSome := by
  have hpurged : ∀ name, name ∈ (v.purgeLegend level).legend ↔
      name ∈ v.legend ∧ (v.diagram.capture.protocolSummaryFind level name).isSome := by
    intro name
    rw [purgeLegend, List.mem_filter]
    simp
  have hnodup : (v.purgeLegend level).legend.Nodup := h.nodup.filter _
  have hcount := purgeLegend_count v level h.count
  unfold updateLegend checkNewProtocol
  split
  next stats hstats =>
    have hstats' : v.diagram.capture.protosummaryStats = some stats := hstats
    obtain ⟨hlegend, hknown⟩ := foldl_addLabel (v.purgeLegend level).legend (stats.statsProtos level)
      (v.purgeLegend level)
    have hfound : ∀ name, (v.diagram.capture.protocolSummaryFind level name).isSome ↔
        name ∈ (stats.statsProtos level).map (·.name) := by
      intro name
      rw [Capture.protocolSummaryFind_isSome_iff, hstats']
      simp
    refine ⟨?_, ?_, fun name => ?_⟩
    · rw [hlegend, List.nodup_append]
      refine ⟨hnodup, (h.summary stats hstats' level).filter _, fun a ha b hb heq => ?_⟩
      have hnew := (List.mem_filter.mp hb).2
      rw [heq] at ha
      exact of_decide_eq_true hnew ha
    · rw [hknown, hlegend, List.length_append, Nat.cast_add, hcount]
    · rw [hlegend, List.mem_append, List.mem_filter, decide_eq_true_iff, hfound]
      constructor
      · rintro (hold | ⟨hnew, _⟩)
        · exact (hfound name).mp ((hpurged name).mp hold).2
        · exact hnew
      · intro hname
        by_cases hold : name ∈ (v.purgeLegend level).legend
        · exact Or.inl hold
        · exact Or.inr ⟨hname, hold⟩
  next hnone =>
    have hnone' : v.diagram.capture.protosummaryStats = none := hnone
    refine ⟨hnodup, hcount, fun name => ?_⟩
    have hmissing : (v.diagram.capture.protocolSummaryFind level name).isSome = false := by
      rw [Capture.protocolSummaryFind, hnone']
      rfl
    rw [hpurged, hmissing]
    simp

section Finish

variable {behind : NodeId → α} {level : Level}

/-- After the nodes and links of a refresh the legend is that of the summary. -/
theorem Listed.finishNodes (h : v.Listed)
    (hv' : v.finishNodes pref nodeLimit behind level = some v') :
    v'.Listed ∧ ∀ name, name ∈ v'.legend ↔
      (v'.diagram.capture.protocolSummaryFind level name).isSome := by
  obtain ⟨deleteList, w, hphase, hdiagram, _, _, hlegend, hknown, hw⟩ := finishNodes_eq_some hv'
  obtain ⟨hdiagram', _, hlegend', hknown'⟩ := repositionCanvasNodes_rest w
  have hsummary : w.diagram.capture.SummaryNamed := by
    rw [Diagram.finishNodes, hphase] at hdiagram
    rw [← Option.some.inj hdiagram]
    have hlinks : (v.diagram.capture.linksUpdate pref).SummaryNamed := h.summary.of_eq rfl
    exact hlinks.protocolSummaryUpdateAll pref
  have hlisted : w.repositionCanvasNodes.updateCanvasLinks.Listed := by
    apply h.of_eq
    · exact hlegend'.trans hlegend
    · exact hknown'.trans hknown
    · intro _
      change w.repositionCanvasNodes.diagram.capture.SummaryNamed
      rw [hdiagram']
      exact hsummary
  obtain ⟨hnodup, hcount, hnames⟩ := updateLegend_spec hlisted level
  obtain ⟨hsame, _⟩ := updateLegend_canvas w.repositionCanvasNodes.updateCanvasLinks level
  rw [← hw] at hnodup hcount hnames hsame
  refine ⟨⟨hnodup, hcount, ?_⟩, ?_⟩
  · rw [hsame]
    exact hlisted.summary
  · rw [hsame]
    exact hnames

end Finish

/-! ### Runs -/

theorem Listed.beginUpdate (h : v.Listed) (now : Timeval) (pref : Preferences) :
    (v.beginUpdate now pref).Listed := by
  obtain ⟨_, hlegend, hknown⟩ := v.beginUpdate_rest now pref
  obtain ⟨newNodes, hcapture⟩ := v.diagram.beginUpdate_capture now pref
  apply h.of_eq hlegend hknown
  intro hsummary
  rw [beginUpdate_diagram, hcapture]
  exact hsummary.of_eq rfl

theorem Listed.visitCanvasNode (h : v.Listed) (hv' : v.visitCanvasNode pref = some v') : v'.Listed := by
  unfold View.visitCanvasNode at hv'
  split at hv'
  next k remaining deleteList hphase =>
    obtain ⟨diagram, hdiagram, rfl⟩ := Option.map_eq_some_iff.mp hv'
    rw [Diagram.visitCanvasNode, hphase] at hdiagram
    obtain rfl := Option.some.inj hdiagram
    exact h.of_eq rfl rfl fun hsummary => hsummary.of_eq rfl
  next => cases hv'

theorem Listed.guiStopCapture (h : v.Listed) : v.guiStopCapture.Listed := by
  have hsummary : v.diagram.guiStopCapture.capture.SummaryNamed := by
    unfold Diagram.guiStopCapture
    dsimp only
    split
    · exact h.summary
    · split
      · exact h.summary.stopCapture
      · exact h.summary
  have hstopped : View.Listed { v with diagram := v.diagram.guiStopCapture } :=
    h.of_eq rfl rfl fun _ => hsummary
  unfold View.guiStopCapture
  dsimp only
  split
  · exact hstopped
  · split
    · exact hstopped.deleteGuiProtocols
    · exact hstopped

theorem Listed.finishUpdate {keepTimer : Bool} (h : v.Listed)
    (hv' : v.finishUpdate now keepTimer = some v') : v'.Listed := by
  unfold View.finishUpdate at hv'
  split at hv'
  next =>
    have hidle : View.Listed { v with diagram := { v.diagram with
        capture := { v.diagram.capture with now := now }, phase := .idle } } :=
      h.of_eq rfl rfl fun hsummary => hsummary.of_eq rfl
    obtain rfl := Option.some.inj hv'
    split
    · exact hidle.guiStopCapture
    · exact hidle
  next => cases hv'

theorem Listed.step {e : ViewEvent α} (h : v.Listed) (hv' : v.step nodeLimit e = some v') :
    v'.Listed := by
  cases e with
  | capture e =>
      obtain ⟨diagram, hdiagram, rfl⟩ := Option.map_eq_some_iff.mp hv'
      refine h.of_eq rfl rfl fun hsummary => ?_
      simp only [Diagram.step] at hdiagram
      split at hdiagram
      · cases hdiagram
      · obtain ⟨s, hs, rfl⟩ := Option.map_eq_some_iff.mp hdiagram
        exact hsummary.step hs
  | guiStopCapture =>
      obtain rfl := Option.some.inj hv'
      exact h.guiStopCapture
  | askReposition =>
      obtain rfl := Option.some.inj hv'
      exact h.of_eq rfl rfl id
  | deleteGuiProtocols =>
      obtain rfl := Option.some.inj hv'
      exact h.deleteGuiProtocols
  | beginUpdate now pref =>
      obtain ⟨_, _, rfl⟩ := Option.map_eq_some_iff.mp hv'
      exact h.beginUpdate now pref
  | visitCanvasNode pref => exact h.visitCanvasNode hv'
  | finishNodes pref behind level => exact (h.finishNodes hv').1
  | finishUpdate now keepTimer => exact h.finishUpdate hv'

theorem listed_of_run {past : List (View × ViewEvent α)} (h : (machine now nodeLimit).Run past v) :
    v.Listed := by
  induction h with
  | start => exact ⟨List.nodup_nil, rfl, Capture.SummaryNamed.of_none rfl⟩
  | step _ e hstep ih => exact ih.step hstep

/-- **Legend.** In every run the legend names no protocol twice, and the counter of its labels is
right. After the summary of a refresh the labels are the protocols that the summary has at the level
shown. -/
theorem run_legend {past : List (View × ViewEvent α)} (h : (machine now nodeLimit).Run past v) :
    v.legend.Nodup ∧ v.knownProtocols = v.legend.length ∧
      ∀ (pref : Preferences) (behind : NodeId → α) (level : Level) (v' : View),
        v.finishNodes pref nodeLimit behind level = some v' →
          ∀ name, name ∈ v'.legend ↔ (v'.diagram.capture.protocolSummaryFind level name).isSome :=
  ⟨(listed_of_run h).nodup, (listed_of_run h).count,
    fun _ _ _ _ hv' => ((listed_of_run h).finishNodes hv').2⟩

/-- A frame whose protocol is in the legend after a refresh. -/
theorem run_legend_frame : ∃ past v v', (machine (α := Nat) ⟨10, 0⟩ 1).Run past v ∧
    v.finishNodes ⟨1000, 0, 1000, 0, 0, 0, 0⟩ 1 (fun _ => 0) 1 = some v' ∧ v'.legend = ["ETH_II"] ∧
      (v'.diagram.capture.protocolSummaryFind 1 "ETH_II").isSome := by
  have hlegend : ((machine (α := Nat) ⟨10, 0⟩ 1).stepAll (View.initial ⟨10, 0⟩) frameShown).bind
      (fun v => (v.finishNodes ⟨1000, 0, 1000, 0, 0, 0, 0⟩ 1 (fun _ => 0) 1).map View.legend) =
        some ["ETH_II"] := by decide +kernel
  obtain ⟨v, hv, hfinish⟩ := Option.bind_eq_some_iff.mp hlegend
  obtain ⟨v', hv', hlabels⟩ := Option.map_eq_some_iff.mp hfinish
  obtain ⟨past, hrun, _⟩ := Machine.Run.start.stepAll hv
  refine ⟨past, v, v', hrun, hv', hlabels, ?_⟩
  have hnames := (run_legend hrun).2.2 _ _ 1 v' hv' "ETH_II"
  exact hnames.mp (hlabels ▸ List.mem_singleton_self _)

end View

end EtherApe
