import EtherApe.Diagram.View
import EtherApe.Lib.SameKeys

/-!
# Links between drawn nodes

A flag is set by one part of a refresh, the item of the node hidden by another, and a link drawn by a
third, and the second is skipped when no new layout was asked for. What holds all the same between any
two steps is that a link which is visible has both of its ends on the canvas, and visible themselves.
-/

namespace EtherApe

namespace View

variable {α : Type*} [LinearOrder α]

/-- The canvas node of an id is there, is shown, and its item is visible. -/
def Drawn (v : View) (id : NodeId) : Prop :=
  (v.diagram.canvasNodes.lookup id).isSome ∧ v.shown id = true ∧ v.nodeItems.lookup id = some true

/-- What holds between the steps. -/
structure Agrees (nodeLimit : Int) (v : View) : Prop where
  flags : v.diagram.canvasNodes.SameKeys v.drawn.canvasNodes
  items : v.diagram.canvasNodes.SameKeys v.nodeItems
  settled : v.drawn.needReposition = false → ∀ id,
    v.nodeItems.lookup id = (v.drawn.canvasNodes.lookup id).map DrawnNode.shown
  unlimited : nodeLimit < 0 → ∀ id node, v.drawn.canvasNodes.lookup id = some node → node.shown = true
  links : ∀ id canvasLink, v.canvasLinks.lookup id = some canvasLink → canvasLink.visible = true →
    v.Drawn id.src ∧ v.Drawn id.dst

variable {nodeLimit : Int} {v v' : View} {now : Timeval} {pref : Preferences}

theorem Agrees.initial (nodeLimit : Int) (now : Timeval) : (View.initial now).Agrees nodeLimit where
  flags := SortedTree.SameKeys.empty
  items := SortedTree.SameKeys.empty
  settled hfalse := Bool.noConfusion hfalse
  unlimited _ id node hnode := by
    rw [View.initial, SortedTree.lookup_empty] at hnode
    cases hnode
  links id canvasLink hlink := by
    rw [View.initial, SortedTree.lookup_empty] at hlink
    cases hlink

theorem Agrees.of_eq (h : v.Agrees nodeLimit)
    (hcanvas : v'.diagram.canvasNodes = v.diagram.canvasNodes)
    (hflags : v'.drawn.canvasNodes = v.drawn.canvasNodes) (hitems : v'.nodeItems = v.nodeItems)
    (hlinks : v'.canvasLinks = v.canvasLinks)
    (hneed : v'.drawn.needReposition = false → v.drawn.needReposition = false) :
    v'.Agrees nodeLimit where
  flags := by
    rw [hcanvas, hflags]
    exact h.flags
  items := by
    rw [hcanvas, hitems]
    exact h.items
  settled hfalse := by
    rw [hflags, hitems]
    exact h.settled (hneed hfalse)
  unlimited := by
    rw [hflags]
    exact h.unlimited
  links id canvasLink := by
    rw [hlinks, Drawn, Drawn, shown, shown, hcanvas, hflags, hitems]
    exact h.links id canvasLink

/-! ### New nodes -/

theorem Agrees.checkNewNode (h : v.Agrees nodeLimit) (pref : Preferences) (p : NodePtr) :
    (v.checkNewNode pref p).Agrees nodeLimit := by
  unfold View.checkNewNode
  split
  next node hnode =>
    split
    next hnew =>
      have hcanvas : v.diagram.checkNewNode pref p = { v.diagram with
          canvasNodes := v.diagram.canvasNodes.insert node.nodeId ⟨node.nodeId⟩ } := by
        simp only [Diagram.checkNewNode, hnode, if_pos hnew]
      -- An end of a link that is visible has a canvas node, so it is not the one that is made.
      have hother : ∀ id, v.Drawn id → nodeIdCompare node.nodeId id ≠ 0 := by
        intro id hid hsame
        have hsome := hid.1
        rw [← SortedTree.lookup_congr hsame] at hsome
        rw [Option.isNone_iff_eq_none.mp hnew.2] at hsome
        cases hsome
      have hkept : ∀ id, v.Drawn id → View.Drawn { v with
          diagram := v.diagram.checkNewNode pref p
          drawn := { v.drawn with
            canvasNodes := v.drawn.canvasNodes.insert node.nodeId ⟨true⟩
            needReposition := true }
          nodeItems := v.nodeItems.insert node.nodeId false } id := by
        intro id hid
        rw [Drawn, shown, hcanvas]
        simp only [SortedTree.lookup_insert_eq, if_neg (hother id hid)]
        exact hid
      refine ⟨?_, ?_, fun hfalse => Bool.noConfusion hfalse, fun hneg id drawnNode hlookup => ?_,
        fun id canvasLink hlink hvisible => ?_⟩
      · rw [hcanvas]
        exact h.flags.insert _ _ _
      · rw [hcanvas]
        exact h.items.insert _ _ _
      · rw [SortedTree.lookup_insert_eq] at hlookup
        split at hlookup
        · obtain rfl := Option.some.inj hlookup
          rfl
        · exact h.unlimited hneg id drawnNode hlookup
      · obtain ⟨hsrc, hdst⟩ := h.links id canvasLink hlink hvisible
        exact ⟨hkept _ hsrc, hkept _ hdst⟩
    next => exact h
  next => exact h

theorem Agrees.checkNewNodes (pref : Preferences) (rounds : Nat) (h : v.Agrees nodeLimit) :
    (checkNewNodes pref rounds v).Agrees nodeLimit := by
  induction rounds generalizing v with
  | zero => exact h
  | succ rounds ih =>
      have hset : ∀ newNodes, (v.setNewNodes newNodes).Agrees nodeLimit :=
        fun newNodes => h.of_eq rfl rfl rfl rfl id
      unfold View.checkNewNodes
      split
      next p newNodes _ => exact ih ((hset newNodes).checkNewNode pref p)
      next newNodes _ => exact hset newNodes

/-! ### The parts of a refresh -/

theorem Agrees.visitCanvasNode (h : v.Agrees nodeLimit) (hv' : v.visitCanvasNode pref = some v') :
    v'.Agrees nodeLimit := by
  unfold View.visitCanvasNode at hv'
  split at hv'
  next k remaining deleteList hphase =>
    obtain ⟨diagram, hdiagram, rfl⟩ := Option.map_eq_some_iff.mp hv'
    rw [Diagram.visitCanvasNode, hphase] at hdiagram
    obtain rfl := Option.some.inj hdiagram
    refine h.of_eq rfl rfl rfl rfl fun hfalse => ?_
    exact (Bool.or_eq_false_iff.mp hfalse).1
  next => cases hv'

theorem limitNodes_cases (behind : NodeId → α) (nodeLimit : Int) (s : EtherApe.Drawn) :
    nodeLimit < 0 ∧ limitNodes behind nodeLimit s =
        { s with displayedNodes := s.canvasNodes.entries.length } ∨
      ¬nodeLimit < 0 ∧ limitNodes behind nodeLimit s = limitNodes behind (nodeLimit.toNat : Int) s := by
  by_cases hneg : nodeLimit < 0
  · refine Or.inl ⟨hneg, ?_⟩
    rw [limitNodes, if_pos hneg]
  · refine Or.inr ⟨hneg, ?_⟩
    rw [Int.toNat_of_nonneg (not_lt.mp hneg)]

theorem sameKeys_limitNodes (behind : NodeId → α) (nodeLimit : Int) (s : EtherApe.Drawn) :
    (limitNodes behind nodeLimit s).canvasNodes.SameKeys s.canvasNodes := by
  rcases limitNodes_cases behind nodeLimit s with ⟨_, hlimit⟩ | ⟨_, hlimit⟩
  · rw [hlimit]
    rfl
  · rw [hlimit]
    exact limitNodes_keys behind _ s

theorem lookup_limitNodes (behind : NodeId → α) (nodeLimit : Int) (s : EtherApe.Drawn)
    (hneed : (limitNodes behind nodeLimit s).needReposition = false) :
    s.needReposition = false ∧
      ∀ id, (limitNodes behind nodeLimit s).canvasNodes.lookup id = s.canvasNodes.lookup id := by
  rcases limitNodes_cases behind nodeLimit s with ⟨_, hlimit⟩ | ⟨_, hlimit⟩
  · rw [hlimit] at hneed ⊢
    exact ⟨hneed, fun _ => rfl⟩
  · rw [hlimit] at hneed ⊢
    refine ⟨?_, fun id => ?_⟩
    · by_contra htrue
      have hkept := (limitNodes_checked behind nodeLimit.toNat s).kept (Bool.eq_true_of_not_eq_false htrue)
      rw [hkept] at hneed
      cases hneed
    · by_contra hchanged
      rw [limitNodes_reposition behind nodeLimit.toNat s hchanged] at hneed
      cases hneed

/-- As many nodes are shown as the limit allows, and that many are counted. -/
theorem countP_limitNodes (behind : NodeId → α) (nodeLimit : Int) (s : EtherApe.Drawn)
    (hall : nodeLimit < 0 → ∀ id node, s.canvasNodes.lookup id = some node → node.shown = true) :
    (limitNodes behind nodeLimit s).canvasNodes.entries.countP (fun e => e.2.shown) =
        (if nodeLimit < 0 then s.canvasNodes.entries.length
          else min nodeLimit.toNat s.canvasNodes.entries.length) ∧
      (limitNodes behind nodeLimit s).displayedNodes =
        if nodeLimit < 0 then s.canvasNodes.entries.length
          else min nodeLimit.toNat s.canvasNodes.entries.length := by
  rcases limitNodes_cases behind nodeLimit s with ⟨hneg, hlimit⟩ | ⟨hneg, hlimit⟩
  · rw [hlimit, if_pos hneg]
    refine ⟨List.countP_eq_length.mpr fun e he => ?_, rfl⟩
    exact hall hneg e.1 e.2 (lookup_of_mem he)
  · rw [hlimit, if_neg hneg]
    refine ⟨limitNodes_shown behind nodeLimit.toNat s, ?_⟩
    rw [(limitNodes_checked behind nodeLimit.toNat s).displayed,
      (orderedNodes_values behind s.canvasNodes).length_eq, List.length_map, Nat.zero_add]

/-- What a refresh makes of the canvas: as many nodes are shown as the limit allows, just the items of
these are visible, and the links are those of the catalog, each drawn when both of its ends are shown. -/
structure Refreshed (nodeLimit : Int) (v : View) : Prop where
  nodes : ∀ id, v.nodeItems.lookup id = (v.diagram.canvasNodes.lookup id).map fun _ => v.shown id
  links : ∀ id, v.canvasLinks.lookup id = (v.diagram.capture.allLinks.lookup id).map
    fun _ => ⟨v.shown id.dst && v.shown id.src⟩
  count : v.nodeItems.entries.countP (fun e => e.2) =
    if nodeLimit < 0 then v.diagram.canvasNodes.entries.length
      else min nodeLimit.toNat v.diagram.canvasNodes.entries.length
  displayed : v.drawn.displayedNodes = v.nodeItems.entries.countP fun e => e.2

theorem shown_congr (v : View) {id id' : NodeId} (h : nodeIdCompare id id' = 0) :
    v.shown id = v.shown id' := by rw [shown, shown, SortedTree.lookup_congr h]

theorem map_shown {μ : Type*} {t : SortedTree nodeIdCompare μ} (h : t.SameKeys v.drawn.canvasNodes)
    (id : NodeId) :
    (t.lookup id).map (fun _ => v.shown id) = (v.drawn.canvasNodes.lookup id).map DrawnNode.shown := by
  have hsome := h.isSome_lookup id
  rw [shown]
  cases hnode : v.drawn.canvasNodes.lookup id with
  | none =>
      rw [hnode, Option.isSome_none] at hsome
      rw [Option.isNone_iff_eq_none.mp (Option.isSome_eq_false_iff.mp hsome)]
      rfl
  | some node =>
      rw [hnode] at hsome
      obtain ⟨item, hitem⟩ := Option.isSome_iff_exists.mp hsome
      rw [hitem]
      rfl

/-- The items after the layout, whether it was needed or not. -/
theorem lookup_repositionCanvasNodes (h : v.nodeItems.SameKeys v.drawn.canvasNodes)
    (hsettled : v.drawn.needReposition = false → ∀ id,
      v.nodeItems.lookup id = (v.drawn.canvasNodes.lookup id).map DrawnNode.shown) (id : NodeId) :
    v.repositionCanvasNodes.nodeItems.lookup id =
      (v.drawn.canvasNodes.lookup id).map DrawnNode.shown := by
  unfold repositionCanvasNodes
  split
  next =>
    rw [← map_shown h id]
    exact SortedTree.lookup_traverse_key (g := fun k _ => v.shown k) (fun _ _ _ => rfl)
      (fun _ _ _ hk => v.shown_congr hk) () v.nodeItems id
  next hneed => exact hsettled (by simpa using hneed) id

theorem repositionCanvasNodes_rest (v : View) :
    v.repositionCanvasNodes.diagram = v.diagram ∧
      v.repositionCanvasNodes.drawn = { v.drawn with needReposition := false } ∧
      v.repositionCanvasNodes.legend = v.legend ∧
      v.repositionCanvasNodes.knownProtocols = v.knownProtocols := by
  unfold repositionCanvasNodes
  split
  next => exact ⟨rfl, rfl, rfl, rfl⟩
  next hneed =>
    have hfalse : v.drawn.needReposition = false := by simpa using hneed
    refine ⟨rfl, ?_, rfl, rfl⟩
    rw [← hfalse]

theorem sameKeys_repositionCanvasNodes {μ : Type*} {t : SortedTree nodeIdCompare μ}
    (h : t.SameKeys v.nodeItems) : t.SameKeys v.repositionCanvasNodes.nodeItems := by
  unfold repositionCanvasNodes
  split
  · exact h.traverse_right _ _
  · exact h

/-! ### Links -/

theorem isSome_foldl_checkNewLink (linkIds : List LinkId)
    (canvasLinks : SortedTree linkIdCompare CanvasLink) (id : LinkId) :
    ((linkIds.foldl checkNewLink canvasLinks).lookup id).isSome ↔
      (canvasLinks.lookup id).isSome ∨ ∃ k ∈ linkIds, linkIdCompare id k = 0 := by
  induction linkIds generalizing canvasLinks with
  | nil => simp
  | cons k linkIds ih =>
      have hhead : ((checkNewLink canvasLinks k).lookup id).isSome ↔
          (canvasLinks.lookup id).isSome ∨ linkIdCompare id k = 0 := by
        unfold checkNewLink
        split
        next =>
          rw [SortedTree.lookup_insert_eq]
          split
          next hsame => exact iff_of_true rfl (Or.inr (ThreeWay.eq_symm hsame))
          next hother => exact (or_iff_left fun hsame => hother (ThreeWay.eq_symm hsame)).symm
        next hold =>
          have hthere : (canvasLinks.lookup k).isSome := by simpa [Option.isSome_iff_ne_none] using hold
          refine ⟨Or.inl, fun hor => hor.elim (fun hsome => hsome) fun hsame => ?_⟩
          rwa [SortedTree.lookup_congr hsame]
      rw [List.foldl_cons, ih, hhead, List.exists_mem_cons_iff, or_assoc]

/-- The links of the canvas are those of the catalog, each visible when both of its ends are shown. -/
theorem lookup_updateCanvasLinks (v : View) (id : LinkId) :
    v.updateCanvasLinks.canvasLinks.lookup id = (v.diagram.capture.allLinks.lookup id).map
      fun _ => ⟨v.shown id.dst && v.shown id.src⟩ := by
  let drawn := fun (k : LinkId) (c : CanvasLink) =>
    if (v.diagram.capture.allLinks.lookup k).isNone then c
    else (⟨v.shown k.dst && v.shown k.src⟩ : CanvasLink)
  have hvalue : ∀ (u : Unit) k c, (v.canvasLinkUpdate u k c).value = drawn k c := by
    intro u k c
    dsimp only [drawn]
    unfold canvasLinkUpdate
    split
    · rfl
    · cases v.shown k.dst <;> cases v.shown k.src <;> rfl
  have hobsolete : ∀ (u : Unit) k c, (v.canvasLinkUpdate u k c).obsolete =
      (v.diagram.capture.allLinks.lookup k).isNone := by
    intro u k c
    unfold canvasLinkUpdate
    split
    next hnone => rw [hnone]
    next hsome =>
      rw [Bool.eq_false_of_not_eq_true hsome]
      cases v.shown k.dst <;> cases v.shown k.src <;> rfl
  have hsame : ∀ k k' c, linkIdCompare k k' = 0 → drawn k c = drawn k' c ∧
      (v.diagram.capture.allLinks.lookup k).isNone = (v.diagram.capture.allLinks.lookup k').isNone := by
    intro k k' c hk
    obtain ⟨hsrc, hdst⟩ := linkIdCompare_eq_zero_iff.mp hk
    dsimp only [drawn]
    rw [SortedTree.lookup_congr hk, v.shown_congr hsrc, v.shown_congr hdst]
    exact ⟨rfl, rfl⟩
  ext canvasLink
  rw [updateCanvasLinks, SortedTree.lookup_sweep hvalue hobsolete hsame, Option.map_eq_some_iff]
  constructor
  · rintro ⟨old, _, rfl, hcatalog⟩
    obtain ⟨link, hlink⟩ := Option.isSome_iff_exists.mp (Option.isNone_eq_false_iff.mp hcatalog)
    refine ⟨link, hlink, ?_⟩
    simp only [drawn, hcatalog, Bool.false_eq_true, if_false]
  · rintro ⟨link, hlink, rfl⟩
    have hcatalog : (v.diagram.capture.allLinks.lookup id).isNone = false := by rw [hlink]; rfl
    have hkey : ∃ k ∈ v.diagram.capture.allLinks.entries.map Prod.fst, linkIdCompare id k = 0 := by
      rw [← SortedTree.isSome_lookup_iff, hlink]
      rfl
    obtain ⟨old, hold⟩ := Option.isSome_iff_exists.mp
      ((isSome_foldl_checkNewLink _ v.canvasLinks id).mpr (Or.inr hkey))
    refine ⟨old, hold, ?_, hcatalog⟩
    simp only [drawn, hcatalog, Bool.false_eq_true, if_false]

/-! ### The refresh -/

theorem updateLegend_canvas (v : View) (level : Level) :
    (v.updateLegend level).diagram = v.diagram ∧ (v.updateLegend level).drawn = v.drawn ∧
      (v.updateLegend level).nodeItems = v.nodeItems ∧
      (v.updateLegend level).canvasLinks = v.canvasLinks := by
  have hfold : ∀ (childlist : List String) (protocols : List Protocol) (w : View),
      (protocols.foldl (addLabel childlist) w).diagram = w.diagram ∧
        (protocols.foldl (addLabel childlist) w).drawn = w.drawn ∧
        (protocols.foldl (addLabel childlist) w).nodeItems = w.nodeItems ∧
        (protocols.foldl (addLabel childlist) w).canvasLinks = w.canvasLinks := by
    intro childlist protocols
    induction protocols with
    | nil => exact fun w => ⟨rfl, rfl, rfl, rfl⟩
    | cons protocol protocols ih =>
        intro w
        rw [List.foldl_cons]
        obtain ⟨hdiagram, hdrawn, hitems, hlinks⟩ := ih (addLabel childlist w protocol)
        rw [hdiagram, hdrawn, hitems, hlinks]
        unfold addLabel
        split <;> exact ⟨rfl, rfl, rfl, rfl⟩
  unfold updateLegend checkNewProtocol
  split
  · exact hfold _ _ (v.purgeLegend level)
  · exact ⟨rfl, rfl, rfl, rfl⟩

/-- What the layout, the links and the legend make of a view. -/
structure LaidOut (v v' : View) : Prop where
  diagram : v'.diagram = v.diagram
  flags : v'.drawn.canvasNodes = v.drawn.canvasNodes
  displayed : v'.drawn.displayedNodes = v.drawn.displayedNodes
  itemKeys : v.nodeItems.SameKeys v'.nodeItems
  items : ∀ id, v'.nodeItems.lookup id = (v.drawn.canvasNodes.lookup id).map DrawnNode.shown
  links : ∀ id, v'.canvasLinks.lookup id = (v.diagram.capture.allLinks.lookup id).map
    fun _ => ⟨v.shown id.dst && v.shown id.src⟩

theorem laidOut (hkeys : v.nodeItems.SameKeys v.drawn.canvasNodes)
    (hsettled : v.drawn.needReposition = false → ∀ id,
      v.nodeItems.lookup id = (v.drawn.canvasNodes.lookup id).map DrawnNode.shown) (level : Level) :
    LaidOut v (v.repositionCanvasNodes.updateCanvasLinks.updateLegend level) := by
  obtain ⟨hdiagram, hdrawn, hitems, hlinks⟩ :=
    updateLegend_canvas v.repositionCanvasNodes.updateCanvasLinks level
  obtain ⟨hdiagram', hdrawn', _⟩ := repositionCanvasNodes_rest v
  have hshown : ∀ id, v.repositionCanvasNodes.shown id = v.shown id := by
    intro id
    rw [shown, hdrawn', shown]
  refine ⟨?_, ?_, ?_, ?_, fun id => ?_, fun id => ?_⟩
  · rw [hdiagram]
    exact hdiagram'
  · rw [hdrawn]
    change v.repositionCanvasNodes.drawn.canvasNodes = v.drawn.canvasNodes
    rw [hdrawn']
  · rw [hdrawn]
    change v.repositionCanvasNodes.drawn.displayedNodes = v.drawn.displayedNodes
    rw [hdrawn']
  · rw [hitems]
    exact sameKeys_repositionCanvasNodes (SortedTree.SameKeys.refl v.nodeItems)
  · rw [hitems]
    exact lookup_repositionCanvasNodes hkeys hsettled id
  · rw [hlinks, lookup_updateCanvasLinks, hdiagram', hshown, hshown]

section Finish

variable {behind : NodeId → α} {level : Level}

theorem finishNodes_eq_some (h : v.finishNodes pref nodeLimit behind level = some v') :
    ∃ (deleteList : List NodeId) (w : View), v.diagram.phase = .canvasNodes [] deleteList ∧
      v.diagram.finishNodes pref = some w.diagram ∧
      w.drawn = limitNodes behind nodeLimit { v.drawn with
        canvasNodes := deleteList.foldl SortedTree.remove v.drawn.canvasNodes } ∧
      w.nodeItems = deleteList.foldl SortedTree.remove v.nodeItems ∧
      w.legend = v.legend ∧ w.knownProtocols = v.knownProtocols ∧
      v' = w.repositionCanvasNodes.updateCanvasLinks.updateLegend level := by
  unfold finishNodes at h
  split at h
  next deleteList hphase =>
    obtain ⟨diagram, hdiagram, rfl⟩ := Option.map_eq_some_iff.mp h
    let removed := { v with diagram := diagram }.removeCanvasNodes deleteList
    exact ⟨deleteList, { removed with drawn := limitNodes behind nodeLimit removed.drawn }, hphase,
      hdiagram, rfl, rfl, rfl, rfl, rfl⟩
  next => cases h

theorem finishNodes_diagram (h : v.finishNodes pref nodeLimit behind level = some v') :
    v.diagram.finishNodes pref = some v'.diagram := by
  obtain ⟨_, w, _, hdiagram, _, _, _, _, rfl⟩ := finishNodes_eq_some h
  rw [(updateLegend_canvas _ level).1]
  change v.diagram.finishNodes pref = some w.repositionCanvasNodes.diagram
  rw [repositionCanvasNodes_diagram, hdiagram]

theorem drawn_of_shown (hflags : v.diagram.canvasNodes.SameKeys v.drawn.canvasNodes)
    (hitems : ∀ id, v.nodeItems.lookup id = (v.drawn.canvasNodes.lookup id).map DrawnNode.shown)
    {id : NodeId} (hid : v.shown id = true) : v.Drawn id := by
  have hitem := hitems id
  have hthere := hflags.isSome_lookup id
  rw [shown] at hid
  cases hnode : v.drawn.canvasNodes.lookup id with
  | none =>
      rw [hnode] at hid
      cases hid
  | some node =>
      rw [hnode] at hid hitem hthere
      refine ⟨hthere, ?_, ?_⟩
      · rw [shown, hnode]
        exact hid
      · rw [hitem, Option.map_some, Option.some_inj]
        exact hid

/-- A refresh brings the canvas up to date. -/
theorem Agrees.finishNodes (h : v.Agrees nodeLimit)
    (hv' : v.finishNodes pref nodeLimit behind level = some v') :
    v'.Refreshed nodeLimit ∧ v'.Agrees nodeLimit := by
  obtain ⟨deleteList, w, hphase, hdiagram, hdrawn, hitems, _, _, hw⟩ := finishNodes_eq_some hv'
  set kept := deleteList.foldl SortedTree.remove v.drawn.canvasNodes with hkept
  have hcanvas : w.diagram.canvasNodes = deleteList.foldl SortedTree.remove v.diagram.canvasNodes := by
    rw [Diagram.finishNodes, hphase] at hdiagram
    rw [← Option.some.inj hdiagram]
  have hflags : w.diagram.canvasNodes.SameKeys w.drawn.canvasNodes := by
    rw [hcanvas, hdrawn]
    exact (h.flags.foldl_remove deleteList).trans (sameKeys_limitNodes behind nodeLimit
      { v.drawn with canvasNodes := kept }).symm
  have hitemKeys : w.diagram.canvasNodes.SameKeys w.nodeItems := by
    rw [hcanvas, hitems]
    exact h.items.foldl_remove deleteList
  have hall : nodeLimit < 0 → ∀ id node, kept.lookup id = some node → node.shown = true := by
    intro hneg id node hnode
    rw [hkept, SortedTree.lookup_foldl_remove] at hnode
    split at hnode
    · cases hnode
    · exact h.unlimited hneg id node hnode
  have hsettled : w.drawn.needReposition = false → ∀ id,
      w.nodeItems.lookup id = (w.drawn.canvasNodes.lookup id).map DrawnNode.shown := by
    intro hneed id
    rw [hdrawn] at hneed
    obtain ⟨hneed, hsame⟩ := lookup_limitNodes behind nodeLimit _ hneed
    rw [hdrawn, hitems, hsame id]
    dsimp only
    rw [hkept, SortedTree.lookup_foldl_remove, SortedTree.lookup_foldl_remove]
    split
    · rfl
    · exact h.settled hneed id
  have hlaid := laidOut (hitemKeys.symm.trans hflags) hsettled level
  rw [← hw] at hlaid
  have hshown : ∀ id, v'.shown id = w.shown id := by
    intro id
    rw [shown, hlaid.flags, shown]
  have hflags' : v'.diagram.canvasNodes.SameKeys v'.drawn.canvasNodes := by
    rw [hlaid.diagram, hlaid.flags]
    exact hflags
  have hitemKeys' : v'.diagram.canvasNodes.SameKeys v'.nodeItems := by
    rw [hlaid.diagram]
    exact hitemKeys.trans hlaid.itemKeys
  have hitem : ∀ id, v'.nodeItems.lookup id =
      (v'.drawn.canvasNodes.lookup id).map DrawnNode.shown := by
    rw [hlaid.flags]
    exact hlaid.items
  have hlink : ∀ id, v'.canvasLinks.lookup id = (v'.diagram.capture.allLinks.lookup id).map
      fun _ => ⟨v'.shown id.dst && v'.shown id.src⟩ := by
    intro id
    rw [hlaid.links, hlaid.diagram, hshown, hshown]
  obtain ⟨hcount, hdisplayed⟩ := countP_limitNodes behind nodeLimit
    { v.drawn with canvasNodes := kept } hall
  rw [← hdrawn] at hcount hdisplayed
  have hlength : kept.entries.length = v'.diagram.canvasNodes.entries.length := by
    rw [hlaid.diagram, hcanvas, (h.flags.foldl_remove deleteList).length_eq]
  have hvisible : v'.nodeItems.entries.countP (fun e => e.2) =
      w.drawn.canvasNodes.entries.countP fun e => e.2.shown := by
    rw [v'.nodeItems.countP_entries fun item => item, w.drawn.canvasNodes.countP_entries,
      ← hitemKeys', hflags', hlaid.flags]
    apply List.countP_congr
    intro id _
    rw [hlaid.items, Option.any_map]
  refine ⟨⟨fun id => ?_, hlink, ?_, ?_⟩, ⟨hflags', hitemKeys', fun _ => hitem, ?_, ?_⟩⟩
  · rw [hitem, map_shown hflags']
  · rw [hvisible, hcount, hlength]
  · rw [hvisible, hcount, hlaid.displayed, hdisplayed]
  · intro hneg id node hnode
    rw [hlaid.flags, hdrawn, limitNodes, if_pos hneg] at hnode
    exact hall hneg id node hnode
  · intro id canvasLink hlookup hvisible
    rw [hlink] at hlookup
    obtain ⟨_, _, rfl⟩ := Option.map_eq_some_iff.mp hlookup
    obtain ⟨hdst, hsrc⟩ := Bool.and_eq_true_iff.mp hvisible
    exact ⟨drawn_of_shown hflags' hitem hsrc, drawn_of_shown hflags' hitem hdst⟩

end Finish

/-! ### Runs -/

theorem Agrees.beginUpdate (h : v.Agrees nodeLimit) (now : Timeval) (pref : Preferences) :
    (v.beginUpdate now pref).Agrees nodeLimit := by
  have hupdated : View.Agrees nodeLimit { v with diagram := { v.diagram with
      capture := { v.diagram.capture with now := now }.nodesUpdate pref } } :=
    h.of_eq rfl rfl rfl rfl id
  exact (hupdated.checkNewNodes pref _).of_eq rfl rfl rfl rfl id

theorem Agrees.guiStopCapture (h : v.Agrees nodeLimit) : v.guiStopCapture.Agrees nodeLimit := by
  have hcanvas : v.diagram.guiStopCapture.canvasNodes = v.diagram.canvasNodes := by
    unfold Diagram.guiStopCapture
    dsimp only
    split
    · rfl
    · split <;> rfl
  have hstopped : View.Agrees nodeLimit { v with diagram := v.diagram.guiStopCapture } :=
    h.of_eq hcanvas rfl rfl rfl id
  unfold View.guiStopCapture
  dsimp only
  split
  · exact hstopped
  · split
    · exact hstopped.of_eq rfl rfl rfl rfl id
    · exact hstopped

theorem Agrees.finishUpdate {keepTimer : Bool} (h : v.Agrees nodeLimit)
    (hv' : v.finishUpdate now keepTimer = some v') : v'.Agrees nodeLimit := by
  unfold View.finishUpdate at hv'
  split at hv'
  next =>
    have hidle : View.Agrees nodeLimit { v with diagram := { v.diagram with
        capture := { v.diagram.capture with now := now }, phase := .idle } } :=
      h.of_eq rfl rfl rfl rfl id
    obtain rfl := Option.some.inj hv'
    split
    · exact hidle.guiStopCapture
    · exact hidle
  next => cases hv'

theorem Agrees.step {e : ViewEvent α} (h : v.Agrees nodeLimit) (hv' : v.step nodeLimit e = some v') :
    v'.Agrees nodeLimit := by
  cases e with
  | capture e =>
      obtain ⟨diagram, hdiagram, rfl⟩ := Option.map_eq_some_iff.mp hv'
      refine h.of_eq ?_ rfl rfl rfl id
      simp only [Diagram.step] at hdiagram
      split at hdiagram
      · cases hdiagram
      · obtain ⟨_, _, rfl⟩ := Option.map_eq_some_iff.mp hdiagram
        rfl
  | guiStopCapture =>
      obtain rfl := Option.some.inj hv'
      exact h.guiStopCapture
  | askReposition =>
      obtain rfl := Option.some.inj hv'
      exact h.of_eq rfl rfl rfl rfl fun hneed => Bool.noConfusion hneed
  | deleteGuiProtocols =>
      obtain rfl := Option.some.inj hv'
      exact h.of_eq rfl rfl rfl rfl id
  | beginUpdate now pref =>
      obtain ⟨_, _, rfl⟩ := Option.map_eq_some_iff.mp hv'
      exact h.beginUpdate now pref
  | visitCanvasNode pref => exact h.visitCanvasNode hv'
  | finishNodes pref behind level => exact (h.finishNodes hv').2
  | finishUpdate now keepTimer => exact h.finishUpdate hv'

section Runs

variable {past : List (View × ViewEvent α)}

theorem agrees_of_run (h : (machine now nodeLimit).Run past v) : v.Agrees nodeLimit := by
  induction h with
  | start => exact Agrees.initial nodeLimit now
  | step _ e hstep ih => exact ih.step hstep

/-- **Ends of links.** In whatever order packets, refreshes, stops and the dialog come, a link that is
visible has a canvas node for either end, which is shown and whose item is visible. -/
theorem run_link_ends (h : (machine now nodeLimit).Run past v) {id : LinkId} {canvasLink : CanvasLink}
    (hlink : v.canvasLinks.lookup id = some canvasLink) (hvisible : canvasLink.visible = true) :
    v.Drawn id.src ∧ v.Drawn id.dst := (agrees_of_run h).links id canvasLink hlink hvisible

/-- A frame between two nodes, and a refresh up to the traversal of the canvas nodes. -/
def frameShown : List (ViewEvent Nat) :=
  let pref : Preferences := ⟨1000, 0, 1000, 0, 0, 0, 0⟩
  [.capture .startCapture,
    .capture (.packetAcquired (DecodeEnv.bare linktypeEthernet .link6)
      (fun i => i.toUInt8) 60 60 ⟨7, 1, 2⟩),
    .beginUpdate ⟨10, 0⟩ pref, .visitCanvasNode pref, .visitCanvasNode pref]

theorem run_link_ends_frame : ∃ past v id canvasLink,
    (machine (α := Nat) ⟨10, 0⟩ (-1)).Run past v ∧ v.canvasLinks.lookup id = some canvasLink ∧
      canvasLink.visible = true ∧ v.Drawn id.src ∧ v.Drawn id.dst := by
  let pref : Preferences := ⟨1000, 0, 1000, 0, 0, 0, 0⟩
  have hlinks : ((machine (α := Nat) ⟨10, 0⟩ (-1)).stepAll (View.initial ⟨10, 0⟩)
      (frameShown ++ [.finishNodes pref (fun _ => 0) 1])).map (fun v =>
        v.canvasLinks.entries.map fun e => e.2.visible) = some [true] := by decide +kernel
  obtain ⟨v, hv, hvisible⟩ := Option.map_eq_some_iff.mp hlinks
  obtain ⟨past, hrun, _⟩ := Machine.Run.start.stepAll hv
  obtain ⟨e, he, hshown⟩ := List.mem_map.mp (hvisible ▸ List.mem_singleton_self true)
  have hlookup : v.canvasLinks.lookup e.1 = some e.2 :=
    SortedTree.lookup_eq_some_iff.mpr ⟨e.1, he, ThreeWay.refl e.1⟩
  exact ⟨past, v, e.1, e.2, hrun, hlookup, hshown, run_link_ends hrun hlookup hshown⟩

/-- **Refreshed canvas.** After the nodes and links of a refresh in any run, the visible items are those
of the shown nodes, as many as the limit allows, and the links are those of the catalog, each visible
just when both of its ends are shown. -/
theorem run_refreshed (h : (machine now nodeLimit).Run past v) {behind : NodeId → α} {level : Level}
    (hv' : v.finishNodes pref nodeLimit behind level = some v') : v'.Refreshed nodeLimit :=
  ((agrees_of_run h).finishNodes hv').1

/-- With a limit of one node, one of the two is shown. -/
theorem run_refreshed_frame : ∃ past v v', (machine (α := Nat) ⟨10, 0⟩ 1).Run past v ∧
    v.finishNodes ⟨1000, 0, 1000, 0, 0, 0, 0⟩ 1 (fun _ => 0) 1 = some v' ∧ v'.Refreshed 1 ∧
      v'.diagram.canvasNodes.entries.length = 2 := by
  have hnodes : ((machine (α := Nat) ⟨10, 0⟩ 1).stepAll (View.initial ⟨10, 0⟩) frameShown).bind
      (fun v => (v.finishNodes ⟨1000, 0, 1000, 0, 0, 0, 0⟩ 1 (fun _ => 0) 1).map
        fun v => v.diagram.canvasNodes.entries.length) = some 2 := by decide +kernel
  obtain ⟨v, hv, hfinish⟩ := Option.bind_eq_some_iff.mp hnodes
  obtain ⟨v', hv', hlength⟩ := Option.map_eq_some_iff.mp hfinish
  obtain ⟨past, hrun, _⟩ := Machine.Run.start.stepAll hv
  exact ⟨past, v, v', hrun, hv', run_refreshed hrun hv', hlength⟩

end Runs

end View

end EtherApe
