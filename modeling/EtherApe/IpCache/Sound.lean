import EtherApe.IpCache

/-!
# What the cache keeps

A sound cache holds its items in both tables, and its active items in a ring. Each operation on a
sound cache ends, leaves a sound one, and keeps the contents of all items but those it purges.
-/

namespace EtherApe

/-- An item without its links. -/
def IpcacheItem.content (item : IpcacheItem) : IpcacheItem :=
  idLinks.data (ipLinks.data (activeLinks.data item))

/-- The parts of an item that the tables and the ring rest on. -/
def IpcacheItem.skeleton (item : IpcacheItem) : IpcacheItem :=
  { item with expireTick := 0, lastExpireTick := 0, fqHostname := none, state := .ptrreq }

namespace Ipcache

def Live (s : Ipcache) (r : ItemRef) : Prop := (s.heap r).isSome

/-- The active items, the one used last first. -/
structure Active (s : Ipcache) (ring : List ItemRef) : Prop where
  linked : activeLinks.Ring s.heap ring
  nodup : ring.Nodup
  head : s.activeList = ring.head?
  count : s.numActive = ring.length
  unlinked : ∀ r item, s.heap r = some item → r ∉ ring → item.nextActive = none

/-- A cache between two calls: each table holds the live items. -/
structure Sound (s : Ipcache) (ring : List ItemRef) : Prop where
  ids : ∃ chains, idTable.Holds s.heap s.idbash s.Live chains
  ips : ∃ chains, ipTable.Holds s.heap s.ipbash s.Live chains
  active : s.Active ring
  allocated : ∀ r, s.Live r → r < s.allocated

/-- The items of a cache are those of another, but for links and the items that are gone. -/
structure Kept (s s' : Ipcache) (gone : ItemRef → Prop) : Prop where
  content : ∀ r, ¬gone r → (s'.heap r).map IpcacheItem.content = (s.heap r).map IpcacheItem.content
  freed : ∀ r, gone r → s'.heap r = none
  allocated : s'.allocated = s.allocated
  currentTick : s'.currentTick = s.currentTick
  idseed : s'.idseed = s.idseed
  aseed : s'.aseed = s.aseed

variable {s s' s'' : Ipcache} {r : ItemRef} {item : IpcacheItem} {ring as bs : List ItemRef}
  {heap : Heap ItemRef IpcacheItem}

theorem Live.exists (hr : s.Live r) : ∃ item, s.heap r = some item := Option.isSome_iff_exists.mp hr

theorem live_of_eq (hr : s.heap r = some item) : s.Live r := by
  rw [Live, hr]
  rfl

theorem Kept.trans {gone gone' : ItemRef → Prop} (h : s.Kept s' gone) (h' : s'.Kept s'' gone') :
    s.Kept s'' fun r => gone r ∨ gone' r where
  content r hr := by
    obtain ⟨hr, hr'⟩ := not_or.mp hr
    rw [h'.content r hr', h.content r hr]
  freed r hr := by
    by_cases hr' : gone' r
    · exact h'.freed r hr'
    · have hcontent := h'.content r hr'
      rw [h.freed r (hr.resolve_right hr'), Option.map_none] at hcontent
      exact Option.map_eq_none_iff.mp hcontent
  allocated := h'.allocated.trans h.allocated
  currentTick := h'.currentTick.trans h.currentTick
  idseed := h'.idseed.trans h.idseed
  aseed := h'.aseed.trans h.aseed

theorem Kept.live_iff {gone : ItemRef → Prop} (h : s.Kept s' gone) :
    s'.Live r ↔ s.Live r ∧ ¬gone r := by
  by_cases hr : gone r
  · simp [Live, h.freed r hr, hr]
  · have hcontent := congrArg Option.isSome (h.content r hr)
    simp only [Option.isSome_map] at hcontent
    simp [Live, hcontent, hr]

theorem Kept.of_iff {gone gone' : ItemRef → Prop} (h : s.Kept s' gone)
    (hgone : ∀ r, gone r ↔ gone' r) : s.Kept s' gone' := by
  obtain rfl : gone = gone' := funext fun r => propext (hgone r)
  exact h

/-! ### The ring -/

theorem next_eq_none {t : ItemRef} {heap' : Heap ItemRef IpcacheItem}
    (hnone : ∀ item, heap t = some item → item.nextActive = none)
    (hview : (heap' t).map activeLinks.view = (heap t).map activeLinks.view)
    (ht : heap' t = some item) : item.nextActive = none := by
  rw [ht] at hview
  obtain ⟨item', hitem', hlinks⟩ := Option.map_eq_some_iff.mp hview.symm
  exact (Prod.mk.inj hlinks).2.symm.trans (hnone item' hitem')

/-- Taking an item out of the ring. The item itself still has its links. -/
theorem Active.unlinkActivelist (h : s.Active (as ++ r :: bs)) :
    ∃ heap, s.unlinkActivelist r = some { s with
        heap := heap
        activeList := (as ++ bs).head?
        numActive := (as ++ bs).length } ∧
      activeLinks.SameData s.heap heap ∧ activeLinks.Ring heap (as ++ bs) ∧
      ∀ t, t ∉ as ++ bs → heap t = s.heap t := by
  obtain ⟨⟨item, hitem, hprevious, hnext⟩, _⟩ := h.linked.rotate
  have hr : r ∉ as ++ bs := (List.nodup_cons.mp (List.nodup_middle.mp h.nodup)).1
  have hcount := h.count
  rcases hrest : bs ++ as with _ | ⟨next, rest⟩
  · -- The last item of the ring.
    obtain ⟨rfl, rfl⟩ := List.append_eq_nil_iff.mp hrest
    refine ⟨s.heap, ?_, LinkFields.SameData.refl, trivial, fun t _ => rfl⟩
    have hnext' : item.nextActive = some r := hnext
    simp [Ipcache.unlinkActivelist, hitem, hnext']
  · have hne : as ++ bs ≠ [] := by
      intro heq
      obtain ⟨rfl, rfl⟩ := List.append_eq_nil_iff.mp heq
      exact List.cons_ne_nil _ _ hrest.symm
    obtain ⟨heap, hdetach, hring, hframe⟩ := h.linked.detach h.nodup hne
    refine ⟨heap, ?_, LinkFields.SameData.detach hdetach, hring, hframe⟩
    have hnext' : item.nextActive = some next := by
      refine hnext.trans ?_
      rw [show bs.append as = next :: rest from hrest]
      rfl
    have hself : next ≠ r := by
      rintro rfl
      exact hr (List.perm_append_comm.mem_iff.mp (hrest ▸ List.mem_cons_self))
    obtain ⟨previous, hprevious'⟩ : ∃ previous, item.previousActive = some previous :=
      ⟨_, hprevious.trans List.getLast?_cons⟩
    have hhead : (if s.activeList = some r then some next else s.activeList) = (as ++ bs).head? := by
      rw [h.head]
      cases as with
      | nil =>
          obtain rfl : bs = next :: rest := by simpa using hrest
          simp
      | cons a as =>
          have har : a ≠ r := by
            rintro rfl
            exact hr (by simp)
          simp [har]
    have hlength : s.numActive - 1 = (as ++ bs).length := by
      rw [hcount]
      simp only [List.length_append, List.length_cons]
      omega
    simp only [Ipcache.unlinkActivelist, hitem, hnext', hself, hprevious', hdetach, hhead, hlength,
      Option.bind_eq_bind, Option.bind_some, if_false]

/-! ### The tables -/

theorem holds_length {κ β : Type} {T : ChainTable ItemRef IpcacheItem κ β} {table : β → Option ItemRef}
    {dom : ItemRef → Prop} {chains : β → List ItemRef} {n : Nat}
    (hT : T.Holds heap table dom chains) (hdom : ∀ r, dom r → r < n) (b : β) :
    (chains b).length ≤ n := by
  have hsubset : chains b ⊆ List.range n := fun r hr =>
    List.mem_range.mpr (hdom r ((hT.mem_iff b r).mp hr).1)
  simpa using (List.subperm_of_subset (hT.nodup b) hsubset).length_le

theorem holds_of_iff {κ β : Type} {T : ChainTable ItemRef IpcacheItem κ β}
    {table : β → Option ItemRef} {dom dom' : ItemRef → Prop} {chains : β → List ItemRef}
    (hT : T.Holds heap table dom chains) (hdom : ∀ r, dom r ↔ dom' r) :
    T.Holds heap table dom' chains := by
  obtain rfl : dom = dom' := funext fun r => propext (hdom r)
  exact hT

/-- Taking an item out of the ring and both tables, and freeing it. -/
theorem Sound.free (h : s.Sound (as ++ r :: bs)) :
    ∃ s', s.unlinkresolve r = some s' ∧
      Sound { s' with heap := s'.heap.free r } (as ++ bs) ∧
      s.Kept { s' with heap := s'.heap.free r } (· = r) := by
  obtain ⟨idChains, hids⟩ := h.ids
  obtain ⟨ipChains, hips⟩ := h.ips
  obtain ⟨item, hitem⟩ := h.active.linked.live (by simp : r ∈ as ++ r :: bs)
  have hr : r ∉ as ++ bs := (List.nodup_cons.mp (List.nodup_middle.mp h.active.nodup)).1
  obtain ⟨heap₁, hactive, hdata₁, hring, hframe₁⟩ := h.active.unlinkActivelist
  have hids₁ : idTable.Holds heap₁ s.idbash s.Live idChains :=
    hids.sameData hdata₁ (fun _ => rfl) fun _ => rfl
  have hips₁ : ipTable.Holds heap₁ s.ipbash s.Live ipChains :=
    hips.sameData hdata₁ (fun _ => rfl) fun _ => rfl
  obtain ⟨heap₂, idbash, idChains', hunlinkid, hdata₂, hids₂⟩ :=
    hids₁.unlink ((hframe₁ r hr).trans hitem) (live_of_eq hitem)
  have hips₂ : ipTable.Holds heap₂ s.ipbash s.Live ipChains :=
    hips₁.sameData hdata₂ (fun _ => rfl) fun _ => rfl
  obtain ⟨item₂, hitem₂⟩ : ∃ item₂, heap₂ r = some item₂ := by
    rw [← Option.isSome_iff_exists, hdata₂.isSome, hdata₁.isSome, hitem]
    rfl
  obtain ⟨heap₃, ipbash, ipChains', hunlinkip, hdata₃, hips₃⟩ :=
    hips₂.unlink hitem₂ (live_of_eq hitem)
  have hids₃ : idTable.Holds heap₃ idbash (fun t => s.Live t ∧ t ≠ r) idChains' :=
    hids₂.sameData hdata₃ (fun _ => rfl) fun _ => rfl
  have hunlink : s.unlinkresolve r = some { s with
      heap := heap₃
      idbash := idbash
      ipbash := ipbash
      activeList := (as ++ bs).head?
      numActive := (as ++ bs).length } := by
    simp [unlinkresolve, hactive, unlinkresolveid, hunlinkid, unlinkresolveip, hunlinkip]
  have hkeep : ∀ t, t ≠ r → Heap.free heap₃ r t = heap₃ t := fun t ht =>
    Function.update_of_ne ht _ _
  have hcontent : ∀ t, (heap₃ t).map IpcacheItem.content = (s.heap t).map IpcacheItem.content :=
    fun t => ((hdata₃.map (fun _ => rfl) t).trans (hdata₂.map (fun _ => rfl) t)).trans
      (hdata₁.map (fun _ => rfl) t)
  have hkept : s.Kept { s with
      heap := Heap.free heap₃ r
      idbash := idbash
      ipbash := ipbash
      activeList := (as ++ bs).head?
      numActive := (as ++ bs).length } (· = r) := by
    refine ⟨fun t ht => ?_, fun t ht => ?_, rfl, rfl, rfl, rfl⟩
    · rw [← hcontent t]
      exact congrArg _ (hkeep t ht)
    · subst ht
      exact Function.update_self _ _ _
  have hgone : ¬(s.Live r ∧ r ≠ r) := fun hlive => hlive.2 rfl
  refine ⟨_, hunlink, ⟨⟨idChains', ?_⟩, ⟨ipChains', ?_⟩, ?_, ?_⟩, hkept⟩
  · exact holds_of_iff (hids₃.free hgone) fun t => hkept.live_iff.symm
  · exact holds_of_iff (hips₃.free hgone) fun t => hkept.live_iff.symm
  · have hview : ∀ t, (heap₃ t).map activeLinks.view = (heap₁ t).map activeLinks.view := fun t =>
      (hdata₃.map (fun _ => rfl) t).trans (hdata₂.map (fun _ => rfl) t)
    refine ⟨LinkFields.Seg.congr hring fun t ht => ?_,
      (List.nodup_cons.mp (List.nodup_middle.mp h.active.nodup)).2, rfl, rfl,
      fun t titem ht hmem => ?_⟩
    · exact (congrArg _ (hkeep t fun heq => hr (heq ▸ ht))).trans (hview t)
    · have htr : t ≠ r := by
        rintro rfl
        exact absurd ht (by simp [Heap.free])
      refine next_eq_none (fun item' hitem' => h.active.unlinked t item' hitem' fun hmem' => ?_)
        ((hview t).trans (congrArg _ (hframe₁ t hmem))) ((hkeep t htr).symm.trans ht)
      rcases List.mem_cons.mp (List.perm_middle.mem_iff.mp hmem') with heq | hmem'
      · exact htr heq
      · exact hmem hmem'
  · exact fun t ht => h.allocated t (hkept.live_iff.mp ht).1

/-! ### Purging -/

theorem Active.tail (h : s.Active (as ++ [r])) : ∃ head item, s.activeList = some head ∧
    s.heap head = some item ∧ item.previousActive = some r := by
  have hring := h.linked
  have hhead := h.head
  rw [LinkFields.Ring, List.getLast?_concat] at hring
  cases as with
  | nil =>
      obtain ⟨⟨item, hitem, hprevious, _⟩, _⟩ := hring
      exact ⟨r, item, hhead, hitem, hprevious⟩
  | cons a as =>
      obtain ⟨⟨item, hitem, hprevious, _⟩, _⟩ := hring
      exact ⟨a, item, hhead, hitem, hprevious⟩

theorem Sound.dropTail (h : s.Sound (as ++ [r])) :
    ∃ s', s.dropTail = some s' ∧ s'.Sound as ∧ s.Kept s' (· = r) := by
  obtain ⟨head, item, hhead, hitem, hprevious⟩ := h.active.tail
  obtain ⟨s', hunlink, hsound, hkept⟩ := h.free
  rw [List.append_nil] at hsound
  exact ⟨_, by simp [Ipcache.dropTail, hhead, hitem, hprevious, hunlink], hsound, hkept⟩

theorem Kept.refl : s.Kept s fun _ => False := ⟨fun _ _ => rfl, fun _ => False.elim, rfl, rfl, rfl, rfl⟩

/-- The loop ends with the first items of the ring: as many as it takes for `more` to fail. -/
theorem Sound.dropWhile (h : s.Sound ring) (more : Int → Bool) (fuel : Nat)
    (hfuel : ring.length ≤ fuel) :
    ∃ s' m, s.dropWhile more fuel = some s' ∧ m ≤ ring.length ∧ s'.Sound (ring.take m) ∧
      s.Kept s' (· ∈ ring.drop m) ∧ (m = 0 ∨ more m = false) ∧
      ∀ j : Nat, m < j → j ≤ ring.length → more j = true := by
  induction fuel generalizing s ring with
  | zero =>
      obtain rfl := List.length_eq_zero_iff.mp (Nat.le_zero.mp hfuel)
      refine ⟨s, 0, ?_, le_rfl, h, Kept.refl.of_iff (by simp), Or.inl rfl, fun j hj hj' => ?_⟩
      · simp [Ipcache.dropWhile, h.active.head]
      · exact absurd hj' (Nat.not_le.mpr hj)
  | succ fuel ih =>
      by_cases hmore : s.activeList.isSome ∧ s.numActive > 0 ∧ more s.numActive
      · rcases List.eq_nil_or_concat' ring with rfl | ⟨as, r, rfl⟩
        · simp [h.active.head] at hmore
        · obtain ⟨s₁, hdrop, hsound, hkept⟩ := h.dropTail
          obtain ⟨s', m, hloop, hm, hsound', hkept', hlast, hbelow⟩ :=
            ih hsound (by simpa using hfuel)
          refine ⟨s', m, ?_, by simp; omega, ?_, ?_, hlast, fun j hj hj' => ?_⟩
          · rw [Ipcache.dropWhile, if_pos hmore, hdrop]
            exact hloop
          · rwa [List.take_append_of_le_length hm]
          · rw [List.drop_append_of_le_length hm]
            exact (hkept.trans hkept').of_iff fun t => by simp [or_comm]
          · rcases Nat.lt_or_ge as.length j with hlt | hge
            · have hcount := h.active.count
              obtain rfl : j = (as ++ [r]).length := by simp at hj' ⊢; omega
              rw [← hcount]
              exact hmore.2.2
            · exact hbelow j hj hge
      · have hstop : ring.length = 0 ∨ more ring.length = false := by
          rw [h.active.head, h.active.count] at hmore
          cases ring <;> simp at hmore ⊢
          exact hmore
        refine ⟨s, ring.length, by rw [Ipcache.dropWhile, if_neg hmore], le_rfl, ?_, ?_, hstop,
          fun j hj hj' => absurd hj' (Nat.not_le.mpr hj)⟩
        · rwa [List.take_length]
        · exact Kept.refl.of_iff (by simp)

theorem mem_drop_iff {n : Nat} {t : ItemRef} (hnodup : ring.Nodup) :
    t ∈ ring ∧ t ∉ ring.take n ↔ t ∈ ring.drop n := by
  have hsplit := hnodup
  rw [← List.take_append_drop n ring] at hsplit
  constructor
  · rintro ⟨hmem, hnot⟩
    rw [← List.take_append_drop n ring] at hmem
    exact (List.mem_append.mp hmem).resolve_left hnot
  · exact fun hmem => ⟨List.mem_of_mem_drop hmem, fun htake =>
      List.disjoint_of_nodup_append hsplit htake hmem⟩

/-- What is left of a ring after making room for one more item. -/
def purged (ring : List ItemRef) : List ItemRef := if ring.length > 1024 then ring.take 1013 else ring

theorem Sound.purgeActivelist (h : s.Sound ring) :
    ∃ s', s.purgeActivelist = some s' ∧ s'.Sound (purged ring) ∧
      s.Kept s' fun t => t ∈ ring ∧ t ∉ purged ring := by
  have hcount := h.active.count
  by_cases hfull : ring.length > 1024
  · obtain ⟨s', m, hloop, hm, hsound, hkept, hstop, hbelow⟩ :=
      h.dropWhile (fun numActive => numActive ≥ maxActive - 10) _ le_rfl
    have hm' : m = 1013 := by
      have hlt := hbelow (m + 1)
      simp [maxActive] at hstop hlt
      omega
    subst hm'
    have hpurged : purged ring = ring.take 1013 := if_pos hfull
    refine ⟨s', ?_, hpurged ▸ hsound, hkept.of_iff fun t => ?_⟩
    · have hcond : s.numActive > maxActive ∧ s.numActive > 10 := by
        rw [hcount, maxActive]
        omega
      rw [Ipcache.purgeActivelist, if_pos hcond, hcount, Int.toNat_natCast]
      exact hloop
    · rw [hpurged, mem_drop_iff h.active.nodup]
  · have hpurged : purged ring = ring := if_neg hfull
    rw [hpurged]
    refine ⟨s, ?_, h, Kept.refl.of_iff (by simp)⟩
    have hcond : ¬(s.numActive > maxActive ∧ s.numActive > 10) := by
      rw [hcount, maxActive]
      omega
    rw [Ipcache.purgeActivelist, if_neg hcond]

theorem Sound.clear (h : s.Sound ring) :
    ∃ s', s.clear = some s' ∧ s'.Sound [] ∧ s.Kept s' (· ∈ ring) := by
  obtain ⟨s', m, hloop, _, hsound, hkept, hstop, _⟩ := h.dropWhile (fun _ => true) _ le_rfl
  obtain rfl : m = 0 := by simpa using hstop
  refine ⟨s', ?_, hsound, hkept⟩
  rw [Ipcache.clear, h.active.count, Int.toNat_natCast]
  exact hloop

/-! ### Making an item the head of the ring -/

/-- The ring after an item was used: the item first, and no more of the others than there is room
for. -/
def touch (ring : List ItemRef) (r : ItemRef) : List ItemRef :=
  r :: if r ∈ ring then ring.erase r else purged ring

theorem Sound.relink (h : s.Sound ring) (hdata : activeLinks.SameData s.heap heap)
    {activeList : Option ItemRef} {numActive : Int} {ring' : List ItemRef}
    (hactive : Active { s with heap := heap, activeList := activeList, numActive := numActive }
      ring') :
    Sound { s with heap := heap, activeList := activeList, numActive := numActive } ring' ∧
      s.Kept { s with heap := heap, activeList := activeList, numActive := numActive }
        fun _ => False := by
  have hkept : s.Kept { s with heap := heap, activeList := activeList, numActive := numActive }
      fun _ => False :=
    ⟨fun t _ => hdata.map (fun _ => rfl) t, fun _ => False.elim, rfl, rfl, rfl, rfl⟩
  have hlive : ∀ t, s.Live t ↔
      Live { s with heap := heap, activeList := activeList, numActive := numActive } t := fun t => by
    rw [hkept.live_iff]
    simp
  obtain ⟨idChains, hids⟩ := h.ids
  obtain ⟨ipChains, hips⟩ := h.ips
  refine ⟨⟨⟨idChains, holds_of_iff ?_ hlive⟩, ⟨ipChains, holds_of_iff ?_ hlive⟩, hactive,
    fun t ht => h.allocated t ((hlive t).mpr ht)⟩, hkept⟩
  · exact hids.sameData hdata (fun _ => rfl) fun _ => rfl
  · exact hips.sameData hdata (fun _ => rfl) fun _ => rfl

theorem Sound.insertHead (h : s.Sound ring) {head x : ItemRef} {tail : List ItemRef}
    (hdata : activeLinks.SameData s.heap heap) (hring : activeLinks.Ring heap (head :: tail))
    (hnodup : (head :: tail).Nodup) (hframe : ∀ t, t ∉ head :: tail → heap t = s.heap t)
    (hx : s.Live x) (hnew : x ∉ head :: tail) (hsubset : ∀ t ∈ ring, t = x ∨ t ∈ head :: tail) :
    ∃ heap', activeLinks.insertHead heap head x = some heap' ∧
      Sound { s with
        heap := heap'
        activeList := some x
        numActive := (head :: tail).length + 1 } (x :: head :: tail) ∧
      s.Kept { s with
        heap := heap'
        activeList := some x
        numActive := (head :: tail).length + 1 } fun _ => False := by
  obtain ⟨item, hitem⟩ := hx.exists
  obtain ⟨heap', hinsert, hring', hframe'⟩ :=
    hring.insertHead hnodup ((hframe x hnew).trans hitem) hnew
  refine ⟨heap', hinsert, h.relink (hdata.trans (LinkFields.SameData.insertHead hinsert))
    ⟨hring', List.nodup_cons.mpr ⟨hnew, hnodup⟩, rfl, by simp, fun t titem ht hmem => ?_⟩⟩
  have hmem' : t ∉ head :: tail := fun ht' => hmem (List.mem_cons_of_mem x ht')
  have ht' : s.heap t = some titem := by
    rw [← hframe t hmem', ← hframe' t hmem]
    exact ht
  refine h.active.unlinked t titem ht' fun htring => ?_
  rcases hsubset t htring with rfl | hold
  · exact hmem List.mem_cons_self
  · exact hmem' hold

theorem Sound.linkAlone (h : s.Sound []) (hr : s.Live r) :
    ∃ s', s.linkActivelist r = some s' ∧ s'.Sound [r] ∧ s.Kept s' fun _ => False := by
  obtain ⟨item, hitem⟩ := hr.exists
  have hhead : s.activeList = none := h.active.head
  have hwrite := Heap.write_of_eq
    (f := fun item : IpcacheItem => { item with nextActive := some r, previousActive := some r }) hitem
  have hdata : activeLinks.SameData s.heap (Function.update s.heap r
      (some { item with nextActive := some r, previousActive := some r })) := by
    refine LinkFields.SameData.write ?_ hwrite
    exact fun _ => rfl
  have hlink : s.linkActivelist r = some { s with
      heap := Function.update s.heap r
        (some { item with nextActive := some r, previousActive := some r })
      activeList := some r
      numActive := 1 } := by
    simp [Ipcache.linkActivelist, hhead, hwrite]
  refine ⟨_, hlink, h.relink hdata ⟨⟨⟨_, Function.update_self _ _ _, rfl, rfl⟩, trivial⟩,
    List.nodup_singleton r, rfl, rfl, fun t titem ht hmem => ?_⟩⟩
  have htr : t ≠ r := fun heq => hmem (by simp [heq])
  exact h.active.unlinked t titem ((Function.update_of_ne htr _ _).symm.trans ht) List.not_mem_nil

theorem Sound.moveToHead (h : s.Sound (as ++ r :: bs)) (has : as ≠ []) :
    ∃ s', s.linkActivelist r = some s' ∧ s'.Sound (r :: (as ++ bs)) ∧
      s.Kept s' fun _ => False := by
  have hmem : r ∈ as ++ r :: bs := by simp
  obtain ⟨item, hitem⟩ := h.active.linked.live hmem
  have hnext : item.nextActive ≠ none := h.active.linked.next_ne_none hmem hitem
  obtain ⟨hnew, hnodup⟩ := List.nodup_cons.mp (List.nodup_middle.mp h.active.nodup)
  obtain ⟨heap, hunlink, hdata, hring, hframe⟩ := h.active.unlinkActivelist
  have hhead := h.active.head
  obtain ⟨head, as, rfl⟩ := List.exists_cons_of_ne_nil has
  have hfirst : head ≠ r := by
    rintro rfl
    exact hnew (by simp)
  obtain ⟨heap', hinsert, hsound, hkept⟩ := h.insertHead hdata hring hnodup hframe
    (live_of_eq hitem) hnew fun t ht => by
      simpa using List.mem_cons.mp (List.perm_middle.mem_iff.mp ht)
  refine ⟨_, ?_, hsound, hkept⟩
  simp [Ipcache.linkActivelist, hhead, hfirst, hitem, hnext, hunlink, hinsert]

theorem purged_eq_nil : purged ring = [] ↔ ring = [] := by
  unfold purged
  split_ifs with hfull
  · rw [List.take_eq_nil_iff]
    simp
  · rfl

theorem purged_subset : purged ring ⊆ ring := by
  unfold purged
  split_ifs
  · exact List.take_subset _ _
  · exact List.Subset.refl _

/-- An item that was not in the ring becomes its head, after the ring was purged. -/
theorem Sound.linkNew (h : s.Sound ring) (hr : s.Live r) (hnew : r ∉ ring) (hne : ring ≠ []) :
    ∃ s', s.linkActivelist r = some s' ∧ s'.Sound (r :: purged ring) ∧
      s.Kept s' fun t => t ∈ ring ∧ t ∉ purged ring := by
  obtain ⟨item, hitem⟩ := hr.exists
  have hnext : item.nextActive = none := h.active.unlinked r item hitem hnew
  obtain ⟨s₁, hpurge, hsound₁, hkept₁⟩ := h.purgeActivelist
  have hr₁ : s₁.Live r := hkept₁.live_iff.mpr ⟨hr, fun hgone => hnew hgone.1⟩
  have hnew₁ : r ∉ purged ring := fun hmem => hnew (purged_subset hmem)
  obtain ⟨head₁, tail₁, hpurged⟩ := List.exists_cons_of_ne_nil (purged_eq_nil.not.mpr hne)
  rw [hpurged] at hsound₁ hkept₁ hnew₁ ⊢
  obtain ⟨heap', hinsert, hsound, hkept⟩ := hsound₁.insertHead LinkFields.SameData.refl
    hsound₁.active.linked hsound₁.active.nodup (fun _ _ => rfl) hr₁ hnew₁ fun _ ht => Or.inr ht
  refine ⟨_, ?_, hsound, (hkept₁.trans hkept).of_iff (by simp)⟩
  obtain ⟨head, tail, rfl⟩ := List.exists_cons_of_ne_nil hne
  have hhead : s.activeList = some head := h.active.head
  have hhead₁ : s₁.activeList = some head₁ := hsound₁.active.head
  have hcount₁ := hsound₁.active.count
  have hfirst : head ≠ r := by
    rintro rfl
    exact hnew (by simp)
  simp [Ipcache.linkActivelist, hhead, hfirst, hitem, hnext, hpurge, hhead₁, hinsert, hcount₁]

/-- An item that is used becomes the head of the ring. -/
theorem Sound.linkActivelist (h : s.Sound ring) (hr : s.Live r) :
    ∃ s', s.linkActivelist r = some s' ∧ s'.Sound (touch ring r) ∧
      s.Kept s' fun t => t ∈ ring ∧ t ∉ touch ring r := by
  by_cases hmem : r ∈ ring
  · have htouch : touch ring r = r :: ring.erase r := by rw [touch, if_pos hmem]
    have hsame : ∀ t, False ↔ t ∈ ring ∧ t ∉ touch ring r := by
      intro t
      rw [htouch, ← (List.perm_cons_erase hmem).mem_iff]
      simp
    obtain ⟨as, bs, rfl⟩ := List.append_of_mem hmem
    have hnew : r ∉ as := fun hr' => by
      have hdisjoint := List.disjoint_of_nodup_append h.active.nodup
      exact hdisjoint hr' (by simp)
    have herase : (as ++ r :: bs).erase r = as ++ bs := by
      rw [List.erase_append_right _ hnew, List.erase_cons_head]
    rw [herase] at htouch
    simp only [htouch] at hsame ⊢
    by_cases has : as = []
    · subst has
      exact ⟨s, by simp [Ipcache.linkActivelist, h.active.head], h, Kept.refl.of_iff hsame⟩
    · obtain ⟨s', hlink, hsound, hkept⟩ := h.moveToHead has
      exact ⟨s', hlink, hsound, hkept.of_iff hsame⟩
  · have htouch : touch ring r = r :: purged ring := by rw [touch, if_neg hmem]
    rw [htouch]
    by_cases hne : ring = []
    · subst hne
      obtain ⟨s', hlink, hsound, hkept⟩ := h.linkAlone hr
      exact ⟨s', hlink, hsound, hkept.of_iff (by simp)⟩
    · obtain ⟨s', hlink, hsound, hkept⟩ := h.linkNew hr hmem hne
      refine ⟨s', hlink, hsound, hkept.of_iff fun t => and_congr_right fun ht => ?_⟩
      rw [List.mem_cons, not_or]
      exact ⟨fun hgone => ⟨fun heq => hmem (heq ▸ ht), hgone⟩, And.right⟩

/-! ### Lookups -/

theorem Sound.findip (h : s.Sound ring) (ip : Address) :
    ∃ found ipbash, s.findip ip = some (found, { s with ipbash := ipbash }) ∧
      Sound { s with ipbash := ipbash } ring ∧
      ∀ r, found = some r ↔ ∃ item, s.heap r = some item ∧ item.ip = ip := by
  obtain ⟨chains, hips⟩ := h.ips
  obtain ⟨found, ipbash, hfind, hips', hfound⟩ := hips.find (holds_length hips h.allocated) ip
  refine ⟨found, ipbash, by simp [Ipcache.findip, hfind], ⟨h.ids, ⟨chains, hips'⟩,
    ⟨h.active.linked, h.active.nodup, h.active.head, h.active.count, h.active.unlinked⟩,
    h.allocated⟩, fun r => (hfound r).trans ⟨fun hr => ?_, fun hr => ?_⟩⟩
  · exact ChainTable.exists_of_keyAt hr.2
  · obtain ⟨item, hitem, rfl⟩ := hr
    exact ⟨live_of_eq hitem, ChainTable.keyAt_of_eq hitem⟩

theorem Sound.findid (h : s.Sound ring) (id : UInt16) :
    ∃ found idbash, s.findid id = some (found, { s with idbash := idbash }) ∧
      Sound { s with idbash := idbash } ring ∧
      ∀ r, found = some r ↔ ∃ item, s.heap r = some item ∧ item.id = id := by
  obtain ⟨chains, hids⟩ := h.ids
  obtain ⟨found, idbash, hfind, hids', hfound⟩ := hids.find (holds_length hids h.allocated) id
  refine ⟨found, idbash, by simp [Ipcache.findid, hfind], ⟨⟨chains, hids'⟩, h.ips,
    ⟨h.active.linked, h.active.nodup, h.active.head, h.active.count, h.active.unlinked⟩,
    h.allocated⟩, fun r => (hfound r).trans ⟨fun hr => ?_, fun hr => ?_⟩⟩
  · exact ChainTable.exists_of_keyAt hr.2
  · obtain ⟨item, hitem, rfl⟩ := hr
    exact ⟨live_of_eq hitem, ChainTable.keyAt_of_eq hitem⟩

/-! ### Writing to an item -/

theorem Sound.congr (h : s.Sound ring)
    (hheap : ∀ t, (heap t).map IpcacheItem.skeleton = (s.heap t).map IpcacheItem.skeleton) :
    Sound { s with heap := heap } ring := by
  have hmap : ∀ {γ : Type} (g : IpcacheItem → γ), (∀ item, g item.skeleton = g item) →
      ∀ t, (heap t).map g = (s.heap t).map g := by
    intro γ g hg t
    have hcomp : g ∘ IpcacheItem.skeleton = g := funext hg
    have hskeleton := congrArg (Option.map g) (hheap t)
    rwa [Option.map_map, Option.map_map, hcomp] at hskeleton
  have hlive : ∀ t, s.Live t ↔ Live { s with heap := heap } t := by
    intro t
    have hsome := congrArg Option.isSome (hheap t)
    simp only [Option.isSome_map] at hsome
    simp [Live, hsome]
  obtain ⟨idChains, hids⟩ := h.ids
  obtain ⟨ipChains, hips⟩ := h.ips
  refine ⟨⟨idChains, holds_of_iff ?_ hlive⟩, ⟨ipChains, holds_of_iff ?_ hlive⟩, ⟨?_, h.active.nodup,
    h.active.head, h.active.count, fun t titem ht hmem => ?_⟩,
    fun t ht => h.allocated t ((hlive t).mpr ht)⟩
  · exact hids.congr (fun t _ => hmap idLinks.view (fun _ => rfl) t)
      fun t _ => hmap IpcacheItem.id (fun _ => rfl) t
  · exact hips.congr (fun t _ => hmap ipLinks.view (fun _ => rfl) t)
      fun t _ => hmap IpcacheItem.ip (fun _ => rfl) t
  · exact LinkFields.Seg.congr h.active.linked fun t _ => hmap activeLinks.view (fun _ => rfl) t
  · exact next_eq_none (fun item hitem => h.active.unlinked t item hitem hmem)
      (hmap activeLinks.view (fun _ => rfl) t) ht

theorem Sound.write (h : s.Sound ring) (hr : s.heap r = some item) {f : IpcacheItem → IpcacheItem}
    (hf : ∀ item, (f item).skeleton = item.skeleton) :
    s.heap.write r f = some (Function.update s.heap r (some (f item))) ∧
      Sound { s with heap := Function.update s.heap r (some (f item)) } ring := by
  have hwrite := Heap.write_of_eq (f := f) hr
  exact ⟨hwrite, h.congr (Heap.map_write hf hwrite)⟩

/-! ### A new item -/

/-- A cache in the middle of an allocation: the new item waits for an id that no other item has. -/
structure Drawing (s : Ipcache) (ring : List ItemRef) (rp : ItemRef) : Prop where
  ids : ∃ chains, idTable.Holds s.heap s.idbash (fun t => s.Live t ∧ t ≠ rp) chains
  ips : ∃ chains, ipTable.Holds s.heap s.ipbash s.Live chains
  active : s.Active ring
  allocated : ∀ r, s.Live r → r < s.allocated
  live : s.Live rp

theorem Drawing.findid {rp : ItemRef} (h : s.Drawing ring rp) (id : UInt16) :
    ∃ found idbash, s.findid id = some (found, { s with idbash := idbash }) ∧
      Drawing { s with idbash := idbash } ring rp ∧
      ∀ r, found = some r ↔ r ≠ rp ∧ ∃ item, s.heap r = some item ∧ item.id = id := by
  obtain ⟨chains, hids⟩ := h.ids
  obtain ⟨found, idbash, hfind, hids', hfound⟩ :=
    hids.find (holds_length hids fun t ht => h.allocated t ht.1) id
  refine ⟨found, idbash, by simp [Ipcache.findid, hfind], ⟨⟨chains, hids'⟩, h.ips,
    ⟨h.active.linked, h.active.nodup, h.active.head, h.active.count, h.active.unlinked⟩,
    h.allocated, h.live⟩, fun r => (hfound r).trans ⟨fun hr => ?_, fun hr => ?_⟩⟩
  · exact ⟨hr.1.2, ChainTable.exists_of_keyAt hr.2⟩
  · obtain ⟨hne, item, hitem, rfl⟩ := hr
    exact ⟨⟨live_of_eq hitem, hne⟩, ChainTable.keyAt_of_eq hitem⟩

/-- The new item may be given any id: no table looks at it yet. -/
theorem Drawing.setId {rp : ItemRef} (h : s.Drawing ring rp) (hr : s.heap rp = some item)
    (id : UInt16) (idseed aseed : UInt64) :
    Drawing { s with
      heap := Function.update s.heap rp (some { item with id := id })
      idseed := idseed
      aseed := aseed } ring rp := by
  obtain ⟨idChains, hids⟩ := h.ids
  obtain ⟨ipChains, hips⟩ := h.ips
  have hwrite := Heap.write_of_eq (f := fun item : IpcacheItem => { item with id := id }) hr
  have hmap : ∀ {γ : Type} (g : IpcacheItem → γ),
      (∀ item : IpcacheItem, g { item with id := id } = g item) → ∀ t,
      (Function.update s.heap rp (some { item with id := id }) t).map g = (s.heap t).map g :=
    fun g hg t => Heap.map_write hg hwrite t
  have hlive : ∀ t, s.Live t ↔ Live { s with
      heap := Function.update s.heap rp (some { item with id := id })
      idseed := idseed
      aseed := aseed } t := by
    intro t
    have hsome := congrArg Option.isSome (hmap (fun _ => ()) (fun _ => rfl) t)
    simp only [Option.isSome_map] at hsome
    simp only [Live, hsome]
  have hold : ∀ t, s.Live t ∧ t ≠ rp →
      Function.update s.heap rp (some { item with id := id }) t = s.heap t := fun t ht =>
    Function.update_of_ne ht.2 _ _
  refine ⟨⟨idChains, holds_of_iff (hids.congr (fun t ht => congrArg _ (hold t ht))
      fun t ht => congrArg _ (hold t ht)) fun t => and_congr_left fun _ => hlive t⟩,
    ⟨ipChains, holds_of_iff (hips.congr (fun t _ => hmap ipLinks.view (fun _ => rfl) t)
      fun t _ => hmap IpcacheItem.ip (fun _ => rfl) t) hlive⟩,
    ⟨LinkFields.Seg.congr h.active.linked fun t _ => hmap activeLinks.view (fun _ => rfl) t,
      h.active.nodup, h.active.head, h.active.count, fun t titem ht hmem => ?_⟩,
    fun t ht => h.allocated t ((hlive t).mpr ht), (hlive rp).mp h.live⟩
  exact next_eq_none (fun item hitem => h.active.unlinked t item hitem hmem)
    (hmap activeLinks.view (fun _ => rfl) t) ht

theorem Drawing.drawId {rp : ItemRef} {times : List UInt64} (h : s.Drawing ring rp)
    (hr : s.heap rp = some item) (hdraw : s.drawId rp times = some s') :
    s'.Drawing ring rp ∧ s'.allocated = s.allocated ∧ s'.currentTick = s.currentTick ∧
      ∃ id, s'.heap = Function.update s.heap rp (some { item with id := id }) ∧
        ∀ t other, t ≠ rp → s.heap t = some other → other.id ≠ id := by
  induction times generalizing s item with
  | nil => exact absurd hdraw.symm (Option.some_ne_none s')
  | cons time times ih =>
      unfold Ipcache.drawId at hdraw
      generalize (((s.idseed + s.idseed) ||| time) + s.idseed - 0x54bad4a) ^^^ s.aseed = idseed
        at hdraw
      have hwrite := Heap.write_of_eq
        (f := fun item : IpcacheItem => { item with id := idseed.toUInt16 }) hr
      obtain ⟨found, idbash, hfind, hdrawing, hfound⟩ :=
        (h.setId hr idseed.toUInt16 idseed (s.aseed ^^^ idseed)).findid idseed.toUInt16
      simp only [Option.bind_eq_bind, hwrite, Option.bind_some, hfind] at hdraw
      cases found with
      | none =>
          obtain rfl := Option.some.inj hdraw
          refine ⟨hdrawing, rfl, rfl, _, rfl, fun t other ht hother heq => ?_⟩
          have hnone := (hfound t).mpr ⟨ht, other, (Function.update_of_ne ht _ _).trans hother, heq⟩
          exact absurd hnone (by simp)
      | some taken =>
          obtain ⟨hdrawing', hallocated, htick, id, hheap, hfree⟩ :=
            ih hdrawing (Function.update_self _ _ _) hdraw
          refine ⟨hdrawing', hallocated, htick, id, ?_, fun t other ht hother => ?_⟩
          · rw [hheap]
            exact Function.update_idem _ _ _
          · exact hfree t other ht ((Function.update_of_ne ht _ _).trans hother)

theorem Sound.linkresolveip (h : s.Sound ring) {ip : Address}
    (hnew : ∀ t other, s.heap t = some other → other.ip ≠ ip) :
    ∃ s' item, Ipcache.linkresolveip { s with
        heap := Function.update s.heap s.allocated (some (blankItem ip))
        allocated := s.allocated + 1 } s.allocated = some s' ∧
      s'.Drawing ring s.allocated ∧ s'.heap s.allocated = some item ∧
      item.content = blankItem ip ∧ (∀ t, t ≠ s.allocated →
        (s'.heap t).map IpcacheItem.content = (s.heap t).map IpcacheItem.content) ∧
      s'.allocated = s.allocated + 1 ∧ s'.currentTick = s.currentTick := by
  obtain ⟨idChains, hids⟩ := h.ids
  obtain ⟨ipChains, hips⟩ := h.ips
  have hfresh : ¬s.Live s.allocated := fun hlive => lt_irrefl _ (h.allocated _ hlive)
  generalize hheap₀ : Function.update s.heap s.allocated (some (blankItem ip)) = heap₀
  have hold : ∀ t, t ≠ s.allocated → heap₀ t = s.heap t := fun t ht => by
    rw [← hheap₀, Function.update_of_ne ht]
  have hblank : heap₀ s.allocated = some (blankItem ip) := by
    rw [← hheap₀, Function.update_self]
  have hne : ∀ t, s.Live t → t ≠ s.allocated := fun t ht heq => hfresh (heq ▸ ht)
  have hids₀ : idTable.Holds heap₀ s.idbash s.Live idChains :=
    hids.congr (fun t ht => by rw [hold t (hne t ht)]) fun t ht => congrArg _ (hold t (hne t ht))
  have hips₀ : ipTable.Holds heap₀ s.ipbash s.Live ipChains :=
    hips.congr (fun t ht => by rw [hold t (hne t ht)]) fun t ht => congrArg _ (hold t (hne t ht))
  obtain ⟨heap₁, ipbash, ipChains', hlink, hdata, hips₁⟩ := hips₀.link
    (fun b => (holds_length hips h.allocated b).trans (Nat.le_succ _)) hblank hfresh
    fun t ht hkey => by
      obtain ⟨other, hother, hip⟩ := ChainTable.exists_of_keyAt hkey
      exact hnew t other ((hold t (hne t ht)).symm.trans hother) hip
  have hlive : ∀ t, (t = s.allocated ∨ s.Live t) ↔ (heap₁ t).isSome := by
    intro t
    rw [hdata.isSome]
    by_cases ht : t = s.allocated
    · subst ht
      simp [hblank]
    · rw [hold t ht]
      simp [ht, Live]
  obtain ⟨item, hitem, hcontent⟩ : ∃ item, heap₁ s.allocated = some item ∧
      item.content = blankItem ip := by
    have hmap : (heap₁ s.allocated).map IpcacheItem.content = some (blankItem ip) := by
      rw [hdata.map (fun _ => rfl), hblank]
      rfl
    exact Option.map_eq_some_iff.mp hmap
  refine ⟨{ s with heap := heap₁, allocated := s.allocated + 1, ipbash := ipbash }, item,
    by simp [Ipcache.linkresolveip, hlink], ⟨⟨idChains, holds_of_iff (hids₀.sameData
      hdata (fun _ => rfl) fun _ => rfl) fun t => ?_⟩,
    ⟨ipChains', holds_of_iff hips₁ hlive⟩, ⟨LinkFields.Seg.congr h.active.linked fun t ht => ?_,
      h.active.nodup, h.active.head, h.active.count, fun t titem ht hmem => ?_⟩, fun t ht => ?_,
      (hlive _).mp (Or.inl rfl)⟩, hitem, hcontent, fun t ht => ?_, rfl, rfl⟩
  · refine ⟨fun ht => ⟨(hlive t).mp (Or.inr ht), hne t ht⟩, fun ht => ?_⟩
    exact ((hlive t).mpr ht.1).resolve_left ht.2
  · obtain ⟨titem, htitem⟩ := h.active.linked.live ht
    rw [← hold t (hne t (live_of_eq htitem))]
    exact hdata.map (fun _ => rfl) t
  · refine next_eq_none (fun titem' ht' => ?_) (hdata.map (fun _ => rfl) t) ht
    by_cases hta : t = s.allocated
    · subst hta
      obtain rfl := Option.some.inj (hblank.symm.trans ht')
      rfl
    · exact h.active.unlinked t titem' ((hold t hta).symm.trans ht') hmem
  · rcases (hlive t).mpr ht with rfl | ht
    · exact Nat.lt_succ_self _
    · exact (h.allocated t ht).trans (Nat.lt_succ_self _)
  · rw [← hold t ht]
    exact hdata.map (fun _ => rfl) t

theorem Drawing.linkresolveid {rp : ItemRef} (h : s.Drawing ring rp) (hr : s.heap rp = some item)
    (hfree : ∀ t other, t ≠ rp → s.heap t = some other → other.id ≠ item.id) :
    ∃ heap idbash, s.linkresolveid rp = some { s with heap := heap, idbash := idbash } ∧
      idLinks.SameData s.heap heap ∧ Sound { s with heap := heap, idbash := idbash } ring := by
  obtain ⟨idChains, hids⟩ := h.ids
  obtain ⟨ipChains, hips⟩ := h.ips
  obtain ⟨heap, idbash, idChains', hlink, hdata, hids'⟩ := hids.link
    (holds_length hids fun t ht => h.allocated t ht.1) hr (fun hdom => hdom.2 rfl)
    fun t ht hkey => by
      obtain ⟨other, hother, hid⟩ := ChainTable.exists_of_keyAt hkey
      exact hfree t other ht.2 hother hid
  have hlive : ∀ t, s.Live t ↔ (heap t).isSome := fun t => by rw [hdata.isSome, Live]
  refine ⟨heap, idbash, by simp [Ipcache.linkresolveid, hlink], hdata,
    ⟨⟨idChains', holds_of_iff hids' fun t => ?_⟩,
    ⟨ipChains, holds_of_iff (hips.sameData hdata (fun _ => rfl) fun _ => rfl) hlive⟩,
    ⟨LinkFields.Seg.congr h.active.linked fun t _ => hdata.map (fun _ => rfl) t, h.active.nodup,
      h.active.head, h.active.count, fun t titem ht hmem => ?_⟩,
    fun t ht => h.allocated t ((hlive t).mpr ht)⟩⟩
  · refine Iff.trans ⟨fun ht => ht.elim (fun heq => heq ▸ h.live) And.left, fun ht => ?_⟩ (hlive t)
    by_cases heq : t = rp
    · exact Or.inl heq
    · exact Or.inr ⟨ht, heq⟩
  · exact next_eq_none (fun item hitem => h.active.unlinked t item hitem hmem)
      (hdata.map (fun _ => rfl) t) ht

/-- A new item joins the cache outside the ring, and the others keep their contents. -/
theorem Sound.allocItem (h : s.Sound ring) {ip : Address} {times : List UInt64} {rp : ItemRef}
    (hnew : ∀ t other, s.heap t = some other → other.ip ≠ ip)
    (halloc : s.allocItem ip times = some (rp, s')) :
    s'.Sound ring ∧ rp = s.allocated ∧ s'.allocated = s.allocated + 1 ∧
      s'.currentTick = s.currentTick ∧
      (∃ item id, s'.heap rp = some item ∧ item.content = { blankItem ip with id := id }) ∧
      ∀ t, t ≠ rp → (s'.heap t).map IpcacheItem.content = (s.heap t).map IpcacheItem.content := by
  obtain ⟨s₁, item, hlinkip, hdrawing, hitem, hcontent, hothers, hallocated, htick⟩ :=
    h.linkresolveip hnew
  simp only [Ipcache.allocItem, Option.bind_eq_bind, hlinkip, Option.bind_some,
    Option.bind_eq_some_iff] at halloc
  obtain ⟨s₂, hdraw, s₃, hlinkid, hresult⟩ := halloc
  obtain ⟨rfl, rfl⟩ := Prod.mk.inj (Option.some.inj hresult)
  obtain ⟨hdrawing₂, hallocated₂, htick₂, id, hheap₂, hfree⟩ := hdrawing.drawId hitem hdraw
  have hitem₂ : s₂.heap s.allocated = some { item with id := id } := by
    rw [hheap₂, Function.update_self]
  obtain ⟨heap, idbash, hlinkid', hdata, hsound⟩ := hdrawing₂.linkresolveid hitem₂
    fun t other ht hother => hfree t other ht (by
      rwa [hheap₂, Function.update_of_ne ht] at hother)
  obtain rfl := Option.some.inj (hlinkid'.symm.trans hlinkid)
  have hcontents : ∀ t, (heap t).map IpcacheItem.content = (s₂.heap t).map IpcacheItem.content :=
    hdata.map fun _ => rfl
  refine ⟨hsound, rfl, hallocated₂.trans hallocated, htick₂.trans htick, ?_, fun t ht => ?_⟩
  · have hmap := hcontents s.allocated
    rw [hitem₂] at hmap
    obtain ⟨item', hitem', hcontent'⟩ := Option.map_eq_some_iff.mp hmap
    refine ⟨item', id, hitem', hcontent'.trans ?_⟩
    rw [← hcontent]
    rfl
  · refine (hcontents t).trans ?_
    rw [hheap₂, Function.update_of_ne ht]
    exact hothers t ht

end Ipcache

end EtherApe
