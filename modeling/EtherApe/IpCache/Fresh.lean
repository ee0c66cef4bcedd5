import EtherApe.IpCache.Lru

/-!
# Requests for new addresses

A request for an address that the cache does not know allocates an item under an id that is drawn for
it; the loop that draws ends with the first id that no item has. From there on a cache can be filled
with one item after the other.
-/

namespace EtherApe

namespace Ipcache

variable {s s' : Ipcache} {ring : List ItemRef} {item : IpcacheItem}

theorem keys_of_content {other : IpcacheItem} (h : item.content = other.content) :
    item.ip = other.ip ∧ item.id = other.id := by
  have hip := congrArg IpcacheItem.ip h
  have hid := congrArg IpcacheItem.id h
  exact ⟨hip, hid⟩

/-! ### Drawing ids -/

/-- The seed that is drawn next when the clock shows `time`. -/
def nextSeed (idseed aseed time : UInt64) : UInt64 :=
  (((idseed + idseed) ||| time) + idseed - 0x54bad4a) ^^^ aseed

/-- The ids that are drawn one after the other while the clock shows `times`. -/
def drawnIds (idseed aseed : UInt64) : List UInt64 → List UInt16
  | [] => []
  | time :: times =>
      let idseed := nextSeed idseed aseed time
      idseed.toUInt16 :: drawnIds idseed (aseed ^^^ idseed) times

def drawn (s : Ipcache) (time : UInt64) : UInt64 := nextSeed s.idseed s.aseed time

/-- No other item has the id. -/
def IdFree (s : Ipcache) (rp : ItemRef) (id : UInt16) : Prop :=
  ∀ t other, t ≠ rp → s.heap t = some other → other.id ≠ id

/-- One draw: the item gets the id, and the search says whether another item has it. -/
theorem Drawing.drawId_cons {rp : ItemRef} (time : UInt64) (times : List UInt64)
    (h : s.Drawing ring rp) (hr : s.heap rp = some item) :
    ∃ s₁, s₁.Drawing ring rp ∧ s₁.idseed = s.drawn time ∧ s₁.aseed = s.aseed ^^^ s.drawn time ∧
      s₁.heap = Function.update s.heap rp (some { item with id := (s.drawn time).toUInt16 }) ∧
      (s.IdFree rp (s.drawn time).toUInt16 → s.drawId rp (time :: times) = some s₁) ∧
      (¬s.IdFree rp (s.drawn time).toUInt16 → s.drawId rp (time :: times) = s₁.drawId rp times) := by
  have hwrite := Heap.write_of_eq
    (f := fun item : IpcacheItem => { item with id := (s.drawn time).toUInt16 }) hr
  obtain ⟨found, idbash, hfind, hdrawing, hfound⟩ := (h.setId hr (s.drawn time).toUInt16
    (s.drawn time) (s.aseed ^^^ s.drawn time)).findid (s.drawn time).toUInt16
  have hdrawn : (((s.idseed + s.idseed) ||| time) + s.idseed - 0x54bad4a) ^^^ s.aseed =
      s.drawn time := rfl
  refine ⟨_, hdrawing, rfl, rfl, rfl, fun hfree => ?_, fun htaken => ?_⟩
  · have hnone : found = none := by
      cases found with
      | none => rfl
      | some t =>
          obtain ⟨ht, other, hother, hid⟩ := (hfound t).mp rfl
          exact absurd hid (hfree t other ht ((Function.update_of_ne ht _ _).symm.trans hother))
    rw [hnone] at hfind
    rw [Ipcache.drawId, hdrawn]
    simp only [Option.bind_eq_bind, hwrite, Option.bind_some, hfind]
  · have hsome : ∃ t, found = some t := by
      simp only [IdFree, not_forall, not_not] at htaken
      obtain ⟨t, other, ht, hother, hid⟩ := htaken
      exact ⟨t, (hfound t).mpr ⟨ht, other, (Function.update_of_ne ht _ _).trans hother, hid⟩⟩
    obtain ⟨t, rfl⟩ := hsome
    rw [Ipcache.drawId, hdrawn]
    simp only [Option.bind_eq_bind, hwrite, Option.bind_some, hfind]

/-- The loop ends just when it draws an id that no other item has. -/
theorem Drawing.drawId_returns {rp : ItemRef} (times : List UInt64) (h : s.Drawing ring rp)
    (hr : s.heap rp = some item) :
    (∃ s', s.drawId rp times = some s') ↔ ∃ id ∈ drawnIds s.idseed s.aseed times, s.IdFree rp id := by
  induction times generalizing s item with
  | nil => simp [Ipcache.drawId, drawnIds]
  | cons time times ih =>
      obtain ⟨s₁, hdrawing, hidseed, haseed, hheap, hends, hgoes⟩ :=
        h.drawId_cons time times hr
      have hsame : ∀ id, s₁.IdFree rp id ↔ s.IdFree rp id := by
        intro id
        refine forall₃_congr fun t other ht => ?_
        rw [hheap, Function.update_of_ne ht]
      have hdrawnIds : drawnIds s.idseed s.aseed (time :: times) =
          (s.drawn time).toUInt16 :: drawnIds s₁.idseed s₁.aseed times := by
        rw [hidseed, haseed]
        rfl
      rw [hdrawnIds]
      by_cases hfree : s.IdFree rp (s.drawn time).toUInt16
      · exact iff_of_true ⟨s₁, hends hfree⟩ ⟨_, List.mem_cons_self, hfree⟩
      · have hitem₁ : s₁.heap rp = some { item with id := (s.drawn time).toUInt16 } := by
          rw [hheap, Function.update_self]
        rw [hgoes hfree, ih hdrawing hitem₁]
        simp only [List.mem_cons, hsame]
        constructor
        · rintro ⟨id, hid, hidfree⟩
          exact ⟨id, Or.inr hid, hidfree⟩
        · rintro ⟨id, rfl | hid, hidfree⟩
          · exact absurd hidfree hfree
          · exact ⟨id, hid, hidfree⟩

/-! ### Allocating an item -/

theorem Sound.linkresolveip_seeds {ip : Address} (h : s.Sound ring)
    (hip : ∀ t other, s.heap t = some other → other.ip ≠ ip) :
    ∃ s₁ item, Ipcache.linkresolveip { s with
        heap := Function.update s.heap s.allocated (some (blankItem ip))
        allocated := s.allocated + 1 } s.allocated = some s₁ ∧
      s₁.Drawing ring s.allocated ∧ s₁.heap s.allocated = some item ∧ s₁.idseed = s.idseed ∧
      s₁.aseed = s.aseed ∧ ∀ id, s₁.IdFree s.allocated id ↔
        ∀ t other, s.heap t = some other → other.id ≠ id := by
  obtain ⟨s₁, item, hlinkip, hdrawing, hitem, _, hothers, _, _⟩ := h.linkresolveip hip
  have hseeds : s₁.idseed = s.idseed ∧ s₁.aseed = s.aseed := by
    obtain ⟨_, _, hresult⟩ := Option.bind_eq_some_iff.mp hlinkip
    obtain rfl := Option.some.inj hresult
    exact ⟨rfl, rfl⟩
  refine ⟨s₁, item, hlinkip, hdrawing, hitem, hseeds.1, hseeds.2, fun id => ?_⟩
  constructor
  · intro hfree t other hother
    have ht : t ≠ s.allocated := (h.allocated t (live_of_eq hother)).ne
    have hcontent := hothers t ht
    rw [hother] at hcontent
    obtain ⟨other', hother', heq⟩ := Option.map_eq_some_iff.mp hcontent
    rw [← (keys_of_content heq).2]
    exact hfree t other' ht hother'
  · intro hfree t other ht hother
    have hcontent := hothers t ht
    rw [hother] at hcontent
    obtain ⟨other', hother', heq⟩ := Option.map_eq_some_iff.mp hcontent.symm
    rw [← (keys_of_content heq).2]
    exact hfree t other' hother'

/-- An item for a new address is allocated just when an id is drawn that no item has. -/
theorem Sound.allocItem_returns {ip : Address} {times : List UInt64} (h : s.Sound ring)
    (hip : ∀ t other, s.heap t = some other → other.ip ≠ ip) :
    (∃ rp s', s.allocItem ip times = some (rp, s')) ↔ ∃ id ∈ drawnIds s.idseed s.aseed times,
      ∀ t other, s.heap t = some other → other.id ≠ id := by
  obtain ⟨s₁, item, hlinkip, hdrawing, hitem, hidseed, haseed, hfree⟩ := h.linkresolveip_seeds hip
  have hreturns := hdrawing.drawId_returns times hitem
  rw [hidseed, haseed] at hreturns
  simp only [hfree] at hreturns
  rw [← hreturns]
  constructor
  · rintro ⟨rp, s', halloc⟩
    simp only [Ipcache.allocItem, Option.bind_eq_bind, hlinkip, Option.bind_some] at halloc
    obtain ⟨s₂, hdraw, _⟩ := Option.bind_eq_some_iff.mp halloc
    exact ⟨s₂, hdraw⟩
  · rintro ⟨s₂, hdraw⟩
    obtain ⟨hdrawing₂, _, _, id, hheap, hid⟩ := hdrawing.drawId hitem hdraw
    have hitem₂ : s₂.heap s.allocated = some { item with id := id } := by
      rw [hheap, Function.update_self]
    obtain ⟨heap, idbash, hlinkid, _, _⟩ := hdrawing₂.linkresolveid hitem₂
      fun t other ht hother => hid t other ht (by rwa [hheap, Function.update_of_ne ht] at hother)
    refine ⟨s.allocated, { s₂ with heap := heap, idbash := idbash }, ?_⟩
    simp only [Ipcache.allocItem, Option.bind_eq_bind, hlinkip, Option.bind_some, hdraw, hlinkid]

theorem Sound.allocItem_free {ip : Address} {time : UInt64} (times : List UInt64)
    (h : s.Sound ring) (hip : ∀ t other, s.heap t = some other → other.ip ≠ ip)
    (hid : ∀ t other, s.heap t = some other → other.id ≠ (s.drawn time).toUInt16) :
    ∃ s', s.allocItem ip (time :: times) = some (s.allocated, s') ∧ s'.idseed = s.drawn time ∧
      s'.aseed = s.aseed ^^^ s.drawn time ∧
      ∃ item, s'.heap s.allocated = some item ∧ item.id = (s.drawn time).toUInt16 := by
  obtain ⟨s₁, item, hlinkip, hdrawing, hitem, hidseed₁, haseed₁, hfree⟩ := h.linkresolveip_seeds hip
  have hdrawn : s₁.drawn time = s.drawn time := by
    rw [drawn, hidseed₁, haseed₁, drawn]
  obtain ⟨s₂, hdrawing₂, hidseed, haseed, hheap, hends, _⟩ :=
    hdrawing.drawId_cons time times hitem
  rw [hdrawn] at hidseed haseed hheap hends
  have hfree₁ := (hfree _).mpr hid
  have hitem₂ : s₂.heap s.allocated = some { item with id := (s.drawn time).toUInt16 } := by
    rw [hheap, Function.update_self]
  obtain ⟨heap, idbash, hlinkid, hdata, _⟩ := hdrawing₂.linkresolveid hitem₂
    fun t other ht hother => hfree₁ t other ht (by rwa [hheap, Function.update_of_ne ht] at hother)
  have hid₂ := hdata.map (g := IpcacheItem.id) (fun _ => rfl) s.allocated
  rw [hitem₂] at hid₂
  obtain ⟨item', hitem', heq⟩ := Option.map_eq_some_iff.mp hid₂
  refine ⟨{ s₂ with heap := heap, idbash := idbash }, ?_, hidseed, haseed.trans ?_, item', hitem',
    heq⟩
  · simp only [Ipcache.allocItem, Option.bind_eq_bind, hlinkip, Option.bind_some, hends hfree₁,
      hlinkid]
  · rw [haseed₁]

/-! ### Requests -/

theorem Sound.findip_unknown {ip : Address} (h : s.Sound ring)
    (hip : ∀ t other, s.heap t = some other → other.ip ≠ ip) :
    ∃ s', s.findip ip = some (none, s') ∧ s'.Sound ring ∧ s'.heap = s.heap ∧
      s'.allocated = s.allocated ∧ s'.idseed = s.idseed ∧ s'.aseed = s.aseed := by
  obtain ⟨found, ipbash, hfind, hsound, hfound⟩ := h.findip ip
  cases found with
  | none => exact ⟨_, hfind, hsound, rfl, rfl, rfl, rfl⟩
  | some t =>
      obtain ⟨other, hother, heq⟩ := (hfound t).mp rfl
      exact absurd heq (hip t other hother)

/-- A request returns just when its address is known or an id is drawn that no item has. -/
theorem Sound.prepareRequest_returns (h : s.Sound ring) (ip : Address) (times : List UInt64)
    (rand : Nat) :
    (∃ rp s', s.prepareRequest ip times rand = some (rp, s')) ↔
      (∃ r item, s.heap r = some item ∧ item.ip = ip) ∨
        ∃ id ∈ drawnIds s.idseed s.aseed times, ∀ r item, s.heap r = some item → item.id ≠ id := by
  by_cases hknown : ∃ r item, s.heap r = some item ∧ item.ip = ip
  · refine iff_of_true ?_ (Or.inl hknown)
    obtain ⟨r, item, hitem, hip⟩ := hknown
    obtain ⟨found, ipbash, hfind, hsound, hfound⟩ := h.findip ip
    obtain rfl := (hfound r).mpr ⟨item, hitem, hip⟩
    obtain ⟨heap, hwrite, _⟩ := hsound.set hitem (skeleton_requested s.currentTick rand)
      (content_requested s.currentTick rand)
    refine ⟨r, { s with ipbash := ipbash, heap := heap }, ?_⟩
    simp only [Ipcache.prepareRequest, Option.bind_eq_bind, hfind, Option.bind_some, hwrite]
  · have hip : ∀ t other, s.heap t = some other → other.ip ≠ ip := fun t other hother heq =>
      hknown ⟨t, other, hother, heq⟩
    obtain ⟨s₁, hfind, hsound₁, hheap, _, hidseed, haseed⟩ := h.findip_unknown hip
    rw [or_iff_right hknown, ← hidseed, ← haseed, ← hheap]
    rw [← hheap] at hip
    rw [← hsound₁.allocItem_returns hip]
    constructor
    · rintro ⟨rp, s', hprepare⟩
      simp only [Ipcache.prepareRequest, Option.bind_eq_bind, hfind, Option.bind_some] at hprepare
      obtain ⟨⟨rp', s₂⟩, halloc, _⟩ := Option.bind_eq_some_iff.mp hprepare
      exact ⟨rp', s₂, halloc⟩
    · rintro ⟨rp, s₂, halloc⟩
      obtain ⟨_, _, _, _, ⟨item, _, hitem, _⟩, _⟩ := hsound₁.allocItem hip halloc
      have hwrite := Heap.write_of_eq (f := IpcacheItem.requested s₂.currentTick rand) hitem
      refine ⟨rp, { s₂ with
        heap := Function.update s₂.heap rp (some (item.requested s₂.currentTick rand)) }, ?_⟩
      simp only [Ipcache.prepareRequest, Option.bind_eq_bind, hfind, Option.bind_some, halloc, hwrite]

/-- A request for a new address allocates an item under the first id that is drawn, if no item has it. The
other items keep their keys. -/
theorem Sound.prepareRequest_free {ip : Address} {time : UInt64} (h : s.Sound ring)
    (hip : ∀ t other, s.heap t = some other → other.ip ≠ ip)
    (hid : ∀ t other, s.heap t = some other → other.id ≠ (s.drawn time).toUInt16) (rand : Nat) :
    ∃ s', s.prepareRequest ip [time] rand = some (s.allocated, s') ∧ s'.Sound ring ∧
      s'.allocated = s.allocated + 1 ∧ s'.idseed = s.drawn time ∧ s'.aseed = s.aseed ^^^ s.drawn time ∧
      (∃ item, s'.heap s.allocated = some item ∧ item.ip = ip ∧ item.id = (s.drawn time).toUInt16) ∧
      ∀ t other, t ≠ s.allocated → s'.heap t = some other →
        ∃ old, s.heap t = some old ∧ other.ip = old.ip ∧ other.id = old.id := by
  obtain ⟨s₁, hfind, hsound₁, hheap₁, hallocated₁, hidseed₁, haseed₁⟩ := h.findip_unknown hip
  have hdrawn : s₁.drawn time = s.drawn time := by
    rw [drawn, hidseed₁, haseed₁, drawn]
  rw [← hheap₁] at hip hid
  rw [← hdrawn] at hid
  obtain ⟨s₂, halloc, hidseed, haseed, item, hitem, hitemid⟩ := hsound₁.allocItem_free [] hip hid
  obtain ⟨hsound₂, _, hallocated, _, ⟨item', id, hitem', hcontent⟩, hothers⟩ :=
    hsound₁.allocItem hip halloc
  obtain rfl := Option.some.inj (hitem.symm.trans hitem')
  rw [hallocated₁] at halloc hallocated hitem hothers
  rw [hdrawn] at hidseed haseed hitemid
  rw [haseed₁] at haseed
  obtain ⟨hwrite, hsound₃⟩ := hsound₂.write hitem (skeleton_requested s₂.currentTick rand)
  have hskeleton := skeleton_requested s₂.currentTick rand item
  refine ⟨{ s₂ with
    heap := Function.update s₂.heap s.allocated (some (item.requested s₂.currentTick rand)) },
    ?_, hsound₃, hallocated, hidseed, haseed, ⟨_, Function.update_self _ _ _, ?_, ?_⟩, ?_⟩
  · simp only [Ipcache.prepareRequest, Option.bind_eq_bind, hfind, Option.bind_some, halloc, hwrite]
  · exact (congrArg IpcacheItem.ip hskeleton).trans (congrArg IpcacheItem.ip hcontent)
  · exact (congrArg IpcacheItem.id hskeleton).trans hitemid
  · intro t other ht hother
    have hcontent' := hothers t ht
    change Function.update s₂.heap s.allocated _ t = some other at hother
    rw [Function.update_of_ne ht] at hother
    rw [hother, hheap₁] at hcontent'
    obtain ⟨old, hold, heq⟩ := Option.map_eq_some_iff.mp hcontent'.symm
    exact ⟨old, hold, keys_of_content heq.symm⟩

theorem Sound.requestSucceeded {rp : ItemRef} (h : s.Sound ring) (hrp : s.Live rp) (ttl : Int64)
    (ipname : Option String) (rand : Nat) :
    ∃ s', s.requestSucceeded rp ttl ipname rand = some s' ∧ s'.Sound (touch ring rp) ∧
      s'.allocated = s.allocated ∧ s'.idseed = s.idseed ∧ s'.aseed = s.aseed ∧
      (∀ t, s'.Live t ↔ s.Live t ∧ ¬(t ∈ ring ∧ t ∉ touch ring rp)) ∧
      ∀ t item, s'.heap t = some item →
        ∃ other, s.heap t = some other ∧ item.ip = other.ip ∧ item.id = other.id := by
  obtain ⟨item, hitem⟩ := hrp.exists
  obtain ⟨hwrite, hsound⟩ :=
    h.write hitem (f := IpcacheItem.succeeded s.currentTick ttl ipname rand) (fun _ => rfl)
  have hmap := Heap.map_write (f := IpcacheItem.succeeded s.currentTick ttl ipname rand)
    (g := fun item : IpcacheItem => (item.ip, item.id)) (fun _ => rfl) hwrite
  generalize item.succeeded s.currentTick ttl ipname rand = item₁ at hwrite hsound hmap
  have hlive₁ : ∀ t, Live { s with heap := Function.update s.heap rp (some item₁) } t ↔
      s.Live t := by
    intro t
    have hsome := congrArg Option.isSome (hmap t)
    simp only [Option.isSome_map] at hsome
    rw [Live, Live, hsome]
  obtain ⟨s', hlink, hsound', hkept⟩ := hsound.linkActivelist ((hlive₁ rp).mpr hrp)
  refine ⟨s', by simp [Ipcache.requestSucceeded, hwrite, hlink], hsound', hkept.allocated,
    hkept.idseed, hkept.aseed, fun t => ?_, fun t other hother => ?_⟩
  · rw [hkept.live_iff, hlive₁]
  · by_cases hgone : t ∈ ring ∧ t ∉ touch ring rp
    · rw [hkept.freed t hgone] at hother
      cases hother
    · have hcontent := hkept.content t hgone
      rw [hother] at hcontent
      obtain ⟨mid, hmid, heq⟩ := Option.map_eq_some_iff.mp hcontent.symm
      have hkeys := hmap t
      rw [show Function.update s.heap rp _ t = some mid from hmid] at hkeys
      obtain ⟨old, hold, heq'⟩ := Option.map_eq_some_iff.mp hkeys.symm
      obtain ⟨hip, hid⟩ := Prod.mk.inj heq'
      obtain ⟨hip', hid'⟩ := keys_of_content heq
      exact ⟨old, hold, hip'.symm.trans hip.symm, hid'.symm.trans hid.symm⟩

end Ipcache

/-! ### Filling the cache -/

def hostAddress (k : Nat) : Address :=
  (Address.clear.setType afInet).setAddr 4 fun i =>
    if i = 0 then 10 else if i = 2 then UInt8.ofNat (k / 256) else if i = 3 then UInt8.ofNat k else 0

theorem hostAddress_inj {j k : Nat} (hj : j < 65536) (hk : k < 65536)
    (heq : hostAddress j = hostAddress k) : j = k := by
  have hhigh : UInt8.ofNat (j / 256) = UInt8.ofNat (k / 256) := congrFun heq 6
  have hlow : UInt8.ofNat j = UInt8.ofNat k := congrFun heq 7
  rw [← UInt8.toNat_inj, UInt8.toNat_ofNat', UInt8.toNat_ofNat'] at hhigh hlow
  omega

/-- The ids that are drawn while the clock shows `times` are new, also to those marked in `used`. -/
def freshIds : List UInt64 → UInt64 → UInt64 → Nat → Bool
  | [], _, _, _ => true
  | time :: times, idseed, aseed, used =>
      let idseed := Ipcache.nextSeed idseed aseed time
      let id := idseed.toUInt16.toNat
      !used.testBit id && freshIds times idseed (aseed ^^^ idseed) (used ||| 2 ^ id)

namespace Ipcache

/-- The cache allocated `n` items, for one address after the other, under ids that are marked. -/
structure Filled (s : Ipcache) (ring : List ItemRef) (n used : Nat) : Prop where
  sound : s.Sound ring
  allocated : s.allocated = n
  addresses : ∀ t item, s.heap t = some item → item.ip = hostAddress t
  ids : ∀ t item, s.heap t = some item → used.testBit item.id.toNat

variable {s s' : Ipcache} {ring : List ItemRef} {n used : Nat} {time : UInt64}

theorem Filled.lt (h : s.Filled ring n used) {t : ItemRef} {item : IpcacheItem}
    (ht : s.heap t = some item) : t < n := h.allocated ▸ h.sound.allocated t (live_of_eq ht)

theorem Filled.unknown (h : s.Filled ring n used) (hn : n < 65536) {t : ItemRef}
    {item : IpcacheItem} (ht : s.heap t = some item) : item.ip ≠ hostAddress n := by
  intro heq
  have hlt := h.lt ht
  exact hlt.ne (hostAddress_inj (hlt.trans hn) hn ((h.addresses t item ht).symm.trans heq))

theorem Filled.getnameip (h : s.Filled ring n used) (hn : n < 65536) :
    ∃ s', s.getnameip true (some (hostAddress n)) = some (.address (hostAddress n), some true, s') ∧
      s'.Filled ring n used ∧ s'.idseed = s.idseed ∧ s'.aseed = s.aseed ∧ s'.heap = s.heap := by
  obtain ⟨s', hfind, hsound, hheap, hallocated, hidseed, haseed⟩ :=
    h.sound.findip_unknown fun t other hother => h.unknown hn hother
  refine ⟨s', by simp [Ipcache.getnameip, hfind], ⟨hsound, hallocated.trans h.allocated, ?_, ?_⟩,
    hidseed, haseed, hheap⟩
  · rw [hheap]
    exact h.addresses
  · rw [hheap]
    exact h.ids

theorem Filled.prepareRequest (h : s.Filled ring n used) (hn : n < 65536)
    (hfresh : used.testBit (s.drawn time).toUInt16.toNat = false) (rand : Nat) :
    ∃ s', s.prepareRequest (hostAddress n) [time] rand = some (n, s') ∧
      s'.Filled ring (n + 1) (used ||| 2 ^ (s.drawn time).toUInt16.toNat) ∧ s'.Live n ∧
      s'.idseed = s.drawn time ∧ s'.aseed = s.aseed ^^^ s.drawn time := by
  have hid : ∀ t other, s.heap t = some other → other.id ≠ (s.drawn time).toUInt16 := by
    intro t other hother heq
    have hbit := h.ids t other hother
    rw [heq, hfresh] at hbit
    cases hbit
  obtain ⟨s', hprepare, hsound, hallocated, hidseed, haseed, ⟨item, hitem, hip, hitemid⟩, hothers⟩ :=
    h.sound.prepareRequest_free (fun t other hother => h.unknown hn hother) hid rand
  rw [h.allocated] at hprepare hallocated hitem hothers
  refine ⟨s', hprepare, ⟨hsound, hallocated, fun t other hother => ?_, fun t other hother => ?_⟩,
    live_of_eq hitem, hidseed, haseed⟩
  · by_cases ht : t = n
    · subst ht
      rw [← Option.some.inj (hitem.symm.trans hother), hip]
    · obtain ⟨old, hold, hsame, _⟩ := hothers t other ht hother
      exact hsame.trans (h.addresses t old hold)
  · rw [Nat.testBit_or]
    by_cases ht : t = n
    · subst ht
      rw [← Option.some.inj (hitem.symm.trans hother), hitemid, Nat.testBit_two_pow_self, Bool.or_true]
    · obtain ⟨old, hold, _, hsame⟩ := hothers t other ht hother
      rw [hsame, h.ids t old hold, Bool.true_or]

/-- A positive answer for an item keeps the cache filled, but for what it purges. -/
theorem Filled.requestSucceeded (h : s.Filled ring n used) {rp : ItemRef} (hrp : s.Live rp)
    (ttl : Int64) (ipname : Option String) (rand : Nat) :
    ∃ s', s.requestSucceeded rp ttl ipname rand = some s' ∧ s'.Filled (touch ring rp) n used ∧
      s'.idseed = s.idseed ∧ s'.aseed = s.aseed ∧
      ∀ t, s'.Live t ↔ s.Live t ∧ ¬(t ∈ ring ∧ t ∉ touch ring rp) := by
  obtain ⟨s', hstep, hsound, hallocated, hidseed, haseed, hlive, hitems⟩ :=
    h.sound.requestSucceeded hrp ttl ipname rand
  refine ⟨s', hstep, ⟨hsound, hallocated.trans h.allocated, fun t item hitem => ?_,
    fun t item hitem => ?_⟩, hidseed, haseed, hlive⟩
  · obtain ⟨old, hold, hip, _⟩ := hitems t item hitem
    exact hip.trans (h.addresses t old hold)
  · obtain ⟨old, hold, _, hid⟩ := hitems t item hitem
    rw [hid]
    exact h.ids t old hold

theorem touch_range (hn : n ≤ 1024) :
    touch (List.range n).reverse n = (List.range (n + 1)).reverse := by
  have hnot : n ∉ (List.range n).reverse := by simp
  have hlength : ¬(List.range n).reverse.length > 1024 := by
    rw [List.length_reverse, List.length_range]
    omega
  have hrange : (List.range (n + 1)).reverse = n :: (List.range n).reverse := by
    rw [List.range_succ, List.reverse_append]
    rfl
  rw [touch, if_neg hnot, purged, if_neg hlength, hrange]

theorem filled_init (time time' : UInt64) (pid : UInt16) :
    (start.init time time' pid).Filled (List.range 0).reverse 0 0 where
  sound := Sound.init time time' pid
  allocated := rfl
  addresses _ _ ht := by cases ht
  ids _ _ ht := by cases ht

/-- Requests for new addresses, each answered at once, fill the active list. -/
theorem Filled.rounds {past : List (Ipcache × IpcacheEvent)} (hrun : Run past s)
    (h : s.Filled (List.range n).reverse n used) (times rest : List UInt64)
    (hroom : n + times.length ≤ 1025) (hfresh : freshIds (times ++ rest) s.idseed s.aseed used) :
    ∃ past' s' used', Run past' s' ∧
      s'.Filled (List.range (n + times.length)).reverse (n + times.length) used' ∧
      freshIds rest s'.idseed s'.aseed used' := by
  induction times generalizing past s n used with
  | nil => exact ⟨past, s, used, hrun, h, hfresh⟩
  | cons time times ih =>
      rw [List.cons_append, freshIds, Bool.and_eq_true, Bool.not_eq_true'] at hfresh
      rw [List.length_cons] at hroom
      obtain ⟨s₁, hprepare, hfilled₁, hlive, hidseed₁, haseed₁⟩ :=
        h.prepareRequest (by omega) hfresh.1 0
      obtain ⟨s₂, hanswer, hfilled₂, hidseed₂, haseed₂, _⟩ :=
        hfilled₁.requestSucceeded hlive 86400 (some "host") 0
      rw [touch_range (by omega)] at hfilled₂
      have hrun₁ := hrun.step (.prepareRequest (hostAddress n) [time] 0)
        (show Ipcache.step _ _ = some s₁ by simp [Ipcache.step, hprepare])
      have hrest : freshIds (times ++ rest) s₂.idseed s₂.aseed
          (used ||| 2 ^ (s.drawn time).toUInt16.toNat) := by
        rw [hidseed₂, haseed₂, hidseed₁, haseed₁]
        exact hfresh.2
      have hlength : n + (time :: times).length = n + 1 + times.length := by
        rw [List.length_cons]
        omega
      rw [hlength]
      exact ih (hrun₁.step (.requestSucceeded n 86400 (some "host") 0) hanswer) hfilled₂ (by omega)
        hrest

end Ipcache

end EtherApe
