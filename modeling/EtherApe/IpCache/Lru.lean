import EtherApe.IpCache.Sound

/-!
# The cache as a list of items in order of use

What the cache is for: a set of items, and a list of those that were answered, the one used last
first, which is cut when it grows too long. Buckets, chains and links play no part here. Every call
on a sound cache is a step of this one.
-/

namespace EtherApe

/-- The items without their links, and the answered ones in order of use. -/
structure LruCache where
  items : ItemRef → Option IpcacheItem
  ring : List ItemRef
  allocated : ItemRef
  currentTick : UInt64

/-- A call uses an item: an answer that is not ignored, or a look at an answered item. -/
def IpcacheEvent.Uses (items : ItemRef → Option IpcacheItem) : IpcacheEvent → ItemRef → Prop
  | .getnameip true (some ip), r =>
      ∃ item, items r = some item ∧ item.ip = ip ∧ item.state ≠ .ptrreq
  | .requestFailed rp _, r => r = rp ∧ ∃ item, items r = some item ∧ item.state ≠ .finished
  | .requestSucceeded rp _ _ _, r => r = rp
  | _, _ => False

namespace LruCache

def use (a : LruCache) (r : ItemRef) : LruCache :=
  { a with
    items := fun t => if t ∈ a.ring ∧ t ∉ Ipcache.touch a.ring r then none else a.items t
    ring := Ipcache.touch a.ring r }

def set (a : LruCache) (r : ItemRef) (item : IpcacheItem) : LruCache :=
  { a with items := Function.update a.items r (some item) }

theorem set_set (a : LruCache) (r : ItemRef) (item item' : IpcacheItem) :
    (a.set r item).set r item' = a.set r item' := by
  unfold set
  simp

/-- What a call may do. -/
inductive Step (a : LruCache) : IpcacheEvent → LruCache → Prop
  | tick : Step a .tick { a with currentTick := a.currentTick + 1 }
  | refresh {ip : Address} {times : List UInt64} {rand : Nat} (r : ItemRef) (item : IpcacheItem)
      (hitem : a.items r = some item) (hip : item.ip = ip) :
      Step a (.prepareRequest ip times rand) (a.set r (item.requested a.currentTick rand))
  | alloc {ip : Address} {times : List UInt64} {rand : Nat} (id : UInt16)
      (hip : ∀ t other, a.items t = some other → other.ip ≠ ip) :
      Step a (.prepareRequest ip times rand)
        { a.set a.allocated ({ Ipcache.blankItem ip with id := id }.requested a.currentTick rand) with
          allocated := a.allocated + 1 }
  | unused {nameRes : Bool} {ip : Option Address}
      (hnone : ∀ r, ¬(IpcacheEvent.getnameip nameRes ip).Uses a.items r) :
      Step a (.getnameip nameRes ip) a
  | used {nameRes : Bool} {ip : Option Address} (r : ItemRef)
      (huses : (IpcacheEvent.getnameip nameRes ip).Uses a.items r) :
      Step a (.getnameip nameRes ip) (a.use r)
  | findid {id : UInt16} : Step a (.findid id) a
  | ignored {r : ItemRef} {rand : Nat} (item : IpcacheItem) (hitem : a.items r = some item)
      (hstate : item.state = .finished) : Step a (.requestFailed r rand) a
  | failed {r : ItemRef} {rand : Nat} (item : IpcacheItem) (hitem : a.items r = some item)
      (hstate : item.state ≠ .finished) :
      Step a (.requestFailed r rand) ((a.set r (item.failed a.currentTick rand)).use r)
  | succeeded {r : ItemRef} {ttl : Int64} {ipname : Option String} {rand : Nat}
      (item : IpcacheItem) (hitem : a.items r = some item) :
      Step a (.requestSucceeded r ttl ipname rand)
        ((a.set r (item.succeeded a.currentTick ttl ipname rand)).use r)
  | clear : Step a .clear
      { a with items := fun t => if t ∈ a.ring then none else a.items t, ring := [] }

end LruCache

/-! ### The cache is such a list -/

namespace Ipcache

variable {s s' : Ipcache} {ring : List ItemRef} {r : ItemRef} {item : IpcacheItem}

/-- The cache without buckets, chains and links. -/
def abstract (s : Ipcache) (ring : List ItemRef) : LruCache where
  items t := (s.heap t).map IpcacheItem.content
  ring := ring
  allocated := s.allocated
  currentTick := s.currentTick

theorem content_requested (currentTick : UInt64) (rand : Nat) (item : IpcacheItem) :
    (item.requested currentTick rand).content = item.content.requested currentTick rand := by
  cases item with
  | mk nextid previousid nextip previousip nextActive previousActive expireTick lastExpireTick
      fqHostname ip id state => cases state <;> rfl

theorem skeleton_requested (currentTick : UInt64) (rand : Nat) (item : IpcacheItem) :
    (item.requested currentTick rand).skeleton = item.skeleton := by
  cases item with
  | mk nextid previousid nextip previousip nextActive previousActive expireTick lastExpireTick
      fqHostname ip id state => cases state <;> rfl

theorem abstract_items (ring : List ItemRef) (hr : s.heap r = some item) :
    (s.abstract ring).items r = some item.content :=
  congrArg (Option.map IpcacheItem.content) hr

theorem exists_of_items (hr : (s.abstract ring).items r = some item) :
    ∃ item', s.heap r = some item' ∧ item'.content = item := Option.map_eq_some_iff.mp hr

/-- Two caches that agree in contents, ring, count and tick are the same without their links. -/
theorem abstract_eq {a : LruCache} (hitems : ∀ t, (s.heap t).map IpcacheItem.content = a.items t)
    (hallocated : s.allocated = a.allocated) (htick : s.currentTick = a.currentTick) :
    s.abstract a.ring = a := by
  cases a with
  | mk items ring allocated currentTick =>
      obtain rfl : (fun t => (s.heap t).map IpcacheItem.content) = items := funext hitems
      subst hallocated htick
      rfl

theorem Kept.abstract_eq {gone : ItemRef → Prop} [DecidablePred gone] (h : s.Kept s' gone)
    (ring ring' : List ItemRef) :
    s'.abstract ring' = { s.abstract ring with
      items := fun t => if gone t then none else (s.abstract ring).items t
      ring := ring' } := by
  refine Ipcache.abstract_eq (a := { s.abstract ring with
    items := fun t => if gone t then none else (s.abstract ring).items t
    ring := ring' }) (fun t => ?_) h.allocated h.currentTick
  by_cases hgone : gone t
  · simp [hgone, h.freed t hgone]
  · simp only [hgone, if_false]
    exact h.content t hgone

theorem Sound.use (h : s.Sound ring) (hr : s.Live r) :
    ∃ s', s.linkActivelist r = some s' ∧ s'.Sound (touch ring r) ∧
      s'.abstract (touch ring r) = (s.abstract ring).use r := by
  obtain ⟨s', hlink, hsound, hkept⟩ := h.linkActivelist hr
  exact ⟨s', hlink, hsound, hkept.abstract_eq ring (touch ring r)⟩

theorem Sound.set (h : s.Sound ring) (hr : s.heap r = some item) {f : IpcacheItem → IpcacheItem}
    (hskeleton : ∀ item, (f item).skeleton = item.skeleton)
    (hcontent : ∀ item, (f item).content = f item.content) :
    ∃ heap, s.heap.write r f = some heap ∧ Live { s with heap := heap } r ∧
      Sound { s with heap := heap } ring ∧
      abstract { s with heap := heap } ring = (s.abstract ring).set r (f item.content) := by
  obtain ⟨hwrite, hsound⟩ := h.write hr hskeleton
  refine ⟨_, hwrite, live_of_eq (Function.update_self _ _ _), hsound, Ipcache.abstract_eq
    (a := (s.abstract ring).set r (f item.content)) (fun t => ?_) rfl rfl⟩
  by_cases ht : t = r
  · subst ht
    simp [LruCache.set, hcontent]
  · simp [LruCache.set, ht, abstract]

/-! ### Each call is a step -/

/-- A request refreshes the item of its address, or a new one if there is none. -/
theorem Sound.prepareRequest_cases {ip : Address} {times : List UInt64} {rand : Nat} {rp : ItemRef}
    (h : s.Sound ring) (hstep : s.prepareRequest ip times rand = some (rp, s')) :
    s'.Sound ring ∧ s'.Live rp ∧
      ((∃ item, s.heap rp = some item ∧ item.ip = ip ∧ s'.abstract ring =
          (s.abstract ring).set rp (item.content.requested s.currentTick rand)) ∨
        (rp = s.allocated ∧ (∀ t other, s.heap t = some other → other.ip ≠ ip) ∧
          ∃ id, s'.abstract ring = { (s.abstract ring).set s.allocated
            ({ blankItem ip with id := id }.requested s.currentTick rand) with
            allocated := s.allocated + 1 })) := by
  obtain ⟨found, ipbash, hfind, hsound, hfound⟩ := h.findip ip
  simp only [Ipcache.prepareRequest, Option.bind_eq_bind, hfind, Option.bind_some] at hstep
  cases found with
  | some r =>
      obtain ⟨item, hitem, hip⟩ := (hfound r).mp rfl
      obtain ⟨heap, hwrite, hlive, hsound', habstract⟩ := hsound.set hitem
        (skeleton_requested s.currentTick rand) (content_requested s.currentTick rand)
      simp only [Option.bind_some, hwrite, Option.some.injEq, Prod.mk.injEq] at hstep
      obtain ⟨rfl, rfl⟩ := hstep
      exact ⟨hsound', hlive, Or.inl ⟨item, hitem, hip, habstract⟩⟩
  | none =>
      have hnew : ∀ t other, s.heap t = some other → other.ip ≠ ip := fun t other hother hip =>
        absurd ((hfound t).mpr ⟨other, hother, hip⟩) (by simp)
      simp only [Option.bind_eq_some_iff] at hstep
      obtain ⟨⟨r, s₁⟩, halloc, heap, hwrite, hresult⟩ := hstep
      obtain ⟨rfl, rfl⟩ := Prod.mk.inj (Option.some.inj hresult)
      obtain ⟨hsound₁, rfl, hallocated, htick, ⟨item, id, hitem, hcontent⟩, hothers⟩ :=
        hsound.allocItem hnew halloc
      obtain ⟨heap', hwrite', hlive, hsound', habstract⟩ := hsound₁.set hitem
        (skeleton_requested s₁.currentTick rand) (content_requested s₁.currentTick rand)
      obtain rfl := Option.some.inj (hwrite'.symm.trans hwrite)
      refine ⟨hsound', hlive, Or.inr ⟨rfl, hnew, id, ?_⟩⟩
      have hstate : s₁.abstract ring = { (s.abstract ring).set s.allocated
          { blankItem ip with id := id } with allocated := s.allocated + 1 } := by
        refine Ipcache.abstract_eq (a := { (s.abstract ring).set s.allocated
          { blankItem ip with id := id } with allocated := s.allocated + 1 }) (fun t => ?_)
          hallocated htick
        by_cases ht : t = s.allocated
        · subst ht
          simp [LruCache.set, hitem, hcontent]
        · simpa [LruCache.set, ht, abstract] using hothers t ht
      have hset : ({ (s.abstract ring).set s.allocated { blankItem ip with id := id } with
            allocated := s.allocated + 1 } : LruCache).set s.allocated
            ({ blankItem ip with id := id }.requested s₁.currentTick rand) =
          { (s.abstract ring).set s.allocated
            ({ blankItem ip with id := id }.requested s.currentTick rand) with
            allocated := s.allocated + 1 } := by
        rw [htick]
        exact congrArg (fun a : LruCache => { a with allocated := s.allocated + 1 })
          (LruCache.set_set _ _ _ _)
      rw [habstract, hstate, hcontent, hset]

theorem Sound.step_prepareRequest {ip : Address} {times : List UInt64} {rand : Nat} {rp : ItemRef}
    (h : s.Sound ring) (hstep : s.prepareRequest ip times rand = some (rp, s')) :
    s'.Sound ring ∧ s'.Live rp ∧
      LruCache.Step (s.abstract ring) (.prepareRequest ip times rand) (s'.abstract ring) := by
  obtain ⟨hsound, hlive, hcases⟩ := h.prepareRequest_cases hstep
  refine ⟨hsound, hlive, ?_⟩
  rcases hcases with ⟨item, hitem, hip, habstract⟩ | ⟨rfl, hnew, id, habstract⟩
  · rw [habstract]
    exact .refresh rp item.content (abstract_items ring hitem) hip
  · rw [habstract]
    refine .alloc id fun t other hother => ?_
    obtain ⟨item', hitem', rfl⟩ := exists_of_items hother
    exact hnew t item' hitem'

theorem uses_iff (ring : List ItemRef) (e : IpcacheEvent) :
    e.Uses s.heap r ↔ e.Uses (s.abstract ring).items r := by
  have hitems : ∀ {p : IpcacheItem → Prop}, (∀ item, p item.content ↔ p item) →
      ((∃ item, s.heap r = some item ∧ p item) ↔
        ∃ item, (s.abstract ring).items r = some item ∧ p item) := by
    intro p hp
    constructor
    · rintro ⟨item, hitem, hitem'⟩
      exact ⟨item.content, abstract_items ring hitem, (hp item).mpr hitem'⟩
    · rintro ⟨item, hitem, hitem'⟩
      obtain ⟨item', hitem'', rfl⟩ := exists_of_items hitem
      exact ⟨item', hitem'', (hp item').mp hitem'⟩
  cases e with
  | getnameip nameRes ip =>
      cases nameRes with
      | false => exact Iff.rfl
      | true =>
          cases ip with
          | none => exact Iff.rfl
          | some ip => exact hitems fun item => Iff.rfl
  | requestFailed rp rand => exact and_congr_right fun _ => hitems fun item => Iff.rfl
  | tick | prepareRequest ip times rand | findid id | requestSucceeded rp ttl ipname rand | clear =>
      exact Iff.rfl

theorem Sound.step_getnameip (h : s.Sound ring) (nameRes : Bool) (ip : Option Address) :
    ∃ name isExpired s' ring', s.getnameip nameRes ip = some (name, isExpired, s') ∧
      s'.Sound ring' ∧
      LruCache.Step (s.abstract ring) (.getnameip nameRes ip) (s'.abstract ring') := by
  cases ip with
  | none =>
      exact ⟨_, _, s, ring, rfl, h, .unused fun r => by cases nameRes <;> exact id⟩
  | some ip =>
      cases nameRes with
      | false => exact ⟨_, _, s, ring, rfl, h, .unused fun r => id⟩
      | true =>
          obtain ⟨found, ipbash, hfind, hsound, hfound⟩ := h.findip ip
          cases found with
          | none =>
              refine ⟨.address ip, some true, { s with ipbash := ipbash }, ring,
                by simp [Ipcache.getnameip, hfind], hsound, .unused fun r huses => ?_⟩
              obtain ⟨item, hitem, hip, _⟩ := (uses_iff _ _).mpr huses
              exact absurd ((hfound r).mpr ⟨item, hitem, hip⟩) (by simp)
          | some rp =>
              obtain ⟨item, hitem, hip⟩ := (hfound rp).mp rfl
              by_cases hstate : item.state = .ptrreq
              · refine ⟨.address ip, some (s.isExpiredTick item.expireTick),
                  { s with ipbash := ipbash }, ring, ?_, hsound, .unused fun r huses => ?_⟩
                · simp [Ipcache.getnameip, hfind, hitem, hstate, isExpiredTick]
                · obtain ⟨item', hitem', hip', hstate'⟩ := (uses_iff _ _).mpr huses
                  obtain rfl := Option.some.inj ((hfound r).mpr ⟨item', hitem', hip'⟩)
                  obtain rfl := Option.some.inj (hitem.symm.trans hitem')
                  exact hstate' hstate
              · obtain ⟨s', hlink, hsound', habstract⟩ := hsound.use (live_of_eq hitem)
                obtain ⟨name, hname⟩ : ∃ name, s.getnameip true (some ip) =
                    some (name, some (s.isExpiredTick item.expireTick), s') := by
                  cases hs : item.state with
                  | ptrreq => exact absurd hs hstate
                  | finished =>
                      cases hf : item.fqHostname <;>
                        simp [Ipcache.getnameip, hfind, hitem, hs, hf, hlink, isExpiredTick]
                  | failed =>
                      simp [Ipcache.getnameip, hfind, hitem, hs, hlink, isExpiredTick]
                refine ⟨_, _, s', touch ring rp, hname, hsound', ?_⟩
                rw [habstract]
                exact .used rp ((uses_iff _ _).mp ⟨item, hitem, hip, hstate⟩)

theorem Sound.step_requestFailed {rp : ItemRef} (h : s.Sound ring) (hitem : s.heap rp = some item)
    (rand : Nat) :
    ∃ s' ring', s.requestFailed rp rand = some s' ∧ s'.Sound ring' ∧
      LruCache.Step (s.abstract ring) (.requestFailed rp rand) (s'.abstract ring') := by
  by_cases hstate : item.state = .finished
  · refine ⟨s, ring, by simp [Ipcache.requestFailed, hitem, hstate], h, ?_⟩
    exact .ignored item.content (abstract_items ring hitem) hstate
  · obtain ⟨heap, hwrite, hlive, hsound, habstract⟩ := h.set hitem
      (f := IpcacheItem.failed s.currentTick rand) (fun _ => rfl) (fun _ => rfl)
    obtain ⟨s', hlink, hsound', habstract'⟩ := hsound.use hlive
    refine ⟨s', touch ring rp, by simp [Ipcache.requestFailed, hitem, hstate, hwrite, hlink],
      hsound', ?_⟩
    rw [habstract', habstract]
    exact .failed item.content (abstract_items ring hitem) hstate

theorem Sound.step_requestSucceeded {rp : ItemRef} (h : s.Sound ring)
    (hitem : s.heap rp = some item) (ttl : Int64) (ipname : Option String) (rand : Nat) :
    ∃ s' ring', s.requestSucceeded rp ttl ipname rand = some s' ∧ s'.Sound ring' ∧
      LruCache.Step (s.abstract ring) (.requestSucceeded rp ttl ipname rand)
        (s'.abstract ring') := by
  obtain ⟨heap, hwrite, hlive, hsound, habstract⟩ := h.set hitem
    (f := IpcacheItem.succeeded s.currentTick ttl ipname rand) (fun _ => rfl) (fun _ => rfl)
  obtain ⟨s', hlink, hsound', habstract'⟩ := hsound.use hlive
  refine ⟨s', touch ring rp, by simp [Ipcache.requestSucceeded, hwrite, hlink], hsound', ?_⟩
  rw [habstract', habstract]
  exact .succeeded item.content (abstract_items ring hitem)

/-- Every call on a sound cache leaves a sound one, and is a step of the list in order of use. -/
theorem Sound.step {e : IpcacheEvent} (h : s.Sound ring) (hstep : s.step e = some s') :
    ∃ ring', s'.Sound ring' ∧ LruCache.Step (s.abstract ring) e (s'.abstract ring') := by
  cases e with
  | tick =>
      obtain rfl := Option.some.inj hstep
      exact ⟨ring, ⟨h.ids, h.ips, ⟨h.active.linked, h.active.nodup, h.active.head, h.active.count,
        h.active.unlinked⟩, h.allocated⟩, .tick⟩
  | prepareRequest ip times rand =>
      obtain ⟨⟨rp, s₁⟩, hprepare, rfl⟩ := Option.map_eq_some_iff.mp hstep
      obtain ⟨hsound, _, hlru⟩ := h.step_prepareRequest hprepare
      exact ⟨ring, hsound, hlru⟩
  | getnameip nameRes ip =>
      obtain ⟨name, isExpired, s₁, ring', hname, hsound, hlru⟩ := h.step_getnameip nameRes ip
      simp only [Ipcache.step, hname, Option.map_some, Option.some.injEq] at hstep
      subst hstep
      exact ⟨ring', hsound, hlru⟩
  | findid id =>
      obtain ⟨found, idbash, hfind, hsound, _⟩ := h.findid id
      simp only [Ipcache.step, hfind, Option.map_some, Option.some.injEq] at hstep
      subst hstep
      exact ⟨ring, hsound, .findid⟩
  | requestFailed rp rand =>
      obtain ⟨item, hitem⟩ : ∃ item, s.heap rp = some item := by
        cases hrp : s.heap rp with
        | none => simp [Ipcache.step, Ipcache.requestFailed, hrp] at hstep
        | some item => exact ⟨item, rfl⟩
      obtain ⟨s₁, ring', hfailed, hsound, hlru⟩ := h.step_requestFailed hitem rand
      obtain rfl := Option.some.inj (hfailed.symm.trans hstep)
      exact ⟨ring', hsound, hlru⟩
  | requestSucceeded rp ttl ipname rand =>
      obtain ⟨item, hitem⟩ : ∃ item, s.heap rp = some item := by
        cases hrp : s.heap rp with
        | none => simp [Ipcache.step, Ipcache.requestSucceeded, Heap.write, hrp] at hstep
        | some item => exact ⟨item, rfl⟩
      obtain ⟨s₁, ring', hsucceeded, hsound, hlru⟩ :=
        h.step_requestSucceeded hitem ttl ipname rand
      obtain rfl := Option.some.inj (hsucceeded.symm.trans hstep)
      exact ⟨ring', hsound, hlru⟩
  | clear =>
      obtain ⟨s₁, hclear, hsound, hkept⟩ := h.clear
      obtain rfl := Option.some.inj (hclear.symm.trans hstep)
      refine ⟨[], hsound, ?_⟩
      rw [hkept.abstract_eq ring []]
      exact .clear

/-! ### The start -/

theorem holds_empty {κ : Type} {T : ChainTable ItemRef IpcacheItem κ (Fin bashSize)}
    {dom : ItemRef → Prop} (hdom : ∀ r, ¬dom r) : T.Holds s.heap (fun _ => none) dom fun _ => [] where
  linked _ := trivial
  sorted _ := List.Pairwise.nil
  mem_iff _ r := iff_of_false List.not_mem_nil fun h => hdom r h.1
  finger_none _ _ := rfl
  finger_mem _ _ h := by cases h

theorem Sound.init (time time' : UInt64) (pid : UInt16) :
    (start.init time time' pid).Sound [] where
  ids := ⟨_, holds_empty fun _ h => by cases h⟩
  ips := ⟨_, holds_empty fun _ h => by cases h⟩
  active := ⟨trivial, List.nodup_nil, rfl, rfl, fun _ _ h => by cases h⟩
  allocated _ h := by cases h

end Ipcache

end EtherApe
