import Mathlib.Data.List.Nodup
import Mathlib.Logic.Function.Basic

/-!
# Linked records in a heap

Records that carry their own links, as C programs chain them. A heap maps a reference to the record
behind it, and an access through a dangling reference fails. A segment is a list of records whose
links agree with the list: what is before the first of them and after the last is left open, so that
one notion serves chains that end in null and rings.
-/

abbrev Heap (ρ α : Type) := ρ → Option α

namespace Heap

variable {ρ α : Type} [DecidableEq ρ] {h h' : Heap ρ α} {f : α → α} {r t : ρ} {a : α}

def write (h : Heap ρ α) (r : ρ) (f : α → α) : Option (Heap ρ α) :=
  (h r).map fun a => Function.update h r (some (f a))

/-- Assigns to fields of the record at `r` unless `r` is null. -/
def writeIf (h : Heap ρ α) (r : Option ρ) (f : α → α) : Option (Heap ρ α) :=
  match r with
  | none => some h
  | some r => h.write r f

def free (h : Heap ρ α) (r : ρ) : Heap ρ α := Function.update h r none

/-- The records met by following the pointers from `p`. -/
def follow (next : α → Option ρ) (h : Heap ρ α) : Nat → Option ρ → List ρ
  | 0, _ => []
  | _ + 1, none => []
  | n + 1, some r => r :: follow next h n ((h r).bind next)

@[simp] theorem writeIf_none : h.writeIf none f = some h := rfl

@[simp] theorem writeIf_some : h.writeIf (some r) f = h.write r f := rfl

theorem write_of_eq (ha : h r = some a) :
    h.write r f = some (Function.update h r (some (f a))) := by
  rw [write, ha, Option.map_some]

/-- What an assignment does to the record it assigns to, and to the others. -/
theorem write_eq_some_iff :
    h.write r f = some h' ↔ ∃ a, h r = some a ∧ h' = Function.update h r (some (f a)) := by
  simp [write, eq_comm]

theorem map_write {γ : Type} {g : α → γ} (hg : ∀ a, g (f a) = g a) (hwrite : h.write r f = some h')
    (t : ρ) : (h' t).map g = (h t).map g := by
  obtain ⟨a, ha, rfl⟩ := write_eq_some_iff.mp hwrite
  by_cases hrt : t = r
  · subst hrt
    simp [ha, hg]
  · rw [Function.update_of_ne hrt]

theorem map_writeIf {γ : Type} {g : α → γ} {r : Option ρ} (hg : ∀ a, g (f a) = g a)
    (hwrite : h.writeIf r f = some h') (t : ρ) : (h' t).map g = (h t).map g := by
  cases r with
  | none =>
      obtain rfl := Option.some.inj hwrite
      rfl
  | some r => exact map_write hg hwrite t

theorem write_of_ne (hwrite : h.write r f = some h') (ht : t ≠ r) : h' t = h t := by
  obtain ⟨a, _, rfl⟩ := write_eq_some_iff.mp hwrite
  exact Function.update_of_ne ht _ _

theorem writeIf_of_ne {r : Option ρ} (hwrite : h.writeIf r f = some h') (ht : r ≠ some t) :
    h' t = h t := by
  cases r with
  | none =>
      obtain rfl := Option.some.inj hwrite
      rfl
  | some r => exact write_of_ne hwrite fun heq => ht (congrArg some heq.symm)

end Heap

/-- The two link fields of a record. Each is set without touching the other. -/
structure LinkFields (ρ α : Type) where
  next : α → Option ρ
  previous : α → Option ρ
  setNext : α → Option ρ → α
  setPrevious : α → Option ρ → α
  next_setNext : ∀ a x, next (setNext a x) = x
  next_setPrevious : ∀ a x, next (setPrevious a x) = next a
  previous_setNext : ∀ a x, previous (setNext a x) = previous a
  previous_setPrevious : ∀ a x, previous (setPrevious a x) = x
  setNext_setNext : ∀ a x y, setNext (setNext a x) y = setNext a y
  setPrevious_setPrevious : ∀ a x y, setPrevious (setPrevious a x) y = setPrevious a y
  setNext_setPrevious : ∀ a x y, setNext (setPrevious a x) y = setPrevious (setNext a y) x

namespace LinkFields

attribute [simp] next_setNext next_setPrevious previous_setNext previous_setPrevious

variable {ρ α : Type} (F : LinkFields ρ α)

def view (a : α) : Option ρ × Option ρ := (F.previous a, F.next a)

def data (a : α) : α := F.setPrevious (F.setNext a none) none

@[simp] theorem data_setNext (a : α) (x : Option ρ) : F.data (F.setNext a x) = F.data a := by
  rw [data, F.setNext_setNext, data]

@[simp] theorem data_setPrevious (a : α) (x : Option ρ) :
    F.data (F.setPrevious a x) = F.data a := by
  rw [data, F.setNext_setPrevious, F.setPrevious_setPrevious, data]

@[simp] theorem data_data (a : α) : F.data (F.data a) = F.data a := by
  change F.data (F.setPrevious (F.setNext a none) none) = F.data a
  rw [data_setPrevious, data_setNext]

@[simp] theorem next_data (a : α) : F.next (F.data a) = none := by
  rw [data, F.next_setPrevious, F.next_setNext]

@[simp] theorem previous_data (a : α) : F.previous (F.data a) = none := F.previous_setPrevious _ _

/-- Two heaps differ in links only. -/
def SameData (h h' : Heap ρ α) : Prop := ∀ r, (h' r).map F.data = (h r).map F.data

variable {F} {h h' h'' : Heap ρ α}

theorem SameData.refl : F.SameData h h := fun _ => rfl

theorem SameData.trans (hdata : F.SameData h h') (hdata' : F.SameData h' h'') :
    F.SameData h h'' := fun r => (hdata' r).trans (hdata r)

/-- What does not depend on the links is the same in both heaps. -/
theorem SameData.map {γ : Type} {g : α → γ} (hdata : F.SameData h h')
    (hg : ∀ a, g (F.data a) = g a) (r : ρ) : (h' r).map g = (h r).map g := by
  have hcomp : g ∘ F.data = g := funext hg
  have hmap := congrArg (Option.map g) (hdata r)
  rwa [Option.map_map, Option.map_map, hcomp] at hmap

theorem SameData.isSome (hdata : F.SameData h h') (r : ρ) : (h' r).isSome = (h r).isSome := by
  simpa using congrArg Option.isSome (hdata r)

section Writes

variable [DecidableEq ρ] {r : ρ} {x : Option ρ}

theorem SameData.write {f : α → α} (hf : ∀ a, F.data (f a) = F.data a)
    (hwrite : h.write r f = some h') : F.SameData h h' := Heap.map_write hf hwrite

theorem SameData.writeIf {f : α → α} {r : Option ρ} (hf : ∀ a, F.data (f a) = F.data a)
    (hwrite : h.writeIf r f = some h') : F.SameData h h' := Heap.map_writeIf hf hwrite

end Writes

/-! ### Segments -/

variable (F)

/-- The records of a list are linked in its order; `p` is before the first and `n` after the last. -/
def Seg (h : Heap ρ α) : Option ρ → List ρ → Option ρ → Prop
  | _, [], _ => True
  | p, r :: rs, n =>
      (∃ a, h r = some a ∧ F.previous a = p ∧ F.next a = rs.head?.or n) ∧ Seg h (some r) rs n

/-- The records of a list are linked in a circle. -/
def Ring (h : Heap ρ α) (rs : List ρ) : Prop := F.Seg h rs.getLast? rs rs.head?

variable {F} {p n : Option ρ} {r : ρ} {rs as bs : List ρ}

theorem seg_append : F.Seg h p (as ++ bs) n ↔
    F.Seg h p as (bs.head?.or n) ∧ F.Seg h (as.getLast?.or p) bs n := by
  induction as generalizing p with
  | nil => simp [Seg]
  | cons a as ih =>
      have hlast : (a :: as).getLast?.or p = as.getLast?.or (some a) := by
        rw [List.getLast?_cons]
        cases as.getLast? <;> rfl
      rw [List.cons_append, Seg, Seg, ih, hlast, List.head?_append, Option.or_assoc, and_assoc]

theorem Seg.live (hseg : F.Seg h p rs n) (hr : r ∈ rs) : ∃ a, h r = some a := by
  obtain ⟨as, bs, rfl⟩ := List.append_of_mem hr
  obtain ⟨a, ha, _, _⟩ := (seg_append.mp hseg).2.1
  exact ⟨a, ha⟩

/-- Who follows the links from the first record of a segment meets its records. -/
theorem Seg.follow_eq (hseg : F.Seg h p rs n) :
    h.follow F.next rs.length (rs.head?.or n) = rs := by
  induction rs generalizing p with
  | nil => rfl
  | cons r rs ih =>
      obtain ⟨⟨a, ha, _, hnext⟩, hrest⟩ := hseg
      rw [List.head?_cons, Option.some_or, List.length_cons, Heap.follow, ha, Option.bind_some,
        hnext, ih hrest]

/-- A segment sees nothing of the heap but the links of its own records. -/
theorem Seg.congr (hseg : F.Seg h p rs n)
    (hview : ∀ r ∈ rs, (h' r).map F.view = (h r).map F.view) : F.Seg h' p rs n := by
  induction rs generalizing p with
  | nil => trivial
  | cons r rs ih =>
      obtain ⟨⟨a, ha, hprevious, hnext⟩, hrest⟩ := hseg
      refine ⟨?_, ih hrest fun t ht => hview t (List.mem_cons_of_mem r ht)⟩
      have hr := hview r List.mem_cons_self
      rw [ha] at hr
      obtain ⟨a', ha', hlinks⟩ := Option.map_eq_some_iff.mp hr
      obtain ⟨hprevious', hnext'⟩ := Prod.mk.inj hlinks
      exact ⟨a', ha', hprevious'.trans hprevious, hnext'.trans hnext⟩

theorem Seg.congr_heap (hseg : F.Seg h p rs n) (hsame : ∀ r ∈ rs, h' r = h r) :
    F.Seg h' p rs n := hseg.congr fun r hr => by rw [hsame r hr]

variable (F) in
/-- The same records read from the other end. -/
def flip : LinkFields ρ α where
  next := F.previous
  previous := F.next
  setNext := F.setPrevious
  setPrevious := F.setNext
  next_setNext := F.previous_setPrevious
  next_setPrevious := F.previous_setNext
  previous_setNext := F.next_setPrevious
  previous_setPrevious := F.next_setNext
  setNext_setNext := F.setPrevious_setPrevious
  setPrevious_setPrevious := F.setNext_setNext
  setNext_setPrevious a x y := (F.setNext_setPrevious a y x).symm

theorem flip_data (a : α) : F.flip.data a = F.data a := F.setNext_setPrevious a none none

theorem seg_flip : F.flip.Seg h n rs.reverse p ↔ F.Seg h p rs n := by
  induction rs generalizing p with
  | nil => simp [Seg]
  | cons r rs ih =>
      have hone : F.flip.Seg h (rs.reverse.getLast?.or n) [r] p ↔
          ∃ a, h r = some a ∧ F.previous a = p ∧ F.next a = rs.head?.or n := by
        rw [List.getLast?_reverse]
        simp [Seg, flip, and_comm]
      rw [List.reverse_cons, seg_append, hone, List.head?_singleton, Option.some_or, ih, Seg,
        and_comm]

theorem SameData.of_flip (hdata : F.flip.SameData h h') : F.SameData h h' := by
  intro r
  have hr := hdata r
  rwa [funext flip_data] at hr

section Writes

variable [DecidableEq ρ]

theorem Seg.writeIf_head (hseg : F.Seg h p rs n) (hnodup : rs.Nodup) (v : Option ρ) :
    ∃ h', h.writeIf rs.head? (F.setPrevious · v) = some h' ∧ F.Seg h' v rs n := by
  cases rs with
  | nil => exact ⟨h, rfl, trivial⟩
  | cons r rs =>
      obtain ⟨⟨a, ha, _, hnext⟩, hrest⟩ := hseg
      refine ⟨_, Heap.write_of_eq ha, ⟨_, Function.update_self _ _ _, by simp, by simpa using hnext⟩,
        hrest.congr_heap fun t ht => Function.update_of_ne ?_ _ _⟩
      rintro rfl
      exact (List.nodup_cons.mp hnodup).1 ht

theorem Seg.writeIf_last (hseg : F.Seg h p rs n) (hnodup : rs.Nodup) (v : Option ρ) :
    ∃ h', h.writeIf rs.getLast? (F.setNext · v) = some h' ∧ F.Seg h' p rs v := by
  obtain ⟨h', hwrite, hseg'⟩ := (seg_flip.mpr hseg).writeIf_head (List.nodup_reverse.mpr hnodup) v
  rw [List.head?_reverse] at hwrite
  exact ⟨h', hwrite, seg_flip.mp hseg'⟩

end Writes

/-! ### Putting a record in -/

section Insert

variable [DecidableEq ρ] {x : ρ} {a : α}

variable (F) in
/-- Links the record at `x` after the one at `r`. -/
def insertAfter (h : Heap ρ α) (r x : ρ) : Option (Heap ρ α) := do
  let a ← h r
  let h ← h.write x fun b => F.setNext (F.setPrevious b (some r)) (F.next a)
  let a ← h r
  let h ← h.writeIf (F.next a) (F.setPrevious · (some x))
  h.write r (F.setNext · (some x))

variable (F) in
/-- Links the record at `x` before the one at `r`. -/
def insertBefore (h : Heap ρ α) (r x : ρ) : Option (Heap ρ α) := F.flip.insertAfter h r x

theorem SameData.insertAfter (hinsert : F.insertAfter h r x = some h') : F.SameData h h' := by
  simp only [LinkFields.insertAfter, Option.bind_eq_bind, Option.bind_eq_some_iff] at hinsert
  obtain ⟨a, _, h₁, hfirst, a', _, h₂, hsecond, hthird⟩ := hinsert
  exact ((SameData.write (fun _ => by simp) hfirst).trans
    (SameData.writeIf (fun _ => by simp) hsecond)).trans (SameData.write (fun _ => by simp) hthird)

theorem SameData.insertBefore (hinsert : F.insertBefore h r x = some h') : F.SameData h h' :=
  (SameData.insertAfter hinsert).of_flip

theorem Seg.insertAfter (hseg : F.Seg h none (as ++ r :: bs) none)
    (hnodup : (as ++ r :: bs).Nodup) (hx : h x = some a) (hnew : x ∉ as ++ r :: bs) :
    ∃ h', F.insertAfter h r x = some h' ∧ F.Seg h' none (as ++ r :: x :: bs) none ∧
      ∀ t, t ≠ x → t ∉ as ++ r :: bs → h' t = h t := by
  rw [List.append_cons] at hseg hnodup hnew
  rw [List.append_cons as r (x :: bs), List.append_cons as r bs]
  obtain ⟨hfront, hback⟩ := seg_append.mp hseg
  rw [Option.or_none] at hfront
  rw [List.getLast?_concat, Option.some_or] at hback
  obtain ⟨b, hb, _, hnext⟩ := (seg_append.mp hfront).2.1
  have hdisjoint : (as ++ [r]).Disjoint bs := List.disjoint_of_nodup_append hnodup
  have hxr : r ≠ x := by
    rintro rfl
    exact hnew (by simp)
  -- The new record is linked first; nothing of the chain changes.
  have hfirst := Heap.write_of_eq (f := fun b' => F.setNext (F.setPrevious b' (some r)) (F.next b)) hx
  have hold : ∀ t ∈ as ++ [r] ++ bs, Function.update h x
      (some (F.setNext (F.setPrevious a (some r)) (F.next b))) t = h t := by
    intro t ht
    refine Function.update_of_ne ?_ _ _
    rintro rfl
    exact hnew ht
  have hfront₁ := hfront.congr_heap fun t ht => hold t (List.mem_append_left bs ht)
  have hback₁ := hback.congr_heap fun t ht => hold t (List.mem_append_right (as ++ [r]) ht)
  obtain ⟨h₂, hsecond, hback₂⟩ := hback₁.writeIf_head hnodup.of_append_right (some x)
  have hkeep₂ : ∀ t ∉ bs, h₂ t = _ := fun t ht =>
    Heap.writeIf_of_ne hsecond fun heq => ht (List.mem_of_mem_head? heq)
  have hfront₂ := hfront₁.congr_heap fun t ht => hkeep₂ t (hdisjoint ht)
  obtain ⟨h₃, hthird, hfront₃⟩ := hfront₂.writeIf_last hnodup.of_append_left (some x)
  rw [List.getLast?_concat] at hthird
  have hkeep₃ : ∀ t, t ≠ r → h₃ t = h₂ t := fun t ht => Heap.write_of_ne hthird ht
  have hx₃ : h₃ x = some (F.setNext (F.setPrevious a (some r)) (F.next b)) := by
    rw [hkeep₃ x hxr.symm, hkeep₂ x fun hmem => hnew (List.mem_append_right _ hmem),
      Function.update_self]
  have hback₃ : F.Seg h₃ (some x) bs none := by
    refine Seg.congr_heap hback₂ fun t ht => hkeep₃ t ?_
    rintro rfl
    exact hdisjoint (by simp) ht
  refine ⟨h₃, ?_, seg_append.mpr ⟨hfront₃, ⟨_, hx₃, by simp, by simpa using hnext⟩, hback₃⟩,
    fun t htx ht => ?_⟩
  · have hr₁ := (hold r (by simp)).trans hb
    have hnext' : F.next b = bs.head? := by simpa using hnext
    rw [hnext'] at hfirst hr₁ hsecond
    simp only [LinkFields.insertAfter, Option.bind_eq_bind, hb, Option.bind_some, hnext', hfirst,
      hr₁, hsecond]
    exact hthird
  · rw [hkeep₃ t fun heq => ht (by simp [heq]), hkeep₂ t fun hmem => ht (by simp [hmem]),
      Function.update_of_ne htx]

theorem Seg.insertBefore (hseg : F.Seg h none (as ++ r :: bs) none)
    (hnodup : (as ++ r :: bs).Nodup) (hx : h x = some a) (hnew : x ∉ as ++ r :: bs) :
    ∃ h', F.insertBefore h r x = some h' ∧ F.Seg h' none (as ++ x :: r :: bs) none ∧
      ∀ t, t ≠ x → t ∉ as ++ r :: bs → h' t = h t := by
  have hreverse : (as ++ r :: bs).reverse = bs.reverse ++ r :: as.reverse := by simp
  have hflip := seg_flip.mpr hseg
  rw [hreverse] at hflip
  obtain ⟨h', hinsert, hseg', hframe⟩ := hflip.insertAfter
    (hreverse ▸ List.nodup_reverse.mpr hnodup) hx
    (hreverse ▸ fun hmem => hnew (List.mem_reverse.mp hmem))
  have hreverse' : (as ++ x :: r :: bs).reverse = bs.reverse ++ r :: x :: as.reverse := by simp
  exact ⟨h', hinsert, seg_flip.mp (hreverse' ▸ hseg'),
    fun t htx ht => hframe t htx (hreverse ▸ fun hmem => ht (List.mem_reverse.mp hmem))⟩

end Insert

/-! ### Taking a record out -/

section Detach

variable [DecidableEq ρ] {r : ρ}

variable (F) in
/-- Makes the neighbours of the record at `r` skip it. -/
def detach (h : Heap ρ α) (r : ρ) : Option (Heap ρ α) := do
  let a ← h r
  let h ← h.writeIf (F.next a) (F.setPrevious · (F.previous a))
  let a ← h r
  h.writeIf (F.previous a) (F.setNext · (F.next a))

theorem SameData.detach (hdetach : F.detach h r = some h') : F.SameData h h' := by
  simp only [LinkFields.detach, Option.bind_eq_bind, Option.bind_eq_some_iff] at hdetach
  obtain ⟨a, _, h₁, hfirst, a', _, hsecond⟩ := hdetach
  exact (SameData.writeIf (fun _ => F.data_setPrevious _ _) hfirst).trans
    (SameData.writeIf (fun _ => F.data_setNext _ _) hsecond)

/-- The steps of `detach`, when the record is not its own neighbour. -/
theorem detach_of_writes {h₁ : Heap ρ α} {a : α} (ha : h r = some a) (hself : F.next a ≠ some r)
    (hfirst : h.writeIf (F.next a) (F.setPrevious · (F.previous a)) = some h₁)
    (hsecond : h₁.writeIf (F.previous a) (F.setNext · (F.next a)) = some h') :
    F.detach h r = some h' := by
  have ha₁ : h₁ r = some a := (Heap.writeIf_of_ne hfirst hself).trans ha
  simp [detach, ha, hfirst, ha₁, hsecond]

theorem Seg.detach (hseg : F.Seg h none (as ++ r :: bs) none) (hnodup : (as ++ r :: bs).Nodup) :
    ∃ h', F.detach h r = some h' ∧ F.Seg h' none (as ++ bs) none ∧
      ∀ t, t ∉ as ++ bs → h' t = h t := by
  obtain ⟨hfront, ⟨a, ha, hprevious, hnext⟩, hback⟩ := seg_append.mp hseg
  rw [Option.or_none] at hprevious hnext
  obtain ⟨hr, hrest⟩ := List.nodup_cons.mp (List.nodup_middle.mp hnodup)
  have hdisjoint : as.Disjoint bs := List.disjoint_of_nodup_append hrest
  obtain ⟨h₁, hfirst, hback₁⟩ := hback.writeIf_head hrest.of_append_right as.getLast?
  have hfront₁ : F.Seg h₁ none as (some r) := by
    refine Seg.congr_heap hfront fun t ht => Heap.writeIf_of_ne hfirst fun heq => ?_
    exact hdisjoint ht (List.mem_of_mem_head? heq)
  obtain ⟨h₂, hsecond, hfront₂⟩ := hfront₁.writeIf_last hrest.of_append_left bs.head?
  have hback₂ : F.Seg h₂ as.getLast? bs none := by
    refine hback₁.congr_heap fun t ht => Heap.writeIf_of_ne hsecond fun heq => ?_
    exact hdisjoint (List.mem_of_mem_getLast? heq) ht
  refine ⟨h₂, detach_of_writes ha (fun heq => ?_) (by rwa [hnext, hprevious])
    (by rwa [hnext, hprevious]), ?_, fun t ht => ?_⟩
  · rw [hnext] at heq
    exact hr (List.mem_append_right as (List.mem_of_mem_head? heq))
  · rw [seg_append, Option.or_none, Option.or_none]
    exact ⟨hfront₂, hback₂⟩
  · rw [Heap.writeIf_of_ne hsecond fun heq =>
        ht (List.mem_append_left bs (List.mem_of_mem_getLast? heq)),
      Heap.writeIf_of_ne hfirst fun heq =>
        ht (List.mem_append_right as (List.mem_of_mem_head? heq))]

end Detach

/-! ### Rings -/

/-- A ring may be read from any of its records. -/
theorem Ring.rotate (hring : F.Ring h (as ++ bs)) : F.Ring h (bs ++ as) := by
  rw [Ring, seg_append, List.head?_append, List.getLast?_append] at hring ⊢
  obtain ⟨hfront, hback⟩ := hring
  constructor
  · convert hback using 1
    · cases as.getLast? <;> cases bs.getLast? <;> rfl
    · cases as.head? <;> cases bs.head? <;> rfl
  · convert hfront using 1
    · cases as.getLast? <;> cases bs.getLast? <;> rfl
    · cases as.head? <;> cases bs.head? <;> rfl

theorem Ring.next_ne_none {a : α} (hring : F.Ring h rs) (hr : r ∈ rs) (ha : h r = some a) :
    F.next a ≠ none := by
  obtain ⟨as, bs, rfl⟩ := List.append_of_mem hr
  obtain ⟨⟨a', ha', _, hnext⟩, _⟩ := hring.rotate
  obtain rfl := Option.some.inj (ha.symm.trans ha')
  rw [hnext]
  cases bs ++ as <;> simp

section RingWrites

variable [DecidableEq ρ] {x : ρ} {a : α}

/-- A ring closes over the record it is read from, unless that record is alone. -/
theorem Ring.detach_head (hring : F.Ring h (r :: rs)) (hnodup : (r :: rs).Nodup) (hrest : rs ≠ []) :
    ∃ h', F.detach h r = some h' ∧ F.Ring h' rs ∧ ∀ t, t ∉ rs → h' t = h t := by
  obtain ⟨hr, hnodup'⟩ := List.nodup_cons.mp hnodup
  obtain ⟨⟨a, ha, hprevious, hnext⟩, hseg⟩ := hring
  have hlast : (r :: rs).getLast? = rs.getLast? := by
    rw [List.getLast?_cons]
    cases hrs : rs.getLast? with
    | none => exact absurd (List.getLast?_eq_none_iff.mp hrs) hrest
    | some l => rfl
  have hhead : rs.head?.or (r :: rs).head? = rs.head? := by
    cases hrs : rs.head? with
    | none => exact absurd (List.head?_eq_none_iff.mp hrs) hrest
    | some l => rfl
  rw [hlast] at hprevious
  rw [hhead] at hnext
  obtain ⟨h₁, hfirst, hseg₁⟩ := hseg.writeIf_head hnodup' rs.getLast?
  obtain ⟨h₂, hsecond, hseg₂⟩ := hseg₁.writeIf_last hnodup' rs.head?
  refine ⟨h₂, detach_of_writes ha (fun heq => ?_) (by rwa [hnext, hprevious])
    (by rwa [hnext, hprevious]), hseg₂, fun t ht => ?_⟩
  · rw [hnext] at heq
    exact hr (List.mem_of_mem_head? heq)
  · rw [Heap.writeIf_of_ne hsecond fun heq => ht (List.mem_of_mem_getLast? heq),
      Heap.writeIf_of_ne hfirst fun heq => ht (List.mem_of_mem_head? heq)]

theorem Ring.detach (hring : F.Ring h (as ++ r :: bs)) (hnodup : (as ++ r :: bs).Nodup)
    (hrest : as ++ bs ≠ []) :
    ∃ h', F.detach h r = some h' ∧ F.Ring h' (as ++ bs) ∧ ∀ t, t ∉ as ++ bs → h' t = h t := by
  have hcomm : (r :: bs ++ as).Perm (as ++ r :: bs) := List.perm_append_comm
  obtain ⟨h', hdetach, hring', hframe⟩ := Ring.detach_head hring.rotate
    (hcomm.nodup_iff.mpr hnodup) (fun heq => hrest (by simp_all))
  exact ⟨h', hdetach, hring'.rotate, fun t ht => hframe t fun hmem =>
    ht (List.perm_append_comm.mem_iff.mp hmem)⟩

variable (F) in
/-- Links the record at `x` into a ring before its head. -/
def insertHead (h : Heap ρ α) (head x : ρ) : Option (Heap ρ α) := do
  let a ← h head
  let h ← h.write x fun b => F.setPrevious (F.setNext b (some head)) (F.previous a)
  let a ← h head
  let last ← F.previous a
  let h ← h.write last (F.setNext · (some x))
  h.write head (F.setPrevious · (some x))

theorem SameData.insertHead {head : ρ} (hinsert : F.insertHead h head x = some h') :
    F.SameData h h' := by
  simp only [LinkFields.insertHead, Option.bind_eq_bind, Option.bind_eq_some_iff] at hinsert
  obtain ⟨a, _, h₁, hfirst, a', _, last, _, h₂, hsecond, hthird⟩ := hinsert
  exact ((SameData.write (fun _ => by simp) hfirst).trans
    (SameData.write (fun _ => by simp) hsecond)).trans (SameData.write (fun _ => by simp) hthird)

/-- A ring takes in a new record, which becomes the one it is read from. -/
theorem Ring.insertHead (hring : F.Ring h (r :: rs)) (hnodup : (r :: rs).Nodup) (hx : h x = some a)
    (hnew : x ∉ r :: rs) :
    ∃ h', F.insertHead h r x = some h' ∧ F.Ring h' (x :: r :: rs) ∧
      ∀ t, t ∉ x :: r :: rs → h' t = h t := by
  have hring' : F.Seg h (r :: rs).getLast? (r :: rs) (some r) := hring
  obtain ⟨⟨b, hb, hprevious, _⟩, _⟩ := hring
  have hfirst := Heap.write_of_eq
    (f := fun b' => F.setPrevious (F.setNext b' (some r)) (F.previous b)) hx
  have hold : ∀ t ∈ r :: rs, Function.update h x
      (some (F.setPrevious (F.setNext a (some r)) (F.previous b))) t = h t := by
    intro t ht
    refine Function.update_of_ne ?_ _ _
    rintro rfl
    exact hnew ht
  have hring₁ := hring'.congr_heap hold
  obtain ⟨h₂, hsecond, hring₂⟩ := hring₁.writeIf_last hnodup (some x)
  obtain ⟨h₃, hthird, hring₃⟩ := hring₂.writeIf_head hnodup (some x)
  rw [← hprevious] at hsecond
  have hx₃ : h₃ x = some (F.setPrevious (F.setNext a (some r)) (F.previous b)) := by
    rw [Heap.writeIf_of_ne hthird fun heq => hnew (List.mem_of_mem_head? heq),
      Heap.writeIf_of_ne hsecond fun heq => hnew (List.mem_of_mem_getLast? (hprevious ▸ heq)),
      Function.update_self]
  have hlast : (x :: r :: rs).getLast? = F.previous b := by
    rw [hprevious, List.getLast?_cons_cons]
  refine ⟨h₃, ?_, ⟨⟨_, hx₃, by simpa using hlast.symm, by simp⟩, hring₃⟩, fun t ht => ?_⟩
  · obtain ⟨last, hlast⟩ : ∃ last, F.previous b = some last := by
      rw [hprevious]
      exact ⟨_, List.getLast?_cons⟩
    have hb₁ := (hold r List.mem_cons_self).trans hb
    rw [hlast] at hfirst hb₁ hsecond
    simp only [LinkFields.insertHead, Option.bind_eq_bind, hb, Option.bind_some, hlast, hfirst, hb₁]
    rw [Heap.writeIf_some] at hsecond
    rw [hsecond]
    exact hthird
  · obtain ⟨htx, ht⟩ := not_or.mp (List.mem_cons.not.mp ht)
    rw [Heap.writeIf_of_ne hthird fun heq => ht (List.mem_of_mem_head? heq),
      Heap.writeIf_of_ne hsecond fun heq => ht (List.mem_of_mem_getLast? (hprevious ▸ heq)),
      Function.update_of_ne htx]

end RingWrites

end LinkFields
