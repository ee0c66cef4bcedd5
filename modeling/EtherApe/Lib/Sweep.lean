import EtherApe.Lib.SortedTree
import Mathlib.Algebra.BigOperators.Group.Multiset.Basic

/-!
# Sweeping a tree

A tree must keep its shape while it is traversed, so the entries that a traversal finds obsolete are
queued, and removed and destroyed when it is over. What a tree holds is gathered here as a multiset,
so that the rules below say what a sweep does to the holdings and leave the order out.
-/

namespace SortedTree

variable {κ ν σ β : Type*} {cmp : κ → κ → Int}

/-- What a visit leaves: an outside state, the visited value, and whether it is to be removed. -/
structure Visited (σ ν : Type*) where
  state : σ
  value : ν
  obsolete : Bool

/-- A visit that queues the keys of obsolete entries, the last one in front. -/
def queueObsolete (visit : σ → κ → ν → Visited σ ν) (s : σ × List κ) (k : κ) (v : ν) :
    (σ × List κ) × ν :=
  (((visit s.1 k v).state, if (visit s.1 k v).obsolete then k :: s.2 else s.2),
    (visit s.1 k v).value)

/-- Removes the entry under `k` and destroys its value. -/
def removeWith (destroy : σ → ν → σ) (s : σ × SortedTree cmp ν) (k : κ) : σ × SortedTree cmp ν :=
  match s.2.lookup k with
  | some v => (destroy s.1 v, s.2.remove k)
  | none => s

/-- Visits every entry, then removes those that were queued. -/
def sweep (visit : σ → κ → ν → Visited σ ν) (destroy : σ → ν → σ) (s : σ) (t : SortedTree cmp ν) :
    σ × SortedTree cmp ν :=
  let (queued, t) := t.traverse (queueObsolete visit) (s, [])
  queued.2.foldl (removeWith destroy) (queued.1, t)

def destroyAll (destroy : σ → ν → σ) (s : σ) (t : SortedTree cmp ν) : σ := t.values.foldl destroy s

def gather (f : ν → Multiset β) (t : SortedTree cmp ν) : Multiset β := (t.values.map f).sum

/-! ### Holdings -/

@[simp] theorem gather_empty (f : ν → Multiset β) : (empty : SortedTree cmp ν).gather f = 0 := rfl

theorem gather_of_perm {f : ν → Multiset β} {t : SortedTree cmp ν} {es : List (κ × ν)}
    (h : t.entries.Perm es) : t.gather f = (es.map fun e => f e.2).sum := by
  rw [gather, values, List.map_map]
  exact (h.map _).sum_eq

theorem gather_coe (f : ν → List β) (t : SortedTree cmp ν) :
    t.gather (fun v => (f v : Multiset β)) = ↑(t.values.flatMap f) := by
  rw [gather]
  induction t.values with
  | nil => rfl
  | cons v vs ih => rw [List.map_cons, List.sum_cons, ih, Multiset.coe_add, List.flatMap_cons]

section Ordered

variable [ThreeWay cmp]

theorem entries_perm_of_lookup {t : SortedTree cmp ν} {k : κ} {v : ν} (h : t.lookup k = some v) :
    ∃ k', cmp k k' = 0 ∧ t.entries.Perm ((k', v) :: (t.remove k).entries) := by
  obtain ⟨k', before, after, hk, hsplit, hother⟩ := split_of_lookup h
  refine ⟨k', hk, ?_⟩
  have hkeep : (t.remove k).entries = before ++ after := by
    change t.entries.filter (fun e => ¬cmp k e.1 = 0) = before ++ after
    rw [hsplit, List.filter_append, List.filter_cons_of_neg (by simpa using hk),
      ← List.filter_append]
    exact List.filter_eq_self.mpr fun e he => by simpa using hother e he
  rw [hkeep, hsplit]
  exact List.perm_middle

theorem gather_remove {f : ν → Multiset β} {t : SortedTree cmp ν} {k : κ} {v : ν}
    (h : t.lookup k = some v) : t.gather f = f v + (t.remove k).gather f := by
  obtain ⟨k', _, hperm⟩ := entries_perm_of_lookup h
  rw [gather_of_perm hperm, List.map_cons, List.sum_cons, ← gather_of_perm (List.Perm.refl _)]

theorem gather_upsert (f : ν → Multiset β) (t : SortedTree cmp ν) (k : κ) (new : ν) (g : ν → ν) :
    ∃ rest, (t.upsert k new g).gather f = f (g ((t.lookup k).getD new)) + rest ∧
      t.gather f = ((t.lookup k).map f).getD 0 + rest := by
  obtain ⟨k', v, es, _, hafter, hbefore⟩ := t.upsert_perm k new g
  refine ⟨(es.map fun e => f e.2).sum, ?_, ?_⟩
  · rw [gather_of_perm hafter, List.map_cons, List.sum_cons]
    rcases hbefore with ⟨hfound, _⟩ | ⟨hnone, rfl, _, _⟩
    · rw [hfound, Option.getD_some]
    · rw [hnone, Option.getD_none]
  · rcases hbefore with ⟨hfound, hperm⟩ | ⟨hnone, _, _, hperm⟩
    · rw [gather_of_perm hperm, hfound, List.map_cons, List.sum_cons]
      rfl
    · rw [gather_of_perm hperm, hnone]
      exact (zero_add _).symm

end Ordered

/-! ### What a sweep keeps

The rule for a predicate over the outside state and all that is held: if a visit and a destruction
keep it locally, whatever else is held, then the sweep keeps it. -/

section Rule

variable {visit : σ → κ → ν → Visited σ ν} {destroy : σ → ν → σ} {f : ν → Multiset β}
  {P : σ → Multiset β → Prop}

theorem traverse_keeps
    (hvisit : ∀ s k v rest, P s (f v + rest) →
      P (visit s k v).state (f (visit s k v).value + rest))
    {s : σ} {queue : List κ} {t : SortedTree cmp ν} {rest : Multiset β} (h : P s (t.gather f + rest)) :
    P (t.traverse (queueObsolete visit) (s, queue)).1.1
      ((t.traverse (queueObsolete visit) (s, queue)).2.gather f + rest) := by
  have hentries : ∀ (es : List (κ × ν)) (s : σ × List κ) (rest : Multiset β),
      P s.1 ((es.map fun e => f e.2).sum + rest) →
      P (traverseEntries (queueObsolete visit) s es).1.1
        (((traverseEntries (queueObsolete visit) s es).2.map fun e => f e.2).sum + rest) := by
    intro es
    induction es with
    | nil => exact fun _ _ hs => hs
    | cons e es ih =>
        intro s rest hs
        rw [List.map_cons, List.sum_cons, add_assoc] at hs
        have hstep := hvisit s.1 e.1 e.2 _ hs
        rw [add_left_comm] at hstep
        have htail := ih (queueObsolete visit s e.1 e.2).1 _ hstep
        rw [add_left_comm, ← add_assoc] at htail
        simpa [traverseEntries, queueObsolete] using htail
  rw [gather_of_perm (List.Perm.refl _)] at h ⊢
  exact hentries t.entries (s, queue) rest h

variable [ThreeWay cmp]

theorem removeWith_keeps (hdestroy : ∀ s v rest, P s (f v + rest) → P (destroy s v) rest)
    {s : σ × SortedTree cmp ν} {rest : Multiset β} (h : P s.1 (s.2.gather f + rest)) (k : κ) :
    P (removeWith destroy s k).1 ((removeWith destroy s k).2.gather f + rest) := by
  unfold removeWith
  split
  next v hfound =>
    rw [gather_remove hfound, add_assoc] at h
    exact hdestroy s.1 v _ h
  next => exact h

theorem sweep_keeps (visit : σ → κ → ν → Visited σ ν) (destroy : σ → ν → σ)
    (hvisit : ∀ s k v rest, P s (f v + rest) →
      P (visit s k v).state (f (visit s k v).value + rest))
    (hdestroy : ∀ s v rest, P s (f v + rest) → P (destroy s v) rest)
    {s : σ} {t : SortedTree cmp ν} {rest : Multiset β} (h : P s (t.gather f + rest)) :
    P (sweep visit destroy s t).1 ((sweep visit destroy s t).2.gather f + rest) := by
  have hfold : ∀ (keys : List κ) (s : σ × SortedTree cmp ν), P s.1 (s.2.gather f + rest) →
      P (keys.foldl (removeWith destroy) s).1
        ((keys.foldl (removeWith destroy) s).2.gather f + rest) := by
    intro keys
    induction keys with
    | nil => exact fun _ hs => hs
    | cons k keys ih => exact fun s hs => ih _ (removeWith_keeps hdestroy hs k)
  exact hfold _ _ (traverse_keeps hvisit h)

omit [ThreeWay cmp] in
theorem destroyAll_keeps (destroy : σ → ν → σ)
    (hdestroy : ∀ s v rest, P s (f v + rest) → P (destroy s v) rest)
    {s : σ} {t : SortedTree cmp ν} {rest : Multiset β} (h : P s (t.gather f + rest)) :
    P (destroyAll destroy s t) rest := by
  have hfold : ∀ (vs : List ν) (s : σ), P s ((vs.map f).sum + rest) → P (vs.foldl destroy s) rest := by
    intro vs
    induction vs with
    | nil => exact fun s hs => by simpa using hs
    | cons v vs ih =>
        intro s hs
        rw [List.map_cons, List.sum_cons, add_assoc] at hs
        exact ih _ (hdestroy s v _ hs)
  exact hfold t.values s h

omit [ThreeWay cmp] in
/-- What every visit of an entry and every destruction keep of the outside state, a sweep keeps. -/
theorem sweep_state_keeps (visit : σ → κ → ν → Visited σ ν) (destroy : σ → ν → σ) {Q : σ → Prop}
    {t : SortedTree cmp ν}
    (hvisit : ∀ s, ∀ e ∈ t.entries, Q s → Q (visit s e.1 e.2).state)
    (hdestroy : ∀ s v, Q s → Q (destroy s v)) {s : σ} (h : Q s) : Q (sweep visit destroy s t).1 := by
  have htraverse : ∀ (es : List (κ × ν)) (s : σ × List κ),
      (∀ s, ∀ e ∈ es, Q s → Q (visit s e.1 e.2).state) → Q s.1 →
      Q (traverseEntries (queueObsolete visit) s es).1.1 := by
    intro es
    induction es with
    | nil => exact fun _ _ hs => hs
    | cons e es ih =>
        intro s hes hs
        exact ih _ (fun s d hd => hes s d (List.mem_cons_of_mem _ hd)) (hes s.1 e List.mem_cons_self hs)
  have hremove : ∀ (keys : List κ) (s : σ × SortedTree cmp ν), Q s.1 →
      Q (keys.foldl (removeWith destroy) s).1 := by
    intro keys
    induction keys with
    | nil => exact fun _ hs => hs
    | cons k keys ih =>
        intro s hs
        refine ih _ ?_
        unfold removeWith
        split
        · exact hdestroy _ _ hs
        · exact hs
  exact hremove _ _ (htraverse t.entries (s, []) hvisit h)

end Rule

/-! ### Which entries a sweep leaves -/

section Entries

variable {visit : σ → κ → ν → Visited σ ν} {destroy : σ → ν → σ} {g : κ → ν → ν}
  {obsolete : κ → ν → Bool}

theorem traverse_queue (hobsolete : ∀ s k v, (visit s k v).obsolete = obsolete k v) (s : σ)
    (queue : List κ) (t : SortedTree cmp ν) (k : κ) :
    k ∈ (t.traverse (queueObsolete visit) (s, queue)).1.2 ↔
      k ∈ queue ∨ ∃ e ∈ t.entries, e.1 = k ∧ obsolete e.1 e.2 = true := by
  have hentries : ∀ (es : List (κ × ν)) (s : σ × List κ),
      k ∈ (traverseEntries (queueObsolete visit) s es).1.2 ↔
        k ∈ s.2 ∨ ∃ e ∈ es, e.1 = k ∧ obsolete e.1 e.2 = true := by
    intro es
    induction es with
    | nil => simp [traverseEntries]
    | cons e es ih =>
        intro s
        rw [List.exists_mem_cons_iff, ← or_assoc]
        simp only [traverseEntries, ih, queueObsolete, hobsolete]
        refine or_congr_left ?_
        split
        next hob =>
          rw [List.mem_cons, or_comm]
          exact or_congr_right ⟨fun hk => ⟨hk.symm, hob⟩, fun hk => hk.1.symm⟩
        next hob => exact (or_iff_left fun hk => hob hk.2).symm
  exact hentries t.entries (s, queue)

theorem foldl_removeWith_entries (keys : List κ) (s : σ × SortedTree cmp ν) (e : κ × ν) :
    e ∈ (keys.foldl (removeWith destroy) s).2.entries ↔
      e ∈ s.2.entries ∧ ∀ k ∈ keys, cmp k e.1 ≠ 0 := by
  induction keys generalizing s with
  | nil => simp
  | cons k keys ih =>
      rw [List.foldl_cons, ih, List.forall_mem_cons, ← and_assoc]
      refine and_congr_left fun _ => ?_
      unfold removeWith
      split
      next => exact mem_remove
      next hnone => exact ⟨fun he => ⟨he, lookup_eq_none_iff.mp hnone e he⟩, And.left⟩

variable [ThreeWay cmp]

/-- A sweep leaves the visited entries that are not obsolete. -/
theorem mem_sweep (g : κ → ν → ν) (obsolete : κ → ν → Bool)
    (hvalue : ∀ s k v, (visit s k v).value = g k v)
    (hobsolete : ∀ s k v, (visit s k v).obsolete = obsolete k v) {s : σ} {t : SortedTree cmp ν}
    {e : κ × ν} :
    e ∈ (sweep visit destroy s t).2.entries ↔
      ∃ v, (e.1, v) ∈ t.entries ∧ e.2 = g e.1 v ∧ obsolete e.1 v = false := by
  have hvisited : (t.traverse (queueObsolete visit) (s, [])).2.entries =
      t.entries.map fun e => (e.1, g e.1 e.2) :=
    traverse_entries (fun s k v => hvalue s.1 k v) _ t
  have hqueue : ∀ k, k ∈ (t.traverse (queueObsolete visit) (s, [])).1.2 ↔
      ∃ e ∈ t.entries, e.1 = k ∧ obsolete e.1 e.2 = true := by
    intro k
    simpa using traverse_queue hobsolete s [] t k
  rw [sweep, foldl_removeWith_entries, hvisited, List.mem_map]
  constructor
  · rintro ⟨⟨⟨k, v⟩, hmem, rfl⟩, hkept⟩
    refine ⟨v, hmem, rfl, ?_⟩
    by_contra hob
    exact hkept k ((hqueue k).mpr ⟨_, hmem, rfl, by simpa using hob⟩) (ThreeWay.refl k)
  · rintro ⟨v, hmem, hv, hkept⟩
    refine ⟨⟨_, hmem, Prod.ext rfl hv.symm⟩, fun k hk hcmp => ?_⟩
    obtain ⟨d, hd, rfl, hob⟩ := (hqueue k).mp hk
    rw [eq_of_mem_of_cmp hd hmem hcmp] at hob
    rw [hob] at hkept
    exact absurd hkept (by decide)

/-- A traversal that does not tell equal keys apart changes the value of each key. -/
theorem lookup_traverse_key {f : σ → κ → ν → σ × ν} (h : ∀ s k v, (f s k v).2 = g k v)
    (hsame : ∀ k k' v, cmp k k' = 0 → g k v = g k' v) (s : σ) (t : SortedTree cmp ν) (k : κ) :
    (t.traverse f s).2.lookup k = (t.lookup k).map (g k) := by
  ext w
  rw [Option.map_eq_some_iff, lookup_eq_some_iff, traverse_entries h s t]
  constructor
  · rintro ⟨k', hmem, hk⟩
    obtain ⟨⟨k'', v⟩, hv, heq⟩ := List.mem_map.mp hmem
    obtain ⟨rfl, rfl⟩ := Prod.mk.inj heq
    exact ⟨v, lookup_eq_some_iff.mpr ⟨_, hv, hk⟩, hsame _ _ v hk⟩
  · rintro ⟨v, hv, rfl⟩
    obtain ⟨k', hmem, hk⟩ := lookup_eq_some_iff.mp hv
    exact ⟨k', List.mem_map.mpr ⟨_, hmem, Prod.ext rfl (hsame _ _ v hk).symm⟩, hk⟩

/-- A sweep by visits that do not tell equal keys apart leaves a key its visited value, unless that is
obsolete. -/
theorem lookup_sweep {g : κ → ν → ν} {obsolete : κ → ν → Bool}
    (hvalue : ∀ s k v, (visit s k v).value = g k v)
    (hobsolete : ∀ s k v, (visit s k v).obsolete = obsolete k v)
    (hsame : ∀ k k' v, cmp k k' = 0 → g k v = g k' v ∧ obsolete k v = obsolete k' v) {s : σ}
    {t : SortedTree cmp ν} {k : κ} {w : ν} :
    (sweep visit destroy s t).2.lookup k = some w ↔
      ∃ v, t.lookup k = some v ∧ w = g k v ∧ obsolete k v = false := by
  rw [lookup_eq_some_iff]
  constructor
  · rintro ⟨k', hmem, hk⟩
    obtain ⟨v, hv, hw, hkept⟩ := (mem_sweep g obsolete hvalue hobsolete).mp hmem
    obtain ⟨hg, hob⟩ := hsame k k' v hk
    exact ⟨v, lookup_eq_some_iff.mpr ⟨k', hv, hk⟩, hw.trans hg.symm, hob.trans hkept⟩
  · rintro ⟨v, hv, hw, hkept⟩
    obtain ⟨k', hmem, hk⟩ := lookup_eq_some_iff.mp hv
    obtain ⟨hg, hob⟩ := hsame k k' v hk
    exact ⟨k', (mem_sweep g obsolete hvalue hobsolete).mpr
      ⟨v, hmem, hw.trans hg, hob.symm.trans hkept⟩, hk⟩

/-- What a predicate of the outside state says after a sweep, when no visit changes it and each
destruction adds a condition. -/
theorem sweep_state_iff (visit : σ → κ → ν → Visited σ ν) (destroy : σ → ν → σ) {Q : σ → Prop}
    {R : ν → Prop} (g : κ → ν → ν) (obsolete : κ → ν → Bool)
    (hvalue : ∀ s k v, (visit s k v).value = g k v)
    (hobsolete : ∀ s k v, (visit s k v).obsolete = obsolete k v)
    (hvisit : ∀ s k v, Q (visit s k v).state ↔ Q s)
    (hdestroy : ∀ s v, Q (destroy s v) ↔ Q s ∧ R v) {s : σ} {t : SortedTree cmp ν} :
    Q (sweep visit destroy s t).1 ↔
      Q s ∧ ∀ e ∈ t.entries, obsolete e.1 e.2 = true → R (g e.1 e.2) := by
  have hfold : ∀ (keys : List κ) (s : σ × SortedTree cmp ν),
      Q (keys.foldl (removeWith destroy) s).1 ↔
        Q s.1 ∧ ∀ e ∈ s.2.entries, (∃ k ∈ keys, cmp k e.1 = 0) → R e.2 := by
    intro keys
    induction keys with
    | nil => simp
    | cons k keys ih =>
        intro s
        rw [List.foldl_cons, ih]
        unfold removeWith
        split
        next v hfound =>
          obtain ⟨k', hmem, hcmp⟩ := exists_mem_of_lookup hfound
          rw [hdestroy, and_assoc]
          refine and_congr_right fun _ => ?_
          constructor
          · intro h e he hkey
            by_cases hsame : cmp k e.1 = 0
            · rw [eq_of_mem_of_cmp he hmem (ThreeWay.eq_trans (ThreeWay.eq_symm hsame) hcmp)]
              exact h.1
            · obtain ⟨k'', hk'', hcmp''⟩ := hkey
              refine h.2 e (mem_remove.mpr ⟨he, hsame⟩) ⟨k'', ?_, hcmp''⟩
              exact (List.mem_cons.mp hk'').resolve_left fun heq => hsame (heq ▸ hcmp'')
          · intro h
            refine ⟨h _ hmem ⟨k, List.mem_cons_self, hcmp⟩, fun e he hkey => ?_⟩
            obtain ⟨k'', hk'', hcmp''⟩ := hkey
            exact h e (mem_remove.mp he).1 ⟨k'', List.mem_cons_of_mem _ hk'', hcmp''⟩
        next hnone =>
          refine and_congr_right fun _ => forall₂_congr fun e he => ?_
          rw [List.exists_mem_cons_iff, or_iff_right (lookup_eq_none_iff.mp hnone e he)]
  have hvisited : (t.traverse (queueObsolete visit) (s, [])).2.entries =
      t.entries.map fun e => (e.1, g e.1 e.2) :=
    traverse_entries (fun s k v => hvalue s.1 k v) _ t
  have htraverse : ∀ (es : List (κ × ν)) (s : σ × List κ),
      Q (traverseEntries (queueObsolete visit) s es).1.1 ↔ Q s.1 := by
    intro es
    induction es with
    | nil => exact fun _ => Iff.rfl
    | cons e es ih => exact fun s => (ih _).trans (hvisit s.1 e.1 e.2)
  rw [sweep, hfold, hvisited]
  refine and_congr (htraverse t.entries (s, [])) ?_
  rw [List.forall_mem_map]
  refine forall₂_congr fun e he => imp_congr_left ?_
  constructor
  · intro hkey
    obtain ⟨k, hk, hcmp⟩ := hkey
    obtain ⟨d, hd, rfl, hob⟩ : ∃ d ∈ t.entries, d.1 = k ∧ obsolete d.1 d.2 = true := by
      simpa using (traverse_queue hobsolete s [] t k).mp hk
    rwa [eq_of_mem_of_cmp hd he hcmp] at hob
  · exact fun hob => ⟨e.1, (traverse_queue hobsolete s [] t e.1).mpr (Or.inr ⟨e, he, rfl, hob⟩),
      ThreeWay.refl e.1⟩

/-- When only values without holdings are obsolete, a sweep changes the holdings as its visits do. -/
theorem sweep_gather (destroy : σ → ν → σ) (g : κ → ν → ν) (obsolete : κ → ν → Bool)
    {f : ν → Multiset β} (hvalue : ∀ s k v, (visit s k v).value = g k v)
    (hobsolete : ∀ s k v, (visit s k v).obsolete = obsolete k v)
    (hempty : ∀ k v, obsolete k v = true → f (g k v) = 0) (s : σ) (t : SortedTree cmp ν) :
    (sweep visit destroy s t).2.gather f = (t.entries.map fun e => f (g e.1 e.2)).sum := by
  have hvisited : (t.traverse (queueObsolete visit) (s, [])).2.entries =
      t.entries.map fun e => (e.1, g e.1 e.2) :=
    traverse_entries (fun s k v => hvalue s.1 k v) _ t
  have hgather : (t.traverse (queueObsolete visit) (s, [])).2.gather f =
      (t.entries.map fun e => f (g e.1 e.2)).sum := by
    rw [gather_of_perm (List.Perm.refl _), hvisited, List.map_map]
    rfl
  have hqueued : ∀ k ∈ (t.traverse (queueObsolete visit) (s, [])).1.2,
      ∀ e ∈ (t.traverse (queueObsolete visit) (s, [])).2.entries, cmp k e.1 = 0 → f e.2 = 0 := by
    intro k hk e he hcmp
    obtain ⟨d, hd, rfl, hob⟩ : ∃ d ∈ t.entries, d.1 = k ∧ obsolete d.1 d.2 = true := by
      simpa using (traverse_queue hobsolete s [] t k).mp hk
    rw [hvisited] at he
    obtain ⟨d', hd', rfl⟩ := List.mem_map.mp he
    rw [← eq_of_mem_of_cmp hd hd' hcmp]
    exact hempty _ _ hob
  have hfold : ∀ (keys : List κ) (s : σ × SortedTree cmp ν),
      (∀ k ∈ keys, ∀ e ∈ s.2.entries, cmp k e.1 = 0 → f e.2 = 0) →
      (keys.foldl (removeWith destroy) s).2.gather f = s.2.gather f := by
    intro keys
    induction keys with
    | nil => exact fun _ _ => rfl
    | cons k keys ih =>
        intro s hs
        obtain ⟨hk, hkeys⟩ := List.forall_mem_cons.mp hs
        rw [List.foldl_cons, ih]
        · unfold removeWith
          split
          next v hfound =>
            obtain ⟨k', hmem, hcmp⟩ := exists_mem_of_lookup hfound
            rw [gather_remove hfound, hk _ hmem hcmp, zero_add]
          next => rfl
        · intro k' hk' e he
          refine hkeys k' hk' e ?_
          unfold removeWith at he
          split at he
          · exact (mem_remove.mp he).1
          · exact he
  rw [sweep, hfold _ _ hqueued, hgather]

end Entries

end SortedTree
