import EtherApe.Lib.SortedTree

/-!
# Records grouped by key

A list that has one record for every key it was given an entry for. An entry goes to the first record of
its key, and where there is none a new record is put in front. Whatever order the list is brought into
between two entries, each record is what the entries of its key make of a new one.
-/

/-- Records of type `ρ` that are made from entries of type `ε`. -/
structure Grouping (κ ρ ε : Type*) where
  key : ρ → κ
  entryKey : ε → κ
  new : κ → ρ
  apply : ρ → ε → ρ
  key_new : ∀ k, key (new k) = k
  key_apply : ∀ r e, key (apply r e) = key r

namespace Grouping

variable {κ ρ ε : Type*} (g : Grouping κ ρ ε) (cmp : κ → κ → Int)

/-- The first record of the key takes the entry. -/
def change (e : ε) : List ρ → List ρ
  | [] => []
  | r :: rs => if cmp (g.key r) (g.entryKey e) = 0 then g.apply r e :: rs else r :: change e rs

/-- An entry goes to the record of its key, which is put in front when it is missing. -/
def enter (rs : List ρ) (e : ε) : List ρ :=
  if rs.any fun r => cmp (g.key r) (g.entryKey e) = 0 then g.change cmp e rs
  else g.apply (g.new (g.entryKey e)) e :: rs

/-- The entries of a key. -/
def entriesOf (k : κ) (es : List ε) : List ε := es.filter fun e => cmp k (g.entryKey e) = 0

/-- What the entries of a key make of a new record. -/
def recordOf (k : κ) (es : List ε) : ρ := (g.entriesOf cmp k es).foldl g.apply (g.new k)

/-- The records are those of the entries, one for each key. -/
structure Collects (rs : List ρ) (es : List ε) : Prop where
  distinct : rs.Pairwise fun a b => cmp (g.key a) (g.key b) ≠ 0
  complete : ∀ e ∈ es, ∃ r ∈ rs, cmp (g.key r) (g.entryKey e) = 0
  occurs : ∀ r ∈ rs, g.entriesOf cmp (g.key r) es ≠ []
  value : ∀ r ∈ rs, r = g.recordOf cmp (g.key r) es

variable {g cmp} {rs : List ρ} {es : List ε}

theorem collects_nil : g.Collects cmp [] [] where
  distinct := List.Pairwise.nil
  complete _ he := absurd he List.not_mem_nil
  occurs _ hr := absurd hr List.not_mem_nil
  value _ hr := absurd hr List.not_mem_nil

/-- The entries say how the records are, not in which order. -/
theorem Collects.perm [ThreeWay cmp] {qs : List ρ} (h : g.Collects cmp rs es) (hperm : rs.Perm qs) :
    g.Collects cmp qs es where
  distinct := hperm.pairwise h.distinct fun hab hba => hab (ThreeWay.eq_symm hba)
  complete e he := by
    obtain ⟨r, hr, hkey⟩ := h.complete e he
    exact ⟨r, hperm.mem_iff.mp hr, hkey⟩
  occurs r hr := h.occurs r (hperm.mem_iff.mpr hr)
  value r hr := h.value r (hperm.mem_iff.mpr hr)

theorem entriesOf_append (k : κ) (es : List ε) (e : ε) :
    g.entriesOf cmp k (es ++ [e]) =
      if cmp k (g.entryKey e) = 0 then g.entriesOf cmp k es ++ [e] else g.entriesOf cmp k es := by
  rw [entriesOf, List.filter_append]
  split
  next h => rw [List.filter_cons_of_pos (by simpa using h), List.filter_nil, entriesOf]
  next h => rw [List.filter_cons_of_neg (by simpa using h), List.filter_nil, List.append_nil, entriesOf]

theorem recordOf_append_of_eq {k : κ} {e : ε} (h : cmp k (g.entryKey e) = 0) (es : List ε) :
    g.recordOf cmp k (es ++ [e]) = g.apply (g.recordOf cmp k es) e := by
  rw [recordOf, entriesOf_append, if_pos h, List.foldl_append, List.foldl_cons, List.foldl_nil, recordOf]

theorem recordOf_append_of_ne {k : κ} {e : ε} (h : cmp k (g.entryKey e) ≠ 0) (es : List ε) :
    g.recordOf cmp k (es ++ [e]) = g.recordOf cmp k es := by
  rw [recordOf, entriesOf_append, if_neg h, recordOf]

theorem change_eq {e : ε} (h : rs.any fun r => cmp (g.key r) (g.entryKey e) = 0) :
    ∃ before r after, rs = before ++ r :: after ∧ cmp (g.key r) (g.entryKey e) = 0 ∧
      g.change cmp e rs = before ++ g.apply r e :: after := by
  induction rs with
  | nil => simp at h
  | cons r rs ih =>
      by_cases hr : cmp (g.key r) (g.entryKey e) = 0
      · exact ⟨[], r, rs, rfl, hr, if_pos hr⟩
      · obtain ⟨before, r', after, rfl, hkey, hchange⟩ := ih (by simpa [hr] using h)
        refine ⟨r :: before, r', after, rfl, hkey, ?_⟩
        rw [change, if_neg hr, hchange]
        rfl

section Enter

variable {e : ε}

theorem Collects.keeps (h : g.Collects cmp rs es) {r : ρ} (hr : r ∈ rs)
    (hkey : cmp (g.key r) (g.entryKey e) ≠ 0) :
    g.entriesOf cmp (g.key r) (es ++ [e]) ≠ [] ∧ r = g.recordOf cmp (g.key r) (es ++ [e]) := by
  rw [entriesOf_append, if_neg hkey, recordOf_append_of_ne hkey]
  exact ⟨h.occurs r hr, h.value r hr⟩

theorem entriesOf_append_ne_nil {k : κ} (h : cmp k (g.entryKey e) = 0) (es : List ε) :
    g.entriesOf cmp k (es ++ [e]) ≠ [] := by
  rw [entriesOf_append, if_pos h]
  exact List.append_ne_nil_of_right_ne_nil _ (List.cons_ne_nil e [])

variable [ThreeWay cmp]

theorem Collects.enter_of_any (h : g.Collects cmp rs es)
    (hany : rs.any fun r => cmp (g.key r) (g.entryKey e) = 0) :
    g.Collects cmp (g.change cmp e rs) (es ++ [e]) := by
  obtain ⟨before, r, after, rfl, hkey, hchange⟩ := change_eq hany
  have hdistinct := h.distinct
  rw [List.pairwise_append, List.pairwise_cons] at hdistinct
  obtain ⟨hbefore, ⟨hhead, hafter⟩, hcross⟩ := hdistinct
  have hmem : r ∈ before ++ r :: after := List.mem_append_right _ List.mem_cons_self
  have hother : ∀ q ∈ before ++ r :: after, q ∉ before → q ∉ after → q = r := by
    intro q hq hb ha
    rcases List.mem_append.mp hq with hq | hq
    · exact absurd hq hb
    · exact (List.mem_cons.mp hq).resolve_right ha
  have hne : ∀ q, q ∈ before ∨ q ∈ after → cmp (g.key q) (g.entryKey e) ≠ 0 := by
    intro q hq hqe
    rcases hq with hq | hq
    · exact hcross q hq r List.mem_cons_self (ThreeWay.eq_trans hqe (ThreeWay.eq_symm hkey))
    · exact hhead q hq (ThreeWay.eq_trans hkey (ThreeWay.eq_symm hqe))
  have hin : ∀ q, q ∈ before ∨ q ∈ after → q ∈ before ++ r :: after := by
    intro q hq
    rcases hq with hq | hq
    · exact List.mem_append_left _ hq
    · exact List.mem_append_right _ (List.mem_cons_of_mem r hq)
  have hcases : ∀ q, q ∈ before ++ g.apply r e :: after →
      (q ∈ before ∨ q ∈ after) ∨ q = g.apply r e := by
    intro q hq
    rcases List.mem_append.mp hq with hq | hq
    · exact Or.inl (Or.inl hq)
    · rcases List.mem_cons.mp hq with rfl | hq
      · exact Or.inr rfl
      · exact Or.inl (Or.inr hq)
  rw [hchange]
  refine ⟨?_, ?_, ?_, ?_⟩
  · rw [List.pairwise_append, List.pairwise_cons]
    refine ⟨hbefore, ⟨fun q hq => ?_, hafter⟩, fun q hq q' hq' => ?_⟩
    · rw [g.key_apply]
      exact hhead q hq
    · rcases List.mem_cons.mp hq' with rfl | hq'
      · rw [g.key_apply]
        exact hcross q hq r List.mem_cons_self
      · exact hcross q hq q' (List.mem_cons_of_mem r hq')
  · intro d hd
    rcases List.mem_append.mp hd with hd | hd
    · obtain ⟨q, hq, hqd⟩ := h.complete d hd
      by_cases hold : q ∈ before ∨ q ∈ after
      · refine ⟨q, ?_, hqd⟩
        rcases hold with hold | hold
        · exact List.mem_append_left _ hold
        · exact List.mem_append_right _ (List.mem_cons_of_mem _ hold)
      · obtain ⟨hb, ha⟩ := not_or.mp hold
        obtain rfl := hother q hq hb ha
        exact ⟨g.apply q e, List.mem_append_right _ List.mem_cons_self, by rwa [g.key_apply]⟩
    · obtain rfl := List.mem_singleton.mp hd
      exact ⟨g.apply r d, List.mem_append_right _ List.mem_cons_self, by rwa [g.key_apply]⟩
  · intro q hq
    rcases hcases q hq with hq | rfl
    · exact (h.keeps (hin q hq) (hne q hq)).1
    · rw [g.key_apply]
      exact entriesOf_append_ne_nil hkey es
  · intro q hq
    rcases hcases q hq with hq | rfl
    · exact (h.keeps (hin q hq) (hne q hq)).2
    · rw [g.key_apply, recordOf_append_of_eq hkey, ← h.value r hmem]

theorem Collects.enter_of_not_any (h : g.Collects cmp rs es)
    (hany : ¬rs.any fun r => cmp (g.key r) (g.entryKey e) = 0) :
    g.Collects cmp (g.apply (g.new (g.entryKey e)) e :: rs) (es ++ [e]) := by
  have hne : ∀ r ∈ rs, cmp (g.key r) (g.entryKey e) ≠ 0 := by simpa using hany
  have hkey : g.key (g.apply (g.new (g.entryKey e)) e) = g.entryKey e :=
    (g.key_apply _ e).trans (g.key_new _)
  have hnone : g.entriesOf cmp (g.entryKey e) es = [] := by
    rw [entriesOf, List.filter_eq_nil_iff]
    intro d hd hde
    obtain ⟨r, hr, hrd⟩ := h.complete d hd
    exact hne r hr (ThreeWay.eq_trans hrd (ThreeWay.eq_symm (by simpa using hde)))
  refine ⟨?_, ?_, ?_, ?_⟩
  · refine List.Pairwise.cons (fun r hr hcmp => ?_) h.distinct
    rw [hkey] at hcmp
    exact hne r hr (ThreeWay.eq_symm hcmp)
  · intro d hd
    rcases List.mem_append.mp hd with hd | hd
    · obtain ⟨r, hr, hrd⟩ := h.complete d hd
      exact ⟨r, List.mem_cons_of_mem _ hr, hrd⟩
    · obtain rfl := List.mem_singleton.mp hd
      refine ⟨_, List.mem_cons_self, ?_⟩
      rw [hkey]
      exact ThreeWay.refl _
  · intro r hr
    rcases List.mem_cons.mp hr with rfl | hr
    · rw [hkey]
      exact entriesOf_append_ne_nil (ThreeWay.refl _) es
    · exact (h.keeps hr (hne r hr)).1
  · intro r hr
    rcases List.mem_cons.mp hr with rfl | hr
    · rw [hkey, recordOf_append_of_eq (ThreeWay.refl _), recordOf, hnone, List.foldl_nil]
    · exact (h.keeps hr (hne r hr)).2

/-- **Grouping.** The records of some entries, and one more entry, are the records of them all. -/
theorem Collects.enter (h : g.Collects cmp rs es) (e : ε) :
    g.Collects cmp (g.enter cmp rs e) (es ++ [e]) := by
  rw [Grouping.enter]
  split
  next hany => exact h.enter_of_any hany
  next hany => exact h.enter_of_not_any hany

theorem Collects.enterAll (h : g.Collects cmp rs es) (new : List ε) :
    g.Collects cmp (new.foldl (g.enter cmp) rs) (es ++ new) := by
  induction new generalizing rs es with
  | nil => rwa [List.append_nil]
  | cons e new ih =>
      have hall := ih (h.enter e)
      rwa [List.append_assoc, List.singleton_append] at hall

end Enter

end Grouping
