import Mathlib.Data.List.Perm.Basic
import Mathlib.Tactic.Linarith

/-!
# Trees ordered by a three-way comparison

A balanced search tree that is driven by a C-style comparison function is determined by its
in-order traversal, so a tree is kept here as that traversal together with the proof that it
ascends. Keys that compare to zero denote the same entry; they need not be equal.
-/

/-- A three-way comparison that is a total preorder read through its sign. -/
class ThreeWay {κ : Type*} (cmp : κ → κ → Int) : Prop where
  swap : ∀ a b, cmp b a = -cmp a b
  trans : ∀ a b c, cmp a b ≤ 0 → cmp b c ≤ 0 → cmp a c ≤ 0

namespace ThreeWay

variable {κ : Type*} {cmp : κ → κ → Int} [ThreeWay cmp]

theorem refl (a : κ) : cmp a a = 0 := by
  have h := @swap _ cmp _ a a
  omega

theorem eq_symm {a b : κ} (h : cmp a b = 0) : cmp b a = 0 := by
  rw [@swap _ cmp _ a b, h, neg_zero]

theorem eq_trans {a b c : κ} (hab : cmp a b = 0) (hbc : cmp b c = 0) : cmp a c = 0 := by
  have hle := @trans _ cmp _ a b c (by omega) (by omega)
  have hge := @trans _ cmp _ c b a (by rw [eq_symm hbc]) (by rw [eq_symm hab])
  rw [@swap _ cmp _ a c] at hge
  omega

theorem lt_of_lt_of_le {a b c : κ} (hab : cmp a b < 0) (hbc : cmp b c ≤ 0) : cmp a c < 0 := by
  have hle := @trans _ cmp _ a b c (by omega) hbc
  rcases lt_or_eq_of_le hle with hlt | heq
  · exact hlt
  · have hca : cmp c a = 0 := eq_symm heq
    have hba := @trans _ cmp _ b c a hbc (by omega)
    rw [@swap _ cmp _ a b] at hba
    omega

theorem lt_of_le_of_lt {a b c : κ} (hab : cmp a b ≤ 0) (hbc : cmp b c < 0) : cmp a c < 0 := by
  have hle := @trans _ cmp _ a b c hab (by omega)
  rcases lt_or_eq_of_le hle with hlt | heq
  · exact hlt
  · have hca : cmp c a = 0 := eq_symm heq
    have hcb := @trans _ cmp _ c a b (by omega) hab
    rw [@swap _ cmp _ b c] at hcb
    omega

theorem pos_of_lt {a b : κ} (h : cmp a b < 0) : 0 < cmp b a := by
  rw [@swap _ cmp _ a b]
  omega

theorem lt_of_pos {a b : κ} (h : 0 < cmp a b) : cmp b a < 0 := by
  rw [@swap _ cmp _ a b]
  omega

/-- The lexicographic product of two three-way comparisons. -/
instance lex {α β : Type*} {f : κ → α} {g : κ → β} {p : α → α → Int} {q : β → β → Int}
    [ThreeWay p] [ThreeWay q] :
    ThreeWay fun a b : κ => if p (f a) (f b) ≠ 0 then p (f a) (f b) else q (g a) (g b) where
  swap a b := by
    have hα := @swap _ p _ (f a) (f b)
    have hβ := @swap _ q _ (g a) (g b)
    split <;> split <;> omega
  trans a b c := by
    intro hab hbc
    by_cases h₁ : p (f a) (f b) = 0
    · by_cases h₂ : p (f b) (f c) = 0
      · rw [if_neg (by simpa using h₁)] at hab
        rw [if_neg (by simpa using h₂)] at hbc
        rw [if_neg (by simpa using eq_trans h₁ h₂)]
        exact trans _ _ _ hab hbc
      · rw [if_pos h₂] at hbc
        have hlt := lt_of_le_of_lt h₁.le (lt_of_le_of_ne hbc h₂)
        rw [if_pos (ne_of_lt hlt)]
        exact hlt.le
    · rw [if_pos h₁] at hab
      have hlt : p (f a) (f c) < 0 := by
        refine lt_of_lt_of_le (lt_of_le_of_ne hab h₁) ?_
        by_cases h₂ : p (f b) (f c) = 0
        · exact h₂.le
        · rw [if_pos h₂] at hbc
          exact hbc
      rw [if_pos (ne_of_lt hlt)]
      exact hlt.le

theorem reversed : ThreeWay fun a b => -cmp a b where
  swap a b := by rw [@swap _ cmp _ a b]
  trans a b c := by
    intro hab hbc
    have hca := @trans _ cmp _ c b a (by rw [@swap _ cmp _ b c]; exact hbc)
      (by rw [@swap _ cmp _ a b]; exact hab)
    rwa [@swap _ cmp _ a c] at hca

theorem comap {α : Type*} (f : α → κ) : ThreeWay fun a b => cmp (f a) (f b) where
  swap a b := @swap _ cmp _ (f a) (f b)
  trans a b c := @trans _ cmp _ (f a) (f b) (f c)

end ThreeWay

def compareValues {α : Type*} [LinearOrder α] (a b : α) : Int :=
  if a = b then 0 else if a < b then -1 else 1

theorem compareValues_nonpos_iff {α : Type*} [LinearOrder α] {a b : α} :
    compareValues a b ≤ 0 ↔ a ≤ b := by
  unfold compareValues
  rcases lt_trichotomy a b with hlt | heq | hgt
  · rw [if_neg (ne_of_lt hlt), if_pos hlt]
    exact iff_of_true (by decide) hlt.le
  · rw [if_pos heq]
    exact iff_of_true le_rfl heq.le
  · rw [if_neg (ne_of_gt hgt), if_neg (not_lt_of_gt hgt)]
    exact iff_of_false (by decide) (not_le_of_gt hgt)

instance {α : Type*} [LinearOrder α] : ThreeWay (@compareValues α _) where
  swap a b := by
    unfold compareValues
    rcases lt_trichotomy a b with hlt | heq | hgt
    · rw [if_neg (ne_of_gt hlt), if_neg (not_lt_of_gt hlt), if_neg (ne_of_lt hlt), if_pos hlt]
      rfl
    · rw [if_pos heq, if_pos heq.symm, neg_zero]
    · rw [if_neg (ne_of_lt hgt), if_pos hgt, if_neg (ne_of_gt hgt), if_neg (not_lt_of_gt hgt)]
  trans a b c := by
    intro hab hbc
    exact compareValues_nonpos_iff.mpr
      ((compareValues_nonpos_iff.mp hab).trans (compareValues_nonpos_iff.mp hbc))

theorem ThreeWay.ofKey {κ α : Type*} [LinearOrder α] (f : κ → α) :
    ThreeWay fun a b => compareValues (f a) (f b) := @comap α compareValues _ κ f

/-- A search tree over `cmp`, as its in-order traversal. -/
structure SortedTree {κ : Type*} (cmp : κ → κ → Int) (ν : Type*) where
  entries : List (κ × ν)
  sorted : entries.Pairwise fun a b => cmp a.1 b.1 < 0

namespace SortedTree

variable {κ ν σ : Type*} {cmp : κ → κ → Int}

def empty : SortedTree cmp ν := ⟨[], List.Pairwise.nil⟩

def values (t : SortedTree cmp ν) : List ν := t.entries.map Prod.snd

/-- The value stored under a key that compares equal to `k`. -/
def lookup (t : SortedTree cmp ν) (k : κ) : Option ν :=
  (t.entries.find? fun e => cmp k e.1 = 0).map Prod.snd

/-- Insertion into the traversal; an entry that compares equal keeps its key and takes the new
value. -/
def insertEntry (cmp : κ → κ → Int) (k : κ) (v : ν) : List (κ × ν) → List (κ × ν)
  | [] => [(k, v)]
  | e :: es =>
      if cmp k e.1 < 0 then (k, v) :: e :: es
      else if cmp k e.1 = 0 then (e.1, v) :: es
      else e :: insertEntry cmp k v es

/-- In-order visit of every entry; the visitor may change the value and an outside state. -/
def traverseEntries (f : σ → κ → ν → σ × ν) : σ → List (κ × ν) → σ × List (κ × ν)
  | s, [] => (s, [])
  | s, (k, v) :: es =>
      let (s, v) := f s k v
      let (s, es) := traverseEntries f s es
      (s, (k, v) :: es)

theorem traverseEntries_keys (f : σ → κ → ν → σ × ν) (s : σ) (es : List (κ × ν)) :
    (traverseEntries f s es).2.map Prod.fst = es.map Prod.fst := by
  induction es generalizing s with
  | nil => rfl
  | cons e es ih => simp [traverseEntries, ih]

private theorem sorted_iff_keys {es : List (κ × ν)} :
    (es.Pairwise fun a b => cmp a.1 b.1 < 0) ↔ (es.map Prod.fst).Pairwise fun a b => cmp a b < 0 := by
  rw [List.pairwise_map]

theorem mem_insertEntry {k : κ} {v : ν} {es : List (κ × ν)} {e : κ × ν}
    (he : e ∈ insertEntry cmp k v es) :
    e = (k, v) ∨ (∃ d ∈ es, cmp k d.1 = 0 ∧ e = (d.1, v)) ∨ e ∈ es := by
  induction es with
  | nil =>
      left
      simpa [insertEntry] using he
  | cons d es ih =>
      simp only [insertEntry] at he
      split at he
      · rcases List.mem_cons.mp he with rfl | he
        · exact Or.inl rfl
        · exact Or.inr (Or.inr he)
      · split at he
        next heq =>
          rcases List.mem_cons.mp he with rfl | he
          · exact Or.inr (Or.inl ⟨d, List.mem_cons_self, heq, rfl⟩)
          · exact Or.inr (Or.inr (List.mem_cons_of_mem _ he))
        next =>
          rcases List.mem_cons.mp he with rfl | he
          · exact Or.inr (Or.inr List.mem_cons_self)
          · rcases ih he with rfl | ⟨c, hc, heq, rfl⟩ | he
            · exact Or.inl rfl
            · exact Or.inr (Or.inl ⟨c, List.mem_cons_of_mem _ hc, heq, rfl⟩)
            · exact Or.inr (Or.inr (List.mem_cons_of_mem _ he))

theorem insertEntry_perm {k : κ} {v : ν} {es : List (κ × ν)} (h : ∀ e ∈ es, cmp k e.1 ≠ 0) :
    (insertEntry cmp k v es).Perm ((k, v) :: es) := by
  induction es with
  | nil => exact List.Perm.refl _
  | cons e es ih =>
      simp only [insertEntry]
      split
      · exact List.Perm.refl _
      · rw [if_neg (h e List.mem_cons_self)]
        have hes := ih fun d hd => h d (List.mem_cons_of_mem _ hd)
        exact (hes.cons e).trans (List.Perm.swap _ _ _)

section Ordered

variable [ThreeWay cmp]

theorem insertEntry_sorted {k : κ} {v : ν} {es : List (κ × ν)}
    (h : es.Pairwise fun a b => cmp a.1 b.1 < 0) :
    (insertEntry cmp k v es).Pairwise fun a b => cmp a.1 b.1 < 0 := by
  induction es with
  | nil => exact List.pairwise_singleton _ _
  | cons e es ih =>
      obtain ⟨hhead, htail⟩ := List.pairwise_cons.mp h
      simp only [insertEntry]
      split
      next hlt =>
        refine List.pairwise_cons.mpr ⟨fun d hd => ?_, h⟩
        rcases List.mem_cons.mp hd with rfl | hd
        · exact hlt
        · exact ThreeWay.lt_of_lt_of_le hlt (hhead d hd).le
      next hnlt =>
        split
        next => exact List.pairwise_cons.mpr ⟨hhead, htail⟩
        next hne =>
          have hgt : cmp e.1 k < 0 := by
            rw [@ThreeWay.swap _ cmp _ k e.1]
            omega
          refine List.pairwise_cons.mpr ⟨fun d hd => ?_, ih htail⟩
          rcases mem_insertEntry hd with rfl | ⟨c, hc, _, rfl⟩ | hd
          · exact hgt
          · exact hhead c hc
          · exact hhead d hd

/-- Inserts a value, or replaces the one stored under an equal key. -/
def insert (t : SortedTree cmp ν) (k : κ) (v : ν) : SortedTree cmp ν :=
  ⟨insertEntry cmp k v t.entries, insertEntry_sorted t.sorted⟩

end Ordered

def remove (t : SortedTree cmp ν) (k : κ) : SortedTree cmp ν :=
  ⟨t.entries.filter fun e => ¬cmp k e.1 = 0, t.sorted.filter _⟩

def traverse (f : σ → κ → ν → σ × ν) (s : σ) (t : SortedTree cmp ν) : σ × SortedTree cmp ν :=
  ((traverseEntries f s t.entries).1, ⟨(traverseEntries f s t.entries).2, by
    rw [sorted_iff_keys, traverseEntries_keys, ← sorted_iff_keys]
    exact t.sorted⟩)

/-- Changes the value stored under a key that compares equal to `k` in place. -/
def modify (t : SortedTree cmp ν) (k : κ) (f : ν → ν) : SortedTree cmp ν :=
  ⟨t.entries.map fun e => if cmp k e.1 = 0 then (e.1, f e.2) else e, by
    rw [List.pairwise_map]
    refine t.sorted.imp fun {a b} hab => ?_
    split <;> split <;> exact hab⟩

@[simp] theorem empty_entries : (empty : SortedTree cmp ν).entries = [] := rfl

@[simp] theorem empty_values : (empty : SortedTree cmp ν).values = [] := rfl

@[simp] theorem lookup_empty (k : κ) : (empty : SortedTree cmp ν).lookup k = none := rfl

theorem lookup_eq_none_iff {t : SortedTree cmp ν} {k : κ} :
    t.lookup k = none ↔ ∀ e ∈ t.entries, cmp k e.1 ≠ 0 := by
  simp [lookup]

theorem exists_mem_of_lookup {t : SortedTree cmp ν} {k : κ} {v : ν} (h : t.lookup k = some v) :
    ∃ k', (k', v) ∈ t.entries ∧ cmp k k' = 0 := by
  simp only [lookup, Option.map_eq_some_iff] at h
  obtain ⟨e, he, rfl⟩ := h
  exact ⟨e.1, List.mem_of_find?_eq_some he, by simpa using List.find?_some he⟩

theorem forall_lookup_getD {P : ν → Prop} {t : SortedTree cmp ν} {new : ν} (h : ∀ e ∈ t.entries, P e.2)
    (hnew : P new) (k : κ) : P ((t.lookup k).getD new) := by
  cases hfound : t.lookup k with
  | none => exact hnew
  | some v =>
      obtain ⟨k', hmem, _⟩ := exists_mem_of_lookup hfound
      exact h (k', v) hmem

theorem mem_remove {t : SortedTree cmp ν} {k : κ} {e : κ × ν} :
    e ∈ (t.remove k).entries ↔ e ∈ t.entries ∧ cmp k e.1 ≠ 0 := by
  simp [remove]

theorem insert_perm [ThreeWay cmp] {t : SortedTree cmp ν} {k : κ} {v : ν}
    (h : t.lookup k = none) : (t.insert k v).entries.Perm ((k, v) :: t.entries) :=
  insertEntry_perm (lookup_eq_none_iff.mp h)

theorem mem_insert [ThreeWay cmp] {t : SortedTree cmp ν} {k : κ} {v : ν}
    (h : t.lookup k = none) {e : κ × ν} :
    e ∈ (t.insert k v).entries ↔ e = (k, v) ∨ e ∈ t.entries := by
  rw [(insert_perm h).mem_iff, List.mem_cons]

section Ordered

variable [ThreeWay cmp]

private theorem eq_of_mem_of_sorted {es : List (κ × ν)}
    (hsorted : es.Pairwise fun a b => cmp a.1 b.1 < 0) {a b : κ × ν} (ha : a ∈ es) (hb : b ∈ es)
    (h : cmp a.1 b.1 = 0) : a = b := by
  induction es with
  | nil => exact absurd ha List.not_mem_nil
  | cons e es ih =>
      obtain ⟨hhead, htail⟩ := List.pairwise_cons.mp hsorted
      rcases List.mem_cons.mp ha with rfl | ha' <;> rcases List.mem_cons.mp hb with rfl | hb'
      · rfl
      · exact absurd h (ne_of_lt (hhead b hb'))
      · exact absurd (ThreeWay.eq_symm h) (ne_of_lt (hhead a ha'))
      · exact ih htail ha' hb'

/-- Two entries whose keys compare equal are the same entry. -/
theorem eq_of_mem_of_cmp {t : SortedTree cmp ν} {a b : κ × ν} (ha : a ∈ t.entries)
    (hb : b ∈ t.entries) (h : cmp a.1 b.1 = 0) : a = b :=
  eq_of_mem_of_sorted t.sorted ha hb h

theorem lookup_eq_some_iff {t : SortedTree cmp ν} {k : κ} {v : ν} :
    t.lookup k = some v ↔ ∃ k', (k', v) ∈ t.entries ∧ cmp k k' = 0 := by
  refine ⟨exists_mem_of_lookup, fun ⟨k', hmem, hk⟩ => ?_⟩
  cases hfound : t.lookup k with
  | none => exact absurd hk (lookup_eq_none_iff.mp hfound _ hmem)
  | some w =>
      obtain ⟨k'', hmem', hk'⟩ := exists_mem_of_lookup hfound
      have heq := eq_of_mem_of_cmp hmem hmem' (ThreeWay.eq_trans (ThreeWay.eq_symm hk) hk')
      rw [(Prod.mk.inj heq).2]

theorem mem_values_iff {t : SortedTree cmp ν} {v : ν} : v ∈ t.values ↔ ∃ k, t.lookup k = some v := by
  constructor
  · intro h
    obtain ⟨e, he, rfl⟩ := List.mem_map.mp h
    exact ⟨e.1, lookup_eq_some_iff.mpr ⟨e.1, he, ThreeWay.refl e.1⟩⟩
  · rintro ⟨k, h⟩
    obtain ⟨k', hmem, _⟩ := exists_mem_of_lookup h
    exact List.mem_map.mpr ⟨(k', v), hmem, rfl⟩

theorem lookup_congr {t : SortedTree cmp ν} {k k' : κ} (h : cmp k k' = 0) :
    t.lookup k = t.lookup k' := by
  cases hfound : t.lookup k' with
  | none =>
      rw [lookup_eq_none_iff] at hfound ⊢
      exact fun e he hk => hfound e he (ThreeWay.eq_trans (ThreeWay.eq_symm h) hk)
  | some v =>
      obtain ⟨k'', hmem, hk⟩ := exists_mem_of_lookup hfound
      exact lookup_eq_some_iff.mpr ⟨k'', hmem, ThreeWay.eq_trans h hk⟩

theorem split_of_lookup {t : SortedTree cmp ν} {k : κ} {v : ν} (h : t.lookup k = some v) :
    ∃ k' before after, cmp k k' = 0 ∧ t.entries = before ++ (k', v) :: after ∧
      ∀ e ∈ before ++ after, cmp k e.1 ≠ 0 := by
  obtain ⟨k', hmem, hk⟩ := exists_mem_of_lookup h
  obtain ⟨before, after, hsplit⟩ := List.append_of_mem hmem
  refine ⟨k', before, after, hk, hsplit, fun e he hke => ?_⟩
  have hne : t.entries.Pairwise fun a b => cmp a.1 b.1 ≠ 0 := t.sorted.imp fun hab => ne_of_lt hab
  rw [hsplit] at hne
  have hnodup := (List.perm_middle.pairwise_iff fun hab hba => hab (ThreeWay.eq_symm hba)).mp hne
  exact (List.pairwise_cons.mp hnodup).1 e he (ThreeWay.eq_trans (ThreeWay.eq_symm hk) hke)

/-- Changing the value under a key touches one entry. -/
theorem modify_perm {t : SortedTree cmp ν} {k : κ} {v : ν} {f : ν → ν} (h : t.lookup k = some v) :
    ∃ k' rest, cmp k k' = 0 ∧ t.entries.Perm ((k', v) :: rest) ∧
      (t.modify k f).entries.Perm ((k', f v) :: rest) := by
  obtain ⟨k', before, after, hk, hsplit, hother⟩ := split_of_lookup h
  refine ⟨k', before ++ after, hk, ?_, ?_⟩
  · rw [hsplit]
    exact List.perm_middle
  · have hfix : ∀ l : List (κ × ν), (∀ e ∈ l, cmp k e.1 ≠ 0) →
        l.map (fun e => if cmp k e.1 = 0 then (e.1, f e.2) else e) = l := by
      intro l hl
      rw [List.map_congr_left fun e he => if_neg (hl e he)]
      exact List.map_id' l
    simp only [modify, hsplit, List.map_append, List.map_cons, if_pos hk]
    rw [hfix before fun e he => hother e (List.mem_append_left _ he),
      hfix after fun e he => hother e (List.mem_append_right _ he)]
    exact List.perm_middle

theorem lookup_insert {t : SortedTree cmp ν} {k : κ} {v : ν} (h : t.lookup k = none) :
    (t.insert k v).lookup k = some v :=
  lookup_eq_some_iff.mpr ⟨k, (mem_insert h).mpr (Or.inl rfl), ThreeWay.refl k⟩

theorem lookup_remove {t : SortedTree cmp ν} {k k' : κ} (h : cmp k k' ≠ 0) :
    (t.remove k).lookup k' = t.lookup k' := by
  cases hfound : t.lookup k' with
  | none =>
      rw [lookup_eq_none_iff] at hfound ⊢
      exact fun e he => hfound e (mem_remove.mp he).1
  | some v =>
      obtain ⟨k'', hmem, hk⟩ := exists_mem_of_lookup hfound
      refine lookup_eq_some_iff.mpr ⟨k'', mem_remove.mpr ⟨hmem, fun hk'' => h ?_⟩, hk⟩
      exact ThreeWay.eq_trans hk'' (ThreeWay.eq_symm hk)

/-- An insertion is seen by exactly the keys that compare equal. -/
theorem lookup_insert_eq (t : SortedTree cmp ν) (k k' : κ) (v : ν) :
    (t.insert k v).lookup k' = if cmp k k' = 0 then some v else t.lookup k' := by
  simp only [lookup, insert]
  induction t.entries with
  | nil =>
      have hkeys : cmp k' k = 0 ↔ cmp k k' = 0 := ⟨ThreeWay.eq_symm, ThreeWay.eq_symm⟩
      by_cases h : cmp k k' = 0 <;> simp [insertEntry, hkeys, h]
  | cons e es ih =>
      have hkeys : cmp k' k = 0 ↔ cmp k k' = 0 := ⟨ThreeWay.eq_symm, ThreeWay.eq_symm⟩
      simp only [insertEntry]
      split
      next => by_cases h : cmp k k' = 0 <;> simp [List.find?_cons, hkeys, h]
      next =>
        split
        next hke =>
          have hother : cmp k' e.1 = 0 ↔ cmp k k' = 0 :=
            ⟨fun hk => ThreeWay.eq_trans hke (ThreeWay.eq_symm hk),
              fun hk => ThreeWay.eq_trans (ThreeWay.eq_symm hk) hke⟩
          by_cases h : cmp k k' = 0 <;> simp [hother, h]
        next hke =>
          by_cases hk' : cmp k' e.1 = 0
          · have hne : cmp k k' ≠ 0 := fun hk => hke (ThreeWay.eq_trans hk hk')
            simp [hk', hne]
          · simpa [List.find?_cons, hk'] using ih

theorem lookup_remove_eq (t : SortedTree cmp ν) (k k' : κ) :
    (t.remove k).lookup k' = if cmp k k' = 0 then none else t.lookup k' := by
  by_cases h : cmp k k' = 0
  · rw [if_pos h, lookup_eq_none_iff]
    intro e he hk'
    exact (mem_remove.mp he).2 (ThreeWay.eq_trans h hk')
  · rw [if_neg h, lookup_remove h]

theorem lookup_modify (t : SortedTree cmp ν) (k k' : κ) (f : ν → ν) :
    (t.modify k f).lookup k' = if cmp k k' = 0 then (t.lookup k').map f else t.lookup k' := by
  have hfind : (t.modify k f).entries.find? (fun e => cmp k' e.1 = 0) =
      (t.entries.find? fun e => cmp k' e.1 = 0).map
        fun e => if cmp k e.1 = 0 then (e.1, f e.2) else e := by
    rw [modify, List.find?_map]
    congr 2
    funext e
    dsimp only [Function.comp_apply]
    split <;> rfl
  unfold lookup
  rw [hfind]
  cases hfound : t.entries.find? fun e => cmp k' e.1 = 0 with
  | none => simp
  | some e =>
      have he : cmp k' e.1 = 0 := by simpa using List.find?_some hfound
      have hkeys : cmp k e.1 = 0 ↔ cmp k k' = 0 :=
        ⟨fun h => ThreeWay.eq_trans h (ThreeWay.eq_symm he), fun h => ThreeWay.eq_trans h he⟩
      by_cases h : cmp k k' = 0 <;> simp [hkeys, h]

/-- Keys that differ from each other and from those of the tree are all inserted. -/
theorem foldl_insert_perm (f : κ → ν) {ks : List κ} {t : SortedTree cmp ν}
    (hks : ks.Pairwise fun a b => cmp a b ≠ 0) (hfresh : ∀ k ∈ ks, t.lookup k = none) :
    (ks.foldl (fun t k => t.insert k (f k)) t).entries.Perm
      (ks.map (fun k => (k, f k)) ++ t.entries) := by
  induction ks generalizing t with
  | nil => exact List.Perm.refl _
  | cons k ks ih =>
      obtain ⟨hother, hks⟩ := List.pairwise_cons.mp hks
      have hnone := hfresh k List.mem_cons_self
      have hrest : ∀ k' ∈ ks, (t.insert k (f k)).lookup k' = none := by
        intro k' hk'
        rw [lookup_insert_eq, if_neg (hother k' hk')]
        exact hfresh k' (List.mem_cons_of_mem k hk')
      refine (ih hks hrest).trans ?_
      refine ((insert_perm hnone).append_left _).trans ?_
      rw [List.map_cons]
      exact List.perm_middle

theorem insert_of_mem {t : SortedTree cmp ν} {k k' : κ} {v : ν} (hmem : (k', v) ∈ t.entries)
    (hk : cmp k k' = 0) : t.insert k v = t := by
  obtain ⟨es, hsorted⟩ := t
  rw [insert, SortedTree.mk.injEq]
  dsimp only at hmem ⊢
  induction es with
  | nil => exact absurd hmem List.not_mem_nil
  | cons e es ih =>
      obtain ⟨hhead, htail⟩ := List.pairwise_cons.mp hsorted
      rw [insertEntry]
      rcases List.mem_cons.mp hmem with rfl | hmem
      · rw [if_neg (not_lt_of_ge hk.ge), if_pos hk]
      · have hgt : 0 < cmp k e.1 :=
          ThreeWay.pos_of_lt (ThreeWay.lt_of_lt_of_le (hhead _ hmem) (ThreeWay.eq_symm hk).le)
        rw [if_neg (by omega), if_neg (by omega), ih htail hmem]

example : insertEntry (fun a b : Int => a - b) 2 'b' [(1, 'a'), (2, 'b')] = [(1, 'a'), (2, 'b')] := by
  decide +kernel

/-- The entry stored under `k`, created from `new` when it is missing, is changed by `f`. -/
def upsert (t : SortedTree cmp ν) (k : κ) (new : ν) (f : ν → ν) : SortedTree cmp ν :=
  (if (t.lookup k).isNone then t.insert k new else t).modify k f

/-- An upsert replaces one entry, the one found or the one made for `k`. -/
theorem upsert_perm (t : SortedTree cmp ν) (k : κ) (new : ν) (f : ν → ν) :
    ∃ k' v rest, cmp k k' = 0 ∧ (t.upsert k new f).entries.Perm ((k', f v) :: rest) ∧
      (t.lookup k = some v ∧ t.entries.Perm ((k', v) :: rest) ∨
        t.lookup k = none ∧ v = new ∧ k' = k ∧ t.entries.Perm rest) := by
  cases hfound : t.lookup k with
  | some v =>
      obtain ⟨k', rest, hk, hold, hnew⟩ := modify_perm (f := f) hfound
      refine ⟨k', v, rest, hk, ?_, Or.inl ⟨rfl, hold⟩⟩
      simpa [upsert, hfound] using hnew
  | none =>
      obtain ⟨k', rest, hk, hold, hnew⟩ := modify_perm (f := f) (lookup_insert (v := new) hfound)
      have hmem : (k', new) ∈ (t.insert k new).entries := hold.mem_iff.mpr List.mem_cons_self
      have hkey : (k', new) = (k, new) :=
        eq_of_mem_of_cmp hmem ((mem_insert hfound).mpr (Or.inl rfl)) (ThreeWay.eq_symm hk)
      have hrest : t.entries.Perm rest := by
        have hperm := (insert_perm (v := new) hfound).symm.trans hold
        rw [hkey] at hperm
        exact hperm.cons_inv
      refine ⟨k', new, rest, hk, ?_, Or.inr ⟨rfl, rfl, (Prod.mk.inj hkey).1, hrest⟩⟩
      simpa [upsert, hfound] using hnew

/-- After an upsert an entry under an equal key is the changed one, and any other entry is old. -/
theorem mem_upsert {t : SortedTree cmp ν} {k : κ} {new : ν} {f : ν → ν} {e : κ × ν} :
    e ∈ (t.upsert k new f).entries ↔
      (cmp k e.1 = 0 ∧ ((∃ v, (e.1, v) ∈ t.entries ∧ e.2 = f v) ∨
        (t.lookup k = none ∧ e = (k, f new)))) ∨ (cmp k e.1 ≠ 0 ∧ e ∈ t.entries) := by
  obtain ⟨k', v, rest, hk, hafter, hbefore⟩ := t.upsert_perm k new f
  have hold : ∀ d, d ∈ t.entries ↔ d ∈ rest ∨ (t.lookup k = some v ∧ d = (k', v)) := by
    intro d
    rcases hbefore with ⟨hfound, hperm⟩ | ⟨hnone, _, _, hperm⟩
    · rw [hperm.mem_iff, List.mem_cons, or_comm, hfound]
      simp
    · rw [hperm.mem_iff, hnone]
      simp
  have hchanged : (k', f v) ∈ (t.upsert k new f).entries := hafter.mem_iff.mpr List.mem_cons_self
  by_cases hke : cmp k e.1 = 0
  · have hkey : cmp e.1 k' = 0 := ThreeWay.eq_trans (ThreeWay.eq_symm hke) hk
    have hsame : e ∈ (t.upsert k new f).entries ↔ e = (k', f v) :=
      ⟨fun he => eq_of_mem_of_cmp he hchanged hkey, fun he => he ▸ hchanged⟩
    rw [hsame]
    constructor
    · rintro rfl
      refine Or.inl ⟨hk, ?_⟩
      rcases hbefore with ⟨hfound, hperm⟩ | ⟨hnone, rfl, rfl, _⟩
      · exact Or.inl ⟨v, hperm.mem_iff.mpr List.mem_cons_self, rfl⟩
      · exact Or.inr ⟨hnone, rfl⟩
    · rintro (⟨_, ⟨w, hmem, hw⟩ | ⟨hnone, he⟩⟩ | ⟨hne, _⟩)
      · rcases hbefore with ⟨_, hperm⟩ | ⟨hnone, _⟩
        · have heq := eq_of_mem_of_cmp hmem (hperm.mem_iff.mpr List.mem_cons_self) hkey
          obtain ⟨hk', rfl⟩ := Prod.mk.inj heq
          exact Prod.ext hk' hw
        · exact absurd hke (@lookup_eq_none_iff _ _ _ t k |>.mp hnone (e.1, w) hmem)
      · rcases hbefore with ⟨hfound, _⟩ | ⟨_, rfl, rfl, _⟩
        · rw [hnone] at hfound
          exact absurd hfound.symm (Option.some_ne_none v)
        · exact he
      · exact absurd hke hne
  · have hother : e ≠ (k', v) ∧ e ≠ (k', f v) :=
      ⟨fun he => hke (he ▸ hk), fun he => hke (he ▸ hk)⟩
    rw [hafter.mem_iff, List.mem_cons, hold]
    simp [hke, hother.1, hother.2]

theorem mem_upsert_of_mem {t : SortedTree cmp ν} {e : κ × ν} (h : e ∈ t.entries) (k : κ) (new : ν)
    (f : ν → ν) : (e.1, f e.2) ∈ (t.upsert k new f).entries ∨ e ∈ (t.upsert k new f).entries := by
  by_cases hkey : cmp k e.1 = 0
  · exact Or.inl (mem_upsert.mpr (Or.inl ⟨hkey, Or.inl ⟨e.2, h, rfl⟩⟩))
  · exact Or.inr (mem_upsert.mpr (Or.inr ⟨hkey, h⟩))

theorem forall_upsert {P : ν → Prop} {t : SortedTree cmp ν} {k : κ} {new : ν} {f : ν → ν}
    (h : ∀ e ∈ t.entries, P e.2) (hf : ∀ v, P (f v)) : ∀ e ∈ (t.upsert k new f).entries, P e.2 := by
  intro e he
  rcases mem_upsert.mp he with ⟨_, ⟨old, _, hvalue⟩ | ⟨_, rfl⟩⟩ | ⟨_, hmem⟩
  · rw [hvalue]
    exact hf old
  · exact hf new
  · exact h e hmem

theorem lookup_upsert {t : SortedTree cmp ν} {k : κ} {new : ν} {f : ν → ν} :
    (t.upsert k new f).lookup k = some (f ((t.lookup k).getD new)) := by
  obtain ⟨k', v, rest, hk, hafter, hbefore⟩ := t.upsert_perm k new f
  have hvalue : (t.lookup k).getD new = v := by
    rcases hbefore with ⟨hfound, _⟩ | ⟨hnone, rfl, _⟩
    · rw [hfound, Option.getD_some]
    · rw [hnone, Option.getD_none]
  rw [hvalue]
  exact lookup_eq_some_iff.mpr ⟨k', hafter.mem_iff.mpr List.mem_cons_self, hk⟩

theorem lookup_upsert_of_ne {t : SortedTree cmp ν} {k k' : κ} {new : ν} {f : ν → ν}
    (h : cmp k k' ≠ 0) : (t.upsert k new f).lookup k' = t.lookup k' := by
  have hkey : ∀ {k'' : κ}, cmp k' k'' = 0 → cmp k k'' ≠ 0 := fun hk hk' =>
    h (ThreeWay.eq_trans hk' (ThreeWay.eq_symm hk))
  cases hfound : t.lookup k' with
  | some v =>
      obtain ⟨k'', hmem, hk⟩ := exists_mem_of_lookup hfound
      exact lookup_eq_some_iff.mpr ⟨k'', mem_upsert.mpr (Or.inr ⟨hkey hk, hmem⟩), hk⟩
  | none =>
      rw [lookup_eq_none_iff] at hfound ⊢
      intro e he hk
      rcases mem_upsert.mp he with ⟨hke, _⟩ | ⟨_, hmem⟩
      · exact hkey hk hke
      · exact hfound e hmem hk

end Ordered

theorem modify_keys (t : SortedTree cmp ν) (k : κ) (f : ν → ν) :
    (t.modify k f).entries.map Prod.fst = t.entries.map Prod.fst := by
  rw [modify, List.map_map]
  apply List.map_congr_left
  intro e _
  dsimp only [Function.comp_apply]
  split <;> rfl

/-! ### Traversals -/

theorem traverseEntries_snd {f : σ → κ → ν → σ × ν} {g : κ → ν → ν}
    (h : ∀ s k v, (f s k v).2 = g k v) (s : σ) (es : List (κ × ν)) :
    (traverseEntries f s es).2 = es.map fun e => (e.1, g e.1 e.2) := by
  induction es generalizing s with
  | nil => rfl
  | cons e es ih => simp [traverseEntries, ih, h]

/-- A visitor whose new value does not depend on the outside state maps the values. -/
theorem traverse_entries {f : σ → κ → ν → σ × ν} {g : κ → ν → ν}
    (h : ∀ s k v, (f s k v).2 = g k v) (s : σ) (t : SortedTree cmp ν) :
    (t.traverse f s).2.entries = t.entries.map fun e => (e.1, g e.1 e.2) :=
  traverseEntries_snd h s t.entries

theorem lookup_traverse {f : σ → κ → ν → σ × ν} {g : ν → ν} (h : ∀ s k v, (f s k v).2 = g v) (s : σ)
    (t : SortedTree cmp ν) (k : κ) : (t.traverse f s).2.lookup k = (t.lookup k).map g := by
  rw [lookup, traverse_entries (g := fun _ v => g v) h, List.find?_map, Option.map_map, lookup,
    Option.map_map]
  rfl

end SortedTree
