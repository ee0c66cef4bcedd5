import EtherApe.Lib.SortedTree

/-!
# Trees under the same keys

Two trees may keep different data about the same things. They stay under the same keys when every
insertion and every removal is made in both.
-/

namespace SortedTree

variable {κ ν μ σ : Type*} {cmp : κ → κ → Int}

def SameKeys (t : SortedTree cmp ν) (u : SortedTree cmp μ) : Prop :=
  t.entries.map Prod.fst = u.entries.map Prod.fst

theorem insertEntry_keys (k : κ) (v : ν) (w : μ) {es : List (κ × ν)} {fs : List (κ × μ)}
    (h : es.map Prod.fst = fs.map Prod.fst) :
    (insertEntry cmp k v es).map Prod.fst = (insertEntry cmp k w fs).map Prod.fst := by
  induction es generalizing fs with
  | nil =>
      obtain rfl := List.map_eq_nil_iff.mp h.symm
      rfl
  | cons e es ih =>
      cases fs with
      | nil => cases h
      | cons f fs =>
          obtain ⟨hkey, hrest⟩ := List.cons.inj h
          simp only [insertEntry, hkey]
          split
          · exact congrArg (k :: ·) h
          · split
            · exact congrArg (f.1 :: ·) hrest
            · rw [List.map_cons, List.map_cons, hkey, ih hrest]

theorem remove_keys (t : SortedTree cmp ν) (k : κ) :
    (t.remove k).entries.map Prod.fst = (t.entries.map Prod.fst).filter fun k' => ¬cmp k k' = 0 := by
  rw [List.filter_map]
  rfl

theorem isSome_lookup_iff (t : SortedTree cmp ν) (k : κ) :
    (t.lookup k).isSome ↔ ∃ k' ∈ t.entries.map Prod.fst, cmp k k' = 0 := by
  rw [lookup, Option.isSome_map, List.find?_isSome]
  simp

namespace SameKeys

variable {t : SortedTree cmp ν} {u : SortedTree cmp μ}

theorem empty : SameKeys (SortedTree.empty : SortedTree cmp ν) (SortedTree.empty : SortedTree cmp μ) :=
  rfl

theorem refl (t : SortedTree cmp ν) : t.SameKeys t := rfl

theorem length_eq (h : t.SameKeys u) : t.entries.length = u.entries.length := by
  simpa using congrArg List.length h

theorem remove (h : t.SameKeys u) (k : κ) : (t.remove k).SameKeys (u.remove k) := by
  rw [SameKeys, remove_keys, remove_keys, h]

theorem foldl_remove (h : t.SameKeys u) (ks : List κ) :
    (ks.foldl SortedTree.remove t).SameKeys (ks.foldl SortedTree.remove u) := by
  induction ks generalizing t u with
  | nil => exact h
  | cons k ks ih => exact ih (h.remove k)

theorem traverse_right (h : t.SameKeys u) (f : σ → κ → μ → σ × μ) (s : σ) :
    t.SameKeys (u.traverse f s).2 := h.trans (traverseEntries_keys f s u.entries).symm

theorem isSome_lookup (h : t.SameKeys u) (k : κ) : (t.lookup k).isSome = (u.lookup k).isSome := by
  rw [Bool.eq_iff_iff, isSome_lookup_iff, isSome_lookup_iff, h]

theorem insert [ThreeWay cmp] (h : t.SameKeys u) (k : κ) (v : ν) (w : μ) :
    (t.insert k v).SameKeys (u.insert k w) := insertEntry_keys k v w h

end SameKeys

section Ordered

variable [ThreeWay cmp]

theorem lookup_foldl_remove (ks : List κ) (t : SortedTree cmp ν) (k : κ) :
    (ks.foldl remove t).lookup k = if ∃ k' ∈ ks, cmp k' k = 0 then none else t.lookup k := by
  induction ks generalizing t with
  | nil => simp
  | cons k' ks ih =>
      rw [List.foldl_cons, ih, lookup_remove_eq]
      by_cases hhead : cmp k' k = 0
      · simp [hhead]
      · simp [hhead]

theorem countP_entries (t : SortedTree cmp ν) (p : ν → Bool) :
    t.entries.countP (fun e => p e.2) = (t.entries.map Prod.fst).countP fun k => (t.lookup k).any p := by
  rw [List.countP_map]
  apply List.countP_congr
  intro e he
  have hfound : t.lookup e.1 = some e.2 := lookup_eq_some_iff.mpr ⟨e.1, he, ThreeWay.refl e.1⟩
  rw [Function.comp_apply, hfound, Option.any_some]

end Ordered

end SortedTree
