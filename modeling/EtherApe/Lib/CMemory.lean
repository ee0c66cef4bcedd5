import Mathlib.Data.List.Basic
import Mathlib.Data.List.TakeWhile

/-!
# Strings in memory

The memory from an address on, the bytes that are stored into it one after the other, and the string
that is held there: its bytes, up to the NUL that ends it.
-/

/-- The bytes from an address on. -/
abbrev Memory := Nat → UInt8

/-- A byte stored at an index. -/
structure Store where
  index : Nat
  byte : UInt8
deriving DecidableEq, Repr

namespace Memory

def store (m : Memory) (w : Store) : Memory := fun i => if i = w.index then w.byte else m i

def run (m : Memory) (ws : List Store) : Memory := ws.foldl store m

/-- A string `s` is held from the address on. -/
structure Holds (m : Memory) (s : List UInt8) : Prop where
  nul_not_mem : 0 ∉ s
  bytes : ∀ i (h : i < s.length), m i = s[i]
  nul : m s.length = 0

@[simp] theorem run_nil (m : Memory) : m.run [] = m := rfl

@[simp] theorem run_append (m : Memory) (ws ws' : List Store) :
    m.run (ws ++ ws') = (m.run ws).run ws' := List.foldl_append

end Memory

def storesFrom (i : Nat) : List UInt8 → List Store
  | [] => []
  | b :: bs => ⟨i, b⟩ :: storesFrom (i + 1) bs

theorem storesFrom_append (i : Nat) (bs bs' : List UInt8) :
    storesFrom i (bs ++ bs') = storesFrom i bs ++ storesFrom (i + bs.length) bs' := by
  induction bs generalizing i with
  | nil => simp [storesFrom]
  | cons b bs ih => simp [storesFrom, ih, Nat.add_assoc, Nat.add_comm 1]

theorem storesFrom_lt_iff {i n : Nat} {bs : List UInt8} (h : bs ≠ []) :
    (∀ w ∈ storesFrom i bs, w.index < n) ↔ i + bs.length ≤ n := by
  induction bs generalizing i with
  | nil => exact absurd rfl h
  | cons b bs ih =>
      simp only [storesFrom, List.forall_mem_cons, List.length_cons]
      cases bs with
      | nil =>
          simp only [storesFrom, List.not_mem_nil, false_implies, implies_true, and_true, List.length_nil]
          omega
      | cons b' bs =>
          rw [ih (List.cons_ne_nil b' bs), List.length_cons]
          omega

/-- The stores of `strncpy`, which fills up with NULs. -/
def strncpyStores (src : List UInt8) (n : Nat) : List Store :=
  storesFrom 0 (src.take n ++ List.replicate (n - src.length) 0)

/-- The stores of `strncat` behind a string `dst`; the NUL comes after the `n` bytes at most. -/
def strncatStores (dst src : List UInt8) (n : Nat) : List Store :=
  storesFrom dst.length (src.take n ++ [0])

theorem strncpyStores_lt (src : List UInt8) (n : Nat) : ∀ w ∈ strncpyStores src n, w.index < n := by
  unfold strncpyStores
  by_cases h : src.take n ++ List.replicate (n - src.length) 0 = []
  · rw [h]
    exact List.forall_mem_nil _
  · rw [storesFrom_lt_iff h, List.length_append, List.length_take, List.length_replicate]
    omega

theorem strncatStores_lt_iff {dst src : List UInt8} {n bound : Nat} :
    (∀ w ∈ strncatStores dst src n, w.index < bound) ↔ dst.length + min n src.length < bound := by
  rw [strncatStores, storesFrom_lt_iff (List.append_ne_nil_of_right_ne_nil _ (List.cons_ne_nil 0 [])),
    List.length_append, List.length_take, List.length_singleton]
  omega

namespace Memory

theorem run_storesFrom (m : Memory) (i : Nat) (bs : List UInt8) (j : Nat) :
    m.run (storesFrom i bs) j = if i ≤ j then (bs[j - i]?).getD (m j) else m j := by
  induction bs generalizing m i with
  | nil => simp [storesFrom]
  | cons b bs ih =>
      change (m.store ⟨i, b⟩).run (storesFrom (i + 1) bs) j = _
      rw [ih]
      rcases lt_trichotomy j i with hlt | rfl | hgt
      · rw [if_neg (by omega), if_neg (by omega)]
        exact if_neg (ne_of_lt hlt)
      · rw [if_neg (by omega), if_pos le_rfl, Nat.sub_self, List.getElem?_cons_zero]
        exact if_pos rfl
      · obtain ⟨k, rfl⟩ := Nat.exists_eq_add_of_lt hgt
        rw [if_pos (by omega), if_pos (by omega), show i + k + 1 - i = k + 1 by omega,
          show i + k + 1 - (i + 1) = k by omega, List.getElem?_cons_succ]
        congr 1
        exact if_neg (ne_of_gt hgt)

/-- Bytes stored behind a string, with a NUL after them, extend it. -/
theorem Holds.append {m : Memory} {s bs : List UInt8} (h : m.Holds s) (hbs : 0 ∉ bs) :
    (m.run (storesFrom s.length (bs ++ [0]))).Holds (s ++ bs) where
  nul_not_mem := by
    rw [List.mem_append]
    exact not_or.mpr ⟨h.nul_not_mem, hbs⟩
  bytes i hi := by
    rw [run_storesFrom]
    by_cases hlt : i < s.length
    · rw [if_neg (by omega), h.bytes i hlt, List.getElem_append_left hlt]
    · have hi' : i - s.length < bs.length := by
        rw [List.length_append] at hi
        omega
      rw [if_pos (by omega), List.getElem?_append_left hi', List.getElem?_eq_getElem hi',
        Option.getD_some, List.getElem_append_right (by omega)]
  nul := by
    rw [run_storesFrom, List.length_append, if_pos (by omega), Nat.add_sub_cancel_left,
      List.getElem?_append_right le_rfl, Nat.sub_self]
    rfl

/-- A NUL stored within a string, or over the one that ends it, cuts it there. -/
theorem Holds.cut {m : Memory} {s : List UInt8} {i : Nat} (h : m.Holds s) (hi : i ≤ s.length) :
    (m.store ⟨i, 0⟩).Holds (s.take i) where
  nul_not_mem hmem := h.nul_not_mem (List.mem_of_mem_take hmem)
  bytes j hj := by
    rw [List.length_take] at hj
    rw [store, if_neg (by simp only; omega), h.bytes j (by omega), List.getElem_take]
  nul := by
    rw [List.length_take, Nat.min_eq_left hi]
    exact if_pos rfl

theorem Holds.store_of_lt {m : Memory} {s : List UInt8} {w : Store} (h : m.Holds s)
    (hw : s.length < w.index) : (m.store w).Holds s where
  nul_not_mem := h.nul_not_mem
  bytes i hi := by
    rw [store, if_neg (by omega)]
    exact h.bytes i hi
  nul := by
    rw [store, if_neg (by omega)]
    exact h.nul

theorem getElem?_length_takeWhile (bs : List UInt8) :
    (bs ++ [0])[(bs.takeWhile (· ≠ 0)).length]? = some 0 := by
  induction bs with
  | nil => rfl
  | cons b bs ih =>
      by_cases hb : b = 0
      · rw [List.takeWhile_cons_of_neg (by simpa using hb), hb]
        rfl
      · rw [List.takeWhile_cons_of_pos (by simpa using hb), List.length_cons, List.cons_append,
          List.getElem?_cons_succ]
        exact ih

/-- Stored from the start on with a NUL after them, bytes make a string of those before the first
NUL. -/
theorem holds_run_storesFrom (m : Memory) (bs : List UInt8) :
    (m.run (storesFrom 0 (bs ++ [0]))).Holds (bs.takeWhile (· ≠ 0)) where
  nul_not_mem hmem := by
    have h := List.mem_takeWhile_imp hmem
    simp at h
  bytes i hi := by
    have hle := (List.takeWhile_prefix (l := bs) (· ≠ 0)).length_le
    have hbound : i < bs.length := by omega
    rw [run_storesFrom, if_pos (Nat.zero_le i), Nat.sub_zero, List.getElem?_append_left hbound,
      List.getElem?_eq_getElem hbound, Option.getD_some]
    exact ((List.takeWhile_prefix _).getElem hi).symm
  nul := by
    rw [run_storesFrom, if_pos (Nat.zero_le _), Nat.sub_zero, getElem?_length_takeWhile,
      Option.getD_some]

theorem holds_run_strncpyStores (m : Memory) {src : List UInt8} (n : Nat) (h : 0 ∉ src) :
    (m.run (strncpyStores src n ++ [⟨n, 0⟩])).Holds (src.take n) := by
  have hzeros : ∀ k, (List.replicate k (0 : UInt8)).takeWhile (· ≠ 0) = [] := by
    intro k
    cases k <;> rfl
  have hlength : (src.take n ++ List.replicate (n - src.length) 0).length = n := by
    rw [List.length_append, List.length_take, List.length_replicate]
    omega
  have hstores : strncpyStores src n ++ [⟨n, 0⟩] =
      storesFrom 0 (src.take n ++ List.replicate (n - src.length) 0 ++ [0]) := by
    rw [storesFrom_append, hlength, Nat.zero_add]
    rfl
  have htext : (src.take n ++ List.replicate (n - src.length) 0).takeWhile (· ≠ 0) = src.take n := by
    rw [List.takeWhile_append_of_pos, hzeros, List.append_nil]
    intro b hb
    simpa using fun hb0 : b = 0 => h (hb0 ▸ List.mem_of_mem_take hb)
  have hholds := holds_run_storesFrom m (src.take n ++ List.replicate (n - src.length) 0)
  rwa [← hstores, htext] at hholds

end Memory
