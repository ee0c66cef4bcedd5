import Mathlib.Data.List.Basic
import Mathlib.Order.Basic

/-!
# Moving windows over captured bytes

A reader that works through a captured byte string keeps a window into it: where the current header
starts and how many captured bytes are left from there. Each read is recorded together with the
window it was made through, so that staying inside the window is a property of the record.
-/

/-- A window of `len` bytes at `pos` into `size` captured bytes. -/
structure Window where
  bytes : Nat → UInt8
  size : Nat
  pos : Nat
  len : Nat
  inside : pos + len ≤ size

/-- A read at `index` through a window of `len` bytes at `pos`. -/
structure Access where
  index : Nat
  pos : Nat
  len : Nat
deriving DecidableEq, Repr

/-- The read stays in its window, and hence in the `size` captured bytes. -/
def Access.Within (size : Nat) (a : Access) : Prop := a.index < a.len ∧ a.pos + a.index < size

instance (size : Nat) (a : Access) : Decidable (a.Within size) := inferInstanceAs (Decidable (_ ∧ _))

namespace Window

def whole (bytes : Nat → UInt8) (size : Nat) : Window := ⟨bytes, size, 0, size, by omega⟩

def get (w : Window) (i : Nat) : UInt8 := w.bytes (w.pos + i)

/-- Moves the window `n` bytes on; a window with fewer bytes becomes empty where it stands. -/
def advance (w : Window) (n : Nat) : Window :=
  if h : w.len < n then ⟨w.bytes, w.size, w.pos, 0, by have := w.inside; omega⟩
  else ⟨w.bytes, w.size, w.pos + n, w.len - n, by have := w.inside; omega⟩

def u16 (w : Window) (i : Nat) : Nat := (w.get i).toNat * 256 + (w.get (i + 1)).toNat

def u32 (w : Window) (i : Nat) : Nat := w.u16 i * 65536 + w.u16 (i + 2)

def u16le (w : Window) (i : Nat) : Nat := (w.get i).toNat + (w.get (i + 1)).toNat * 256

def u32le (w : Window) (i : Nat) : Nat := w.u16le i + w.u16le (i + 2) * 65536

def hasBytes (w : Window) (i : Nat) : List UInt8 → Bool
  | [] => true
  | b :: bs => w.get i == b && w.hasBytes (i + 1) bs

def accesses (w : Window) (i n : Nat) : List Access :=
  (List.range n).map fun j => ⟨i + j, w.pos, w.len⟩

@[simp] theorem advance_bytes (w : Window) (n : Nat) : (w.advance n).bytes = w.bytes := by
  unfold advance
  split <;> rfl

@[simp] theorem advance_size (w : Window) (n : Nat) : (w.advance n).size = w.size := by
  unfold advance
  split <;> rfl

@[simp] theorem advance_len (w : Window) (n : Nat) : (w.advance n).len = w.len - n := by
  unfold advance
  split
  · dsimp only
    omega
  · rfl

theorem advance_pos (w : Window) {n : Nat} (h : n ≤ w.len) : (w.advance n).pos = w.pos + n := by
  unfold advance
  split
  · omega
  · rfl

@[simp] theorem advance_zero (w : Window) : w.advance 0 = w := by
  unfold advance
  split
  · omega
  · rfl

theorem advance_get (w : Window) {n : Nat} (h : n ≤ w.len) (i : Nat) :
    (w.advance n).get i = w.get (n + i) := by
  rw [get, get, advance_bytes, advance_pos w h, Nat.add_assoc]

theorem hasBytes_append {w : Window} {i : Nat} {as bs : List UInt8} :
    w.hasBytes i (as ++ bs) ↔ w.hasBytes i as ∧ w.hasBytes (i + as.length) bs := by
  induction as generalizing i with
  | nil => simp [hasBytes]
  | cons a as ih =>
      simp only [List.cons_append, hasBytes, Bool.and_eq_true, ih, List.length_cons]
      rw [and_assoc, Nat.add_assoc, Nat.add_comm 1]

theorem hasBytes_cons {w : Window} {i : Nat} {b : UInt8} {bs : List UInt8} :
    w.hasBytes i (b :: bs) ↔ w.get i = b ∧ w.hasBytes (i + 1) bs := by
  simp [hasBytes]

theorem get_of_hasBytes {w : Window} {i j : Nat} {bs : List UInt8} (h : w.hasBytes i bs)
    (hj : j < bs.length) : w.get (i + j) = bs[j] := by
  induction bs generalizing i j with
  | nil => exact absurd hj (Nat.not_lt_zero _)
  | cons b bs ih =>
      obtain ⟨hb, hbs⟩ := hasBytes_cons.mp h
      cases j with
      | zero => exact hb
      | succ j =>
          rw [← Nat.add_assoc, Nat.add_right_comm]
          exact ih hbs (Nat.lt_of_succ_lt_succ hj)

theorem hasBytes_of_get {w : Window} {i : Nat} {bs : List UInt8}
    (h : ∀ j (hj : j < bs.length), w.get (i + j) = bs[j]) : w.hasBytes i bs := by
  induction bs generalizing i with
  | nil => rfl
  | cons b bs ih =>
      refine hasBytes_cons.mpr ⟨h 0 (Nat.succ_pos _), ih fun j hj => ?_⟩
      rw [Nat.add_right_comm, Nat.add_assoc]
      exact h (j + 1) (Nat.succ_lt_succ hj)

theorem prefix_of_hasBytes {w : Window} {i : Nat} {as bs : List UInt8} (has : w.hasBytes i as)
    (hbs : w.hasBytes i bs) (hle : as.length ≤ bs.length) : as <+: bs := by
  rw [List.prefix_iff_eq_take]
  apply List.ext_getElem
  · rw [List.length_take, Nat.min_eq_left hle]
  · intro j hj _
    rw [List.getElem_take, ← get_of_hasBytes has hj, get_of_hasBytes hbs (Nat.lt_of_lt_of_le hj hle)]

theorem hasBytes_advance {w : Window} {n : Nat} (hn : n ≤ w.len) (i : Nat) (bs : List UInt8) :
    (w.advance n).hasBytes i bs = w.hasBytes (n + i) bs := by
  induction bs generalizing i with
  | nil => rfl
  | cons b bs ih => rw [hasBytes, hasBytes, advance_get w hn, ih, Nat.add_assoc]

theorem u16_of_hasBytes {w : Window} {i : Nat} {hi lo : UInt8} (h : w.hasBytes i [hi, lo]) :
    w.u16 i = hi.toNat * 256 + lo.toNat := by
  obtain ⟨hhi, hlo⟩ := hasBytes_cons.mp h
  rw [u16, hhi, (hasBytes_cons.mp hlo).1]

/-- Reading `n` bytes stays in the window exactly when the window holds them. -/
theorem accesses_within {w : Window} {i n : Nat} (hn : 0 < n) :
    (∀ a ∈ w.accesses i n, a.Within w.size) ↔ i + n ≤ w.len := by
  have hinside := w.inside
  constructor
  · intro h
    have hlast := h ⟨i + (n - 1), w.pos, w.len⟩
      (List.mem_map.mpr ⟨n - 1, List.mem_range.mpr (by omega), rfl⟩)
    have hlt : i + (n - 1) < w.len := hlast.1
    omega
  · rintro h a ha
    obtain ⟨j, hj, rfl⟩ := List.mem_map.mp ha
    rw [List.mem_range] at hj
    exact ⟨show i + j < w.len by omega, show w.pos + (i + j) < w.size by omega⟩

end Window
