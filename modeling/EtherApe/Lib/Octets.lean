import Mathlib.Data.Int.Order.Basic
import Mathlib.Data.Fintype.Pi
import Mathlib.Data.List.OfFn
import Mathlib.Tactic.Ring

/-!
# Blocks of bytes

Fixed-size blocks of memory, the partial overwrites that unions and packed structures see, and
`memcmp`: the difference at the first position where two byte strings differ. Its sign is a total
order on the strings of each length.
-/

/-- A block of `n` bytes. -/
abbrev Octets (n : Nat) := Fin n → UInt8

namespace Octets

variable {n : Nat}

def zero : Octets n := fun _ => 0

/-- Overwrites `len` bytes from `off` on with the bytes at `src`. -/
def write (a : Octets n) (off len : Nat) (src : Nat → UInt8) : Octets n :=
  fun i => if off ≤ i.val ∧ i.val < off + len then src (i.val - off) else a i

def firstBytes (a : Octets n) (k : Nat) : List UInt8 := (List.ofFn a).take k

def bytesFrom (a : Octets n) (off : Nat) : Nat → UInt8 :=
  fun i => if h : off + i < n then a ⟨off + i, h⟩ else 0

theorem firstBytes_length {a : Octets n} {k : Nat} (hk : k ≤ n) : (a.firstBytes k).length = k := by
  simp [firstBytes, hk]

theorem firstBytes_eq_iff {a b : Octets n} {k : Nat} (hk : k ≤ n) :
    a.firstBytes k = b.firstBytes k ↔ ∀ i : Fin n, i.val < k → a i = b i := by
  constructor
  · intro h i hi
    have hget := congrArg (fun l => l[i.val]?) h
    simpa [firstBytes, List.getElem?_take, hi] using hget
  · intro h
    apply List.ext_getElem
    · rw [firstBytes_length hk, firstBytes_length hk]
    · intro i hi _
      rw [firstBytes_length hk] at hi
      simpa [firstBytes] using h ⟨i, hi.trans_le hk⟩ hi

end Octets

/-- The difference of the first differing bytes, `0` when there is none. -/
def memcmp : List UInt8 → List UInt8 → Int
  | a :: as, b :: bs => if a = b then memcmp as bs else (a.toNat : Int) - b.toNat
  | _, _ => 0

namespace Memcmp

theorem toNat_sub_ne_zero {a b : UInt8} (h : a ≠ b) : (a.toNat : Int) - b.toNat ≠ 0 := by
  intro hsub
  have hnat : a.toNat = b.toNat := by omega
  exact h (UInt8.toNat_inj.mp hnat)

theorem swap (a b : List UInt8) : memcmp b a = -memcmp a b := by
  induction a generalizing b with
  | nil => cases b <;> simp [memcmp]
  | cons x xs ih =>
      cases b with
      | nil => simp [memcmp]
      | cons y ys =>
          simp only [memcmp]
          by_cases hxy : x = y
          · rw [if_pos hxy, if_pos hxy.symm, ih]
          · rw [if_neg hxy, if_neg (Ne.symm hxy)]
            omega

theorem eq_zero_iff {a b : List UInt8} (hlen : a.length = b.length) :
    memcmp a b = 0 ↔ a = b := by
  induction a generalizing b with
  | nil =>
      obtain rfl : b = [] := List.length_eq_zero_iff.mp hlen.symm
      simp [memcmp]
  | cons x xs ih =>
      cases b with
      | nil => simp at hlen
      | cons y ys =>
          simp only [memcmp, List.cons.injEq]
          by_cases hxy : x = y
          · rw [if_pos hxy, ih (by simpa using hlen)]
            simp [hxy]
          · rw [if_neg hxy]
            simp [hxy, toNat_sub_ne_zero hxy]

theorem lt_trans {a b c : List UInt8} (hab : a.length = b.length) (hbc : b.length = c.length)
    (h₁ : memcmp a b < 0) (h₂ : memcmp b c < 0) : memcmp a c < 0 := by
  induction a generalizing b c with
  | nil => simp [memcmp] at h₁
  | cons x xs ih =>
      cases b with
      | nil => simp at hab
      | cons y ys =>
          cases c with
          | nil => simp at hbc
          | cons z zs =>
              simp only [memcmp] at h₁ h₂ ⊢
              by_cases hxy : x = y
              · subst hxy
                rw [if_pos rfl] at h₁
                by_cases hxz : x = z
                · rw [if_pos hxz] at h₂ ⊢
                  exact ih (by simpa using hab) (by simpa using hbc) h₁ h₂
                · rw [if_neg hxz] at h₂ ⊢
                  exact h₂
              · rw [if_neg hxy] at h₁
                by_cases hyz : y = z
                · subst hyz
                  rw [if_neg hxy]
                  exact h₁
                · rw [if_neg hyz] at h₂
                  have hxz : x ≠ z := by
                    rintro rfl
                    omega
                  rw [if_neg hxz]
                  omega

theorem le_trans {a b c : List UInt8} (hab : a.length = b.length) (hbc : b.length = c.length)
    (h₁ : memcmp a b ≤ 0) (h₂ : memcmp b c ≤ 0) : memcmp a c ≤ 0 := by
  rcases lt_or_eq_of_le h₁ with h₁ | h₁
  · rcases lt_or_eq_of_le h₂ with h₂ | h₂
    · exact (lt_trans hab hbc h₁ h₂).le
    · rw [← (eq_zero_iff hbc).mp h₂]
      exact h₁.le
  · rw [(eq_zero_iff hab).mp h₁]
    exact h₂

end Memcmp
