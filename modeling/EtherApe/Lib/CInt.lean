import Mathlib.Tactic.Positivity

/-!
# Machine integers

Conversions between the integer types of C on a machine with two's complement and a signed `char`.
-/

namespace CInt

def ofChar (b : UInt8) : Int := if b.toNat < 128 then b.toNat else b.toNat - 256

def unsigned (bits : Nat) (i : Int) : Nat := (i % 2 ^ bits).toNat

def signed (bits : Nat) (n : Nat) : Int :=
  if n % 2 ^ bits < 2 ^ (bits - 1) then (n % 2 ^ bits : Nat) else (n % 2 ^ bits : Nat) - 2 ^ bits

theorem unsigned_natCast {bits n : Nat} (h : n < 2 ^ bits) : unsigned bits n = n := by
  unfold unsigned
  rw [Int.emod_eq_of_lt (by positivity) (by exact_mod_cast h), Int.toNat_natCast]

theorem signed_bounds (bits n : Nat) : -2 ^ bits ≤ signed bits n ∧ signed bits n < 2 ^ bits := by
  have hlt : n % 2 ^ bits < 2 ^ bits := Nat.mod_lt _ (by positivity)
  have hlt' : ((n % 2 ^ bits : Nat) : Int) < 2 ^ bits := by exact_mod_cast hlt
  unfold signed
  split
  · constructor
    · have hpos : (0 : Int) < 2 ^ bits := by positivity
      omega
    · exact hlt'
  · constructor <;> omega

theorem ofChar_of_lt {b : UInt8} (h : b.toNat < 128) : ofChar b = b.toNat := if_pos h

end CInt
