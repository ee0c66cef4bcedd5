import EtherApe.Lib.Printf

/-!
# Numbers read back

The value that a printed number has, with which the conversions of `printf` are undone: different
numbers are printed differently, also when they are filled up with zeros.
-/

namespace Printf

def digitValue (b : UInt8) : Nat := if b.toNat ≤ 57 then b.toNat - 48 else b.toNat - 87

/-- The number with the digits `ds`. -/
def value (base : Nat) (ds : List UInt8) : Nat := ds.foldl (fun n b => base * n + digitValue b) 0

theorem digitValue_digitChar : ∀ d < 16, digitValue (UInt8.ofNat (Nat.digitChar d).toNat) = d := by
  decide

theorem value_concat (base : Nat) (ds : List UInt8) (b : UInt8) :
    value base (ds ++ [b]) = base * value base ds + digitValue b := by
  rw [value, List.foldl_append, List.foldl_cons, List.foldl_nil, value]

theorem digits_eq {base : Nat} (hbase : 1 < base) (n : Nat) :
    digits base n = (if n < base then [] else digits base (n / base)) ++
      [UInt8.ofNat (Nat.digitChar (n % base)).toNat] := by
  rw [digits, Nat.toDigits_eq_if hbase]
  split
  next h => rw [Nat.mod_eq_of_lt h, List.map_singleton, List.nil_append]
  next h => rw [List.map_append, List.map_singleton, digits]

theorem digits_ne_nil {base : Nat} (hbase : 1 < base) (n : Nat) : digits base n ≠ [] := by
  rw [digits_eq hbase]
  exact List.append_ne_nil_of_right_ne_nil _ (List.cons_ne_nil _ _)

theorem value_digits {base : Nat} (hbase : 1 < base) (hle : base ≤ 16) (n : Nat) :
    value base (digits base n) = n := by
  induction n using Nat.strong_induction_on with
  | _ n ih =>
      have hlast : n % base < base := Nat.mod_lt n (by omega)
      rw [digits_eq hbase, value_concat, digitValue_digitChar _ (by omega)]
      split
      next h =>
          rw [Nat.mod_eq_of_lt h]
          exact Nat.zero_add n
      next h =>
          have hlt : n / base < n := Nat.div_lt_self (by omega) hbase
          rw [ih _ hlt, Nat.div_add_mod]

theorem value_padded (base width : Nat) (ds : List UInt8) : value base (padded width ds) = value base ds := by
  have hzeros : ∀ k, (List.replicate k (48 : UInt8)).foldl (fun n b => base * n + digitValue b) 0 = 0 := by
    intro k
    induction k with
    | zero => rfl
    | succ k ih => rwa [List.replicate_succ, List.foldl_cons]
  rw [value, padded, List.foldl_append, hzeros, value]

theorem value_decimal (n : Nat) : value 10 (decimal n) = n := value_digits (by decide) (by decide) n

theorem value_hex (n : Nat) : value 16 (hex n) = n := value_digits (by decide) (by decide) n

theorem decimal_inj {m n : Nat} (h : decimal m = decimal n) : m = n := by
  rw [← value_decimal m, h, value_decimal]

/-! ### Bytes that no number has -/

theorem not_mem_of_isHexDigit {ds : List UInt8} {b : UInt8} (hds : ∀ d ∈ ds, IsHexDigit d)
    (hb : ¬IsHexDigit b) : b ∉ ds := fun h => hb (hds b h)

theorem isHexDigit_of_mem_decimal {n : Nat} : ∀ b ∈ decimal n, IsHexDigit b := fun _ hb =>
  isHexDigit_of_mem_digits (by decide) (by decide) hb

theorem isHexDigit_of_mem_hex {n : Nat} : ∀ b ∈ hex n, IsHexDigit b := fun _ hb =>
  isHexDigit_of_mem_digits (by decide) (by decide) hb

end Printf
