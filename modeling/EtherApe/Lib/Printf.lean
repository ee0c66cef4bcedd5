import Mathlib.Data.Int.Log
import Mathlib.Data.Rat.Floor
import Mathlib.Data.List.Basic

/-!
# Printed numbers

The conversions of `printf` for numbers in the `C` locale, as the bytes they print, and what a format
prints that is given no arguments.
-/

namespace Printf

def lit (s : String) : List UInt8 := s.toList.flatMap String.utf8EncodeChar

theorem forall_mem_lit {s : String} {p : UInt8 → Prop} [DecidablePred p]
    (h : (lit s).all (fun b => decide (p b)) = true) : ∀ b ∈ lit s, p b := fun b hb =>
  of_decide_eq_true (List.all_eq_true.mp h b hb)

def digits (base n : Nat) : List UInt8 := (Nat.toDigits base n).map fun c => UInt8.ofNat c.toNat

/-- `%u`. -/
def decimal (n : Nat) : List UInt8 := digits 10 n

/-- `%x`. -/
def hex (n : Nat) : List UInt8 := digits 16 n

/-- Fills a number up with zeros, as `%02x` does. -/
def padded (width : Nat) (number : List UInt8) : List UInt8 :=
  List.replicate (width - number.length) 48 ++ number

/-- `%d`. -/
def signed (i : Int) : List UInt8 := (if i < 0 then lit "-" else []) ++ decimal i.natAbs

/-- The nearest number, the even one of two. -/
def roundHalfEven (q : ℚ) : Nat :=
  let n := q.floor.toNat
  if q - n < 1 / 2 then n else if 1 / 2 < q - n then n + 1 else n + n % 2

/-- The double nearest to a number, the even one of two, for exponents in range. -/
def binary64 (q : ℚ) : ℚ :=
  if q = 0 then 0
  else
    let ulp : ℚ := 2 ^ (Int.log 2 |q| - 52)
    (if q < 0 then -1 else 1) * roundHalfEven (|q| / ulp) * ulp

/-- `%.0f`, `%f` and the like, with `places` digits after the point. -/
def fixed (places : Nat) (q : ℚ) : List UInt8 :=
  let units := roundHalfEven (|q| * 10 ^ places)
  (if q < 0 then lit "-" else []) ++ decimal (units / 10 ^ places) ++
    if places = 0 then [] else lit "." ++ padded places (decimal (units % 10 ^ places))

/-- What a format prints that is given no arguments; a conversion that needs one has no meaning. -/
def unformatted : List UInt8 → Option (List UInt8)
  | [] => some []
  | 37 :: 37 :: rest => (unformatted rest).map (37 :: ·)
  | 37 :: _ => none
  | b :: rest => (unformatted rest).map (b :: ·)

/-! ### What is printed -/

def IsHexDigit (b : UInt8) : Prop := 48 ≤ b.toNat ∧ b.toNat ≤ 57 ∨ 97 ≤ b.toNat ∧ b.toNat ≤ 102

instance (b : UInt8) : Decidable (IsHexDigit b) := inferInstanceAs (Decidable (_ ∧ _ ∨ _ ∧ _))

theorem mem_toDigitsCore {base fuel n : Nat} {ds : List Char} {c : Char} (hbase : 0 < base)
    (h : c ∈ Nat.toDigitsCore base fuel n ds) : c ∈ ds ∨ ∃ d < base, c = d.digitChar := by
  induction fuel generalizing n ds with
  | zero => exact Or.inl h
  | succ fuel ih =>
      rw [Nat.toDigitsCore] at h
      have hhead : ∀ {c : Char}, c ∈ (n % base).digitChar :: ds →
          c ∈ ds ∨ ∃ d < base, c = d.digitChar := by
        intro c hc
        rcases List.mem_cons.mp hc with rfl | hc
        · exact Or.inr ⟨_, Nat.mod_lt n hbase, rfl⟩
        · exact Or.inl hc
      split at h
      · exact hhead h
      · exact (ih h).elim hhead Or.inr

theorem isHexDigit_of_mem_digits {base n : Nat} (hpos : 0 < base) (hbase : base ≤ 16) {b : UInt8}
    (h : b ∈ digits base n) : IsHexDigit b := by
  obtain ⟨c, hc, rfl⟩ := List.mem_map.mp h
  obtain ⟨d, hd, rfl⟩ := (mem_toDigitsCore hpos hc).resolve_left List.not_mem_nil
  have hall : ∀ d < 16, IsHexDigit (UInt8.ofNat (Nat.digitChar d).toNat) := by decide
  exact hall d (by omega)

theorem isHexDigit_of_mem_padded {width : Nat} {number : List UInt8} {b : UInt8}
    (hnumber : ∀ b ∈ number, IsHexDigit b) (h : b ∈ padded width number) : IsHexDigit b := by
  rcases List.mem_append.mp h with h | h
  · rw [List.eq_of_mem_replicate h]
    decide
  · exact hnumber b h

theorem mem_fixed {places : Nat} {q : ℚ} {b : UInt8} (h : b ∈ fixed places q) :
    IsHexDigit b ∨ b = 45 ∨ b = 46 := by
  have hsign : ∀ {p : Prop} [Decidable p], b ∈ (if p then lit "-" else []) → b = 45 := by
    intro p _ hb
    split at hb
    · exact List.mem_singleton.mp hb
    · exact absurd hb List.not_mem_nil
  rw [fixed] at h
  rcases List.mem_append.mp h with h | h
  · rcases List.mem_append.mp h with h | h
    · exact Or.inr (Or.inl (hsign h))
    · exact Or.inl (isHexDigit_of_mem_digits (by decide) (by decide) h)
  · split at h
    · exact absurd h List.not_mem_nil
    · rcases List.mem_append.mp h with h | h
      · exact Or.inr (Or.inr (List.mem_singleton.mp h))
      · exact Or.inl (isHexDigit_of_mem_padded
          (fun _ hb => isHexDigit_of_mem_digits (by decide) (by decide) hb) h)

theorem mem_signed {i : Int} {b : UInt8} (h : b ∈ signed i) : IsHexDigit b ∨ b = 45 := by
  rcases List.mem_append.mp h with h | h
  · split at h
    · exact Or.inr (List.mem_singleton.mp h)
    · exact absurd h List.not_mem_nil
  · exact Or.inl (isHexDigit_of_mem_digits (by decide) (by decide) h)

/-! ### Formats without arguments -/

theorem unformatted_of_not_mem {bytes : List UInt8} (h : 37 ∉ bytes) :
    unformatted bytes = some bytes := by
  induction bytes with
  | nil => rfl
  | cons b bytes ih =>
      obtain ⟨hb, hbytes⟩ := not_or.mp (List.mem_cons.not.mp h)
      rw [unformatted, ih hbytes, Option.map_some]
      · rintro rest rfl
        exact fun _ => hb rfl
      · exact fun hb' => hb hb'.symm

end Printf
