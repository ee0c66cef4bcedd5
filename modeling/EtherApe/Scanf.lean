import Mathlib.Algebra.Group.Int.Defs
import Mathlib.Algebra.Group.Nat.Defs
import Mathlib.Data.List.TakeWhile

/-!
# Scanned numbers

The conversions of `sscanf` for decimal and for hexadecimal integers, on a platform whose `strtol` and
`strtoul` saturate.
-/

namespace EtherApe

/-- The outcome of `sscanf (str, "%d", &x)`. -/
inductive Scanned
  | eof
  | failed
  | number (value : Int)
deriving DecidableEq, Repr

def isSpace (b : UInt8) : Bool := b = 32 || (9 ≤ b && b ≤ 13)

def isDigit (b : UInt8) : Bool := 48 ≤ b && b ≤ 57

def digitsValue (digits : List UInt8) : Nat :=
  digits.foldl (fun value b => value * 10 + (b.toNat - 48)) 0

/-- `strtol` saturates at the bounds of a 64-bit `long`. -/
def saturateLong (value : Int) : Int := max (-2 ^ 63) (min value (2 ^ 63 - 1))

def scanInt (str : List UInt8) : Scanned :=
  match str.dropWhile isSpace with
  | [] => .eof
  | b :: bs =>
      let unsigned := if b = 43 ∨ b = 45 then bs else b :: bs
      let digits := unsigned.takeWhile isDigit
      if digits = [] then .failed
      else .number (saturateLong (if b = 45 then -digitsValue digits else digitsValue digits))

def isHexDigit (b : UInt8) : Bool := isDigit b || (97 ≤ b && b ≤ 102) || (65 ≤ b && b ≤ 70)

def hexDigitValue (b : UInt8) : Nat :=
  if isDigit b then b.toNat - 48 else if 97 ≤ b then b.toNat - 87 else b.toNat - 55

def hexDigitsValue (digits : List UInt8) : Nat :=
  digits.foldl (fun value b => value * 16 + hexDigitValue b) 0

/-- `strtoul` saturates at the bound of a 64-bit `unsigned long`, and negates behind a minus sign. -/
def saturateUnsignedLong (negative : Bool) (value : Nat) : Nat :=
  if 2 ^ 64 ≤ value then 2 ^ 64 - 1 else if negative then (2 ^ 64 - value) % 2 ^ 64 else value

/-- `%x`: the `unsigned int` and what follows it. A `0x` in front of the digits is a number of its own. -/
def scanHex (str : List UInt8) : Option (Nat × List UInt8) :=
  let str := str.dropWhile isSpace
  let negative := str.head? = some 45
  let str := if str.head? = some 43 ∨ negative then str.tail else str
  let marked := str.head? = some 48 ∧ (str.tail.head? = some 120 ∨ str.tail.head? = some 88)
  let str := if marked then str.drop 2 else str
  let digits := str.takeWhile isHexDigit
  if digits = [] ∧ ¬marked then none
  else some (saturateUnsignedLong negative (hexDigitsValue digits) % 2 ^ 32, str.dropWhile isHexDigit)

/-- As many `%x` as given with a character between them; `none` when one of them does not match. -/
def scanHexes (separator : UInt8) : Nat → List UInt8 → Option (List Nat)
  | 0, _ => some []
  | n + 1, str =>
      match scanHex str with
      | none => none
      | some (value, rest) =>
          if n = 0 then some [value]
          else if rest.head? = some separator then
            (scanHexes separator n rest.tail).map fun values => value :: values
          else none

end EtherApe
