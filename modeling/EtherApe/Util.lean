import EtherApe.Common
import EtherApe.Lib.CMemory
import EtherApe.Lib.Printf

/-!
# Strings

The functions of `util.c` that write addresses, on a platform that has `inet_ntop`, and tags, and those
that copy strings. A string is the list of its bytes, without the NUL that ends it.
-/

namespace EtherApe

open Printf

/-- The text of a NUL-terminated string. -/
structure CString where
  bytes : List UInt8
  nul_not_mem : 0 ∉ bytes

/-- The string at `dst` after `safe_strncpy`. -/
def safeStrncpy (dst src : List UInt8) (maxlen : Nat) : List UInt8 :=
  if maxlen < 1 then dst else src.take (maxlen - 1)

/-- The string at `dst` after `safe_strncat`. -/
def safeStrncat (dst src : List UInt8) (maxlen : Nat) : List UInt8 :=
  if maxlen ≤ dst.length then dst else (dst ++ src).take (maxlen - 1)

/-- What `safe_strncpy` stores. -/
def safeStrncpyStores (src : List UInt8) (maxlen : Nat) : List Store :=
  if maxlen < 1 then [] else strncpyStores src (maxlen - 1) ++ [⟨maxlen - 1, 0⟩]

/-- What `safe_strncat` stores behind the string `dst`. -/
def safeStrncatStores (dst src : List UInt8) (maxlen : Nat) : List Store :=
  if maxlen ≤ dst.length then []
  else strncatStores dst src (maxlen - dst.length) ++ [⟨maxlen - 1, 0⟩]

def Address.type (ad : Address) : Nat :=
  (ad 0).toNat + 256 * (ad 1).toNat + 256 ^ 2 * (ad 2).toNat + 256 ^ 3 * (ad 3).toNat

def Address.addrBytes (ad : Address) (len : Nat) : List UInt8 := (ad.firstBytes (4 + len)).drop 4

/-- The numbers of a list, written one after the other with `sep` between them. -/
def separated (sep : List UInt8) : List (List UInt8) → List UInt8
  | [] => []
  | number :: numbers => number ++ numbers.flatMap (sep ++ ·)

def ipv4ToStr (ad : List UInt8) : List UInt8 := separated (lit ".") (ad.map fun b => decimal b.toNat)

def etherToStr (ad : List UInt8) : List UInt8 :=
  separated (lit ":") (ad.map fun b => padded 2 (hex b.toNat))

def ipv6Groups : List UInt8 → List Nat
  | a :: b :: rest => (256 * a.toNat + b.toNat) :: ipv6Groups rest
  | _ => []

/-- How many zero groups follow each other from `base` on. -/
def zeroRun (groups : List Nat) (base : Nat) : Nat := ((groups.drop base).takeWhile (· = 0)).length

/-- Where the first of the longest runs of zero groups starts. -/
def longestRun (groups : List Nat) : Nat :=
  (List.range groups.length).foldl
    (fun best base => if zeroRun groups best < zeroRun groups base then base else best) 0

/-- `inet_ntop` abbreviates the longest run of zero groups, and writes an embedded IPv4 address as
one. -/
def ipv6ToStr (ad : List UInt8) : List UInt8 :=
  let groups := ipv6Groups ad
  let base := longestRun groups
  let len := zeroRun groups base
  let written (gs : List Nat) := separated (lit ":") (gs.map hex)
  if len < 2 then written groups
  else if base = 0 ∧ len = 6 then lit "::" ++ ipv4ToStr (ad.drop 12)
  else if base = 0 ∧ len = 5 ∧ groups[5]? = some 0xffff then
    lit "::ffff:" ++ ipv4ToStr (ad.drop 12)
  else written (groups.take base) ++ lit "::" ++ written (groups.drop (base + len))

def addressToStr (ad : Address) : List UInt8 :=
  if ad.type = afInet then ipv4ToStr (ad.addrBytes 4)
  else if ad.type = afInet6 then ipv6ToStr (ad.addrBytes 16)
  else lit "<invalid address family>"

def typeToStr (ad : Address) : List UInt8 :=
  if ad.type = afInet then lit "IP"
  else if ad.type = afInet6 then lit "IPv6"
  else lit "<invalid address family>"

def xmltag (name msg : List UInt8) : List UInt8 :=
  lit "<" ++ name ++ lit ">" ++ msg ++ lit "</" ++ name ++ lit ">\n"

/-! ### What is stored -/

theorem safeStrncpyStores_lt (src : List UInt8) (maxlen : Nat) :
    ∀ w ∈ safeStrncpyStores src maxlen, w.index < maxlen := by
  unfold safeStrncpyStores
  split
  next => exact List.forall_mem_nil _
  next h =>
    intro w hw
    rcases List.mem_append.mp hw with hw | hw
    · have hlt := strncpyStores_lt src (maxlen - 1) w hw
      omega
    · rw [List.mem_singleton.mp hw]
      exact Nat.sub_lt (by omega) Nat.one_pos

theorem safeStrncpy_holds (m : Memory) {src : List UInt8} {maxlen : Nat} (dst : List UInt8)
    (hsrc : 0 ∉ src) (h : 1 ≤ maxlen) :
    (m.run (safeStrncpyStores src maxlen)).Holds (safeStrncpy dst src maxlen) := by
  rw [safeStrncpyStores, safeStrncpy, if_neg (by omega), if_neg (by omega)]
  exact m.holds_run_strncpyStores (maxlen - 1) hsrc

/-- The NUL that `strncat` adds goes past the buffer when the source fills what is left of it. -/
theorem safeStrncatStores_lt_iff {dst src : List UInt8} {maxlen : Nat} (h : dst.length < maxlen) :
    (∀ w ∈ safeStrncatStores dst src maxlen, w.index < maxlen) ↔
      dst.length + src.length < maxlen := by
  rw [safeStrncatStores, if_neg (by omega), List.forall_mem_append, strncatStores_lt_iff,
    List.forall_mem_singleton]
  simp only
  omega

theorem safeStrncat_holds {m : Memory} {dst src : List UInt8} (hdst : m.Holds dst) (hsrc : 0 ∉ src)
    (maxlen : Nat) : (m.run (safeStrncatStores dst src maxlen)).Holds (safeStrncat dst src maxlen) := by
  rw [safeStrncatStores, safeStrncat]
  split
  next => exact hdst
  next h =>
    have htake : 0 ∉ src.take (maxlen - dst.length) := fun hmem => hsrc (List.mem_of_mem_take hmem)
    have happended := hdst.append htake
    rw [Memory.run_append]
    change ((m.run (strncatStores dst src (maxlen - dst.length))).store ⟨maxlen - 1, 0⟩).Holds _
    by_cases hfits : dst.length + src.length < maxlen
    · -- The last NUL comes over the one that ends the string, or behind it.
      rw [List.take_of_length_le (by omega)] at happended
      rw [strncatStores, List.take_of_length_le (by omega),
        List.take_of_length_le (by rw [List.length_append]; omega)]
      rcases Nat.lt_or_ge (dst ++ src).length (maxlen - 1) with hlt | hge
      · exact happended.store_of_lt hlt
      · rw [List.length_append] at hge
        have hlast : maxlen - 1 = (dst ++ src).length := by
          rw [List.length_append]
          omega
        have hcut := happended.cut (i := maxlen - 1) hlast.le
        rwa [List.take_of_length_le hlast.ge] at hcut
    · have hlength : (dst ++ src.take (maxlen - dst.length)).length = maxlen := by
        rw [List.length_append, List.length_take]
        omega
      have hcut := happended.cut (i := maxlen - 1) (by omega)
      have hsame : (dst ++ src.take (maxlen - dst.length)).take (maxlen - 1) =
          (dst ++ src).take (maxlen - 1) := by
        rw [List.take_append, List.take_append, List.take_take, Nat.min_eq_left (by omega)]
      rwa [hsame] at hcut

/-! ### What addresses are written with -/

theorem mem_separated {sep : List UInt8} {numbers : List (List UInt8)} {b : UInt8}
    (h : b ∈ separated sep numbers) : b ∈ sep ∨ ∃ number ∈ numbers, b ∈ number := by
  cases numbers with
  | nil => exact absurd h List.not_mem_nil
  | cons number numbers =>
      rcases List.mem_append.mp h with h | h
      · exact Or.inr ⟨number, List.mem_cons_self, h⟩
      · obtain ⟨number', hnumber', h⟩ := List.mem_flatMap.mp h
        exact (List.mem_append.mp h).imp_right fun h => ⟨number', List.mem_cons_of_mem _ hnumber', h⟩

theorem mem_ipv4ToStr {ad : List UInt8} {b : UInt8} (h : b ∈ ipv4ToStr ad) :
    IsHexDigit b ∨ b = 46 := by
  rcases mem_separated h with h | ⟨_, hnumber, h⟩
  · exact Or.inr (List.mem_singleton.mp h)
  · obtain ⟨octet, _, rfl⟩ := List.mem_map.mp hnumber
    exact Or.inl (isHexDigit_of_mem_digits (by decide) (by decide) h)

theorem mem_etherToStr {ad : List UInt8} {b : UInt8} (h : b ∈ etherToStr ad) :
    IsHexDigit b ∨ b = 58 := by
  rcases mem_separated h with h | ⟨_, hnumber, h⟩
  · exact Or.inr (List.mem_singleton.mp h)
  · obtain ⟨octet, _, rfl⟩ := List.mem_map.mp hnumber
    exact Or.inl (isHexDigit_of_mem_padded
      (fun _ hb => isHexDigit_of_mem_digits (by decide) (by decide) hb) h)

theorem mem_ipv6ToStr {ad : List UInt8} {b : UInt8} (h : b ∈ ipv6ToStr ad) :
    IsHexDigit b ∨ b = 46 ∨ b = 58 := by
  have hipv4 : b ∈ ipv4ToStr (ad.drop 12) → IsHexDigit b ∨ b = 46 ∨ b = 58 :=
    fun h => (mem_ipv4ToStr h).imp_right Or.inl
  have hgroups : ∀ {gs : List Nat}, b ∈ separated (lit ":") (gs.map hex) →
      IsHexDigit b ∨ b = 46 ∨ b = 58 := by
    intro gs hb
    rcases mem_separated hb with hb | ⟨_, hnumber, hb⟩
    · exact Or.inr (Or.inr (List.mem_singleton.mp hb))
    · obtain ⟨group, _, rfl⟩ := List.mem_map.mp hnumber
      exact Or.inl (isHexDigit_of_mem_digits (by decide) (by decide) hb)
  have hcolons : ∀ b ∈ lit "::", IsHexDigit b ∨ b = 46 ∨ b = 58 :=
    forall_mem_lit (by decide)
  have hmapped : ∀ b ∈ lit "::ffff:", IsHexDigit b ∨ b = 46 ∨ b = 58 :=
    forall_mem_lit (by decide)
  rw [ipv6ToStr] at h
  dsimp only at h
  split_ifs at h
  · exact hgroups h
  · exact (List.mem_append.mp h).elim (hcolons b) hipv4
  · exact (List.mem_append.mp h).elim (hmapped b) hipv4
  · rcases List.mem_append.mp h with h | h
    · exact (List.mem_append.mp h).elim hgroups (hcolons b)
    · exact hgroups h

end EtherApe
