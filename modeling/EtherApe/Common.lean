import EtherApe.Lib.Octets
import EtherApe.Lib.SortedTree

/-!
# Common types

The types of `common.h`, `pkt_info.h` and `node_id.h` that the rest of the model shares: modes,
directions, addresses, node and link identifications, and the comparisons that order the catalogs.
Unions are blocks of bytes on a little-endian machine, as on the platforms the program is built for.
-/

namespace EtherApe

/-- How many protocol levels are tracked, one more for the topmost. -/
abbrev stackSize : Nat := 5

/-- A position of a protocol stack; level `0` holds the topmost protocol. -/
abbrev Level := Fin (stackSize + 1)

structure Timeval where
  tvSec : Int
  tvUsec : Int
deriving DecidableEq, Repr

inductive ApeMode
  | apemodeDefault
  | link6
  | ip
  | tcp
deriving DecidableEq, Repr

/-- The enumerator values of `apemode_t`. -/
def ApeMode.value : ApeMode → Int
  | .apemodeDefault => -1
  | .link6 => 0
  | .ip => 1
  | .tcp => 2

theorem ApeMode.value_injective {a b : ApeMode} (h : a.value = b.value) : a = b := by
  cases a <;> cases b <;> first | rfl | simp [value] at h

inductive PacketDirection
  | eitherbound
  | inbound
  | outbound
deriving DecidableEq, Repr

/-! ### Addresses -/

/-- `address_t`: the family in the first four bytes, the address in the other sixteen. -/
abbrev Address := Octets 20

def afInet : Nat := 2

def afInet6 : Nat := 10

namespace Address

def clear : Address := Octets.zero

/-- Stores the family, a host-order 32-bit number. -/
def setType (a : Address) (family : Nat) : Address :=
  a.write 0 4 fun i => UInt8.ofNat (family / 256 ^ i)

def setAddr (a : Address) (len : Nat) (src : Nat → UInt8) : Address := a.write 4 len src

def isAddrEq (dst src : Address) : Prop := memcmp (List.ofFn dst) (List.ofFn src) = 0

instance (a b : Address) : Decidable (isAddrEq a b) := inferInstanceAs (Decidable (_ = _))

theorem isAddrEq_iff {a b : Address} : isAddrEq a b ↔ a = b := by
  rw [isAddrEq, Memcmp.eq_zero_iff (by simp), List.ofFn_inj]

end Address

/-! ### Node identifications -/

/-- The packed union `node_addr_t`. A MAC fills bytes `0..5`, an address bytes `0..19`, and an
address with a port all of them, the port in host order. -/
abbrev NodeAddr := Octets 22

namespace NodeAddr

def eth (a : NodeAddr) : List UInt8 := a.firstBytes 6

def ip (a : NodeAddr) : Address := fun i => a ⟨i.val, by omega⟩

def tcp4Host (a : NodeAddr) : Address := a.ip

def tcp4Port (a : NodeAddr) : Nat := (a 20).toNat + 256 * (a 21).toNat

def setEth (a : NodeAddr) (src : Nat → UInt8) : NodeAddr := a.write 0 6 src

def setIp (a : NodeAddr) (addr : Address) : NodeAddr := a.write 0 20 (addr.bytesFrom 0)

def setTcp4Host (a : NodeAddr) (addr : Address) : NodeAddr := a.setIp addr

def setTcp4Port (a : NodeAddr) (port : Nat) : NodeAddr :=
  a.write 20 2 fun i => UInt8.ofNat (port / 256 ^ i)

@[simp] theorem ip_setIp (a : NodeAddr) (addr : Address) : (a.setIp addr).ip = addr := by
  funext k
  simp [ip, setIp, Octets.write, Octets.bytesFrom]

@[simp] theorem ip_setTcp4Port (a : NodeAddr) (port : Nat) : (a.setTcp4Port port).ip = a.ip := by
  funext k
  have hk := k.isLt
  simp only [ip, setTcp4Port, Octets.write]
  rw [if_neg (by omega)]

end NodeAddr

structure NodeId where
  nodeType : ApeMode
  addr : NodeAddr
deriving DecidableEq

def NodeId.clear : NodeId := ⟨.apemodeDefault, Octets.zero⟩

/-- The bytes of the union that the comparison of ids of each type looks at. -/
def NodeId.significant (id : NodeId) : List UInt8 :=
  match id.nodeType with
  | .apemodeDefault => []
  | .link6 => id.addr.firstBytes 6
  | .ip => id.addr.firstBytes 20
  | .tcp => id.addr.firstBytes 22

/-- Clips the result of `memcmp` to `-1`, `0` and `1`. -/
def clipSign (i : Int) : Int := if i > 1 then 1 else if i < -1 then -1 else i

def nodeIdCompare (na nb : NodeId) : Int :=
  if na.nodeType.value < nb.nodeType.value then -1
  else if na.nodeType.value > nb.nodeType.value then 1
  else
    match na.nodeType with
    | .apemodeDefault => 0
    | .link6 => clipSign (memcmp (na.addr.firstBytes 6) (nb.addr.firstBytes 6))
    | .ip => clipSign (memcmp (na.addr.firstBytes 20) (nb.addr.firstBytes 20))
    | .tcp => clipSign (memcmp (na.addr.firstBytes 22) (nb.addr.firstBytes 22))

structure LinkId where
  src : NodeId
  dst : NodeId
deriving DecidableEq

def linkIdCompare (a b : LinkId) : Int :=
  if nodeIdCompare a.src b.src ≠ 0 then nodeIdCompare a.src b.src else nodeIdCompare a.dst b.dst

/-! ### The order of the catalogs -/

theorem clipSign_neg (i : Int) : clipSign (-i) = -clipSign i := by
  unfold clipSign
  split_ifs <;> omega

theorem clipSign_le_zero {i : Int} : clipSign i ≤ 0 ↔ i ≤ 0 := by
  unfold clipSign
  split_ifs <;> omega

theorem clipSign_eq_zero {i : Int} : clipSign i = 0 ↔ i = 0 := by
  unfold clipSign
  split_ifs with hpos hneg
  · exact iff_of_false one_ne_zero (by omega)
  · exact iff_of_false (by decide) (by omega)
  · exact Iff.rfl

theorem clipSign_values (i : Int) : clipSign i = -1 ∨ clipSign i = 0 ∨ clipSign i = 1 := by
  unfold clipSign
  split_ifs <;> omega

theorem NodeId.significant_length {a b : NodeId} (h : a.nodeType = b.nodeType) :
    a.significant.length = b.significant.length := by
  unfold significant
  rw [h]
  cases b.nodeType <;> simp [Octets.firstBytes_length]

theorem nodeIdCompare_of_type_eq {a b : NodeId} (h : a.nodeType = b.nodeType) :
    nodeIdCompare a b = clipSign (memcmp a.significant b.significant) := by
  unfold nodeIdCompare NodeId.significant
  rw [h, if_neg (lt_irrefl _), if_neg (lt_irrefl _)]
  cases b.nodeType <;> rfl

theorem nodeIdCompare_of_type_lt {a b : NodeId} (h : a.nodeType.value < b.nodeType.value) :
    nodeIdCompare a b = -1 := if_pos h

theorem nodeIdCompare_of_type_gt {a b : NodeId} (h : b.nodeType.value < a.nodeType.value) :
    nodeIdCompare a b = 1 := by
  rw [nodeIdCompare, if_neg (not_lt.mpr h.le), if_pos h]

theorem type_le_of_nodeIdCompare_le {a b : NodeId} (h : nodeIdCompare a b ≤ 0) :
    a.nodeType.value ≤ b.nodeType.value := by
  by_contra hlt
  rw [nodeIdCompare_of_type_gt (not_le.mp hlt)] at h
  omega

/-- Two ids compare equal when they have one type and the same significant bytes. -/
theorem nodeIdCompare_eq_zero_iff {a b : NodeId} :
    nodeIdCompare a b = 0 ↔ a.nodeType = b.nodeType ∧ a.significant = b.significant := by
  by_cases htype : a.nodeType = b.nodeType
  · rw [nodeIdCompare_of_type_eq htype, clipSign_eq_zero,
      Memcmp.eq_zero_iff (NodeId.significant_length htype)]
    simp [htype]
  · have hne : nodeIdCompare a b ≠ 0 := by
      rcases lt_or_gt_of_ne fun h => htype (ApeMode.value_injective h) with hlt | hgt
      · rw [nodeIdCompare_of_type_lt hlt]
        decide
      · rw [nodeIdCompare_of_type_gt hgt]
        decide
    simp [hne, htype]

instance : ThreeWay nodeIdCompare where
  swap a b := by
    rcases lt_trichotomy a.nodeType.value b.nodeType.value with hlt | heq | hgt
    · rw [nodeIdCompare_of_type_lt hlt, nodeIdCompare_of_type_gt hlt, neg_neg]
    · have htype := ApeMode.value_injective heq
      rw [nodeIdCompare_of_type_eq htype, nodeIdCompare_of_type_eq htype.symm,
        Memcmp.swap a.significant, clipSign_neg]
    · rw [nodeIdCompare_of_type_lt hgt, nodeIdCompare_of_type_gt hgt]
  trans a b c := by
    intro hab hbc
    have htypeab := type_le_of_nodeIdCompare_le hab
    have htypebc := type_le_of_nodeIdCompare_le hbc
    rcases lt_or_eq_of_le (htypeab.trans htypebc) with hlt | heq
    · rw [nodeIdCompare_of_type_lt hlt]
      decide
    · have hsame : a.nodeType = b.nodeType := ApeMode.value_injective (by omega)
      have hsame' : b.nodeType = c.nodeType := ApeMode.value_injective (by omega)
      rw [nodeIdCompare_of_type_eq hsame, clipSign_le_zero] at hab
      rw [nodeIdCompare_of_type_eq hsame', clipSign_le_zero] at hbc
      rw [nodeIdCompare_of_type_eq (hsame.trans hsame'), clipSign_le_zero]
      exact Memcmp.le_trans (NodeId.significant_length hsame) (NodeId.significant_length hsame')
        hab hbc

instance : ThreeWay linkIdCompare :=
  ThreeWay.lex (f := LinkId.src) (g := LinkId.dst) (p := nodeIdCompare) (q := nodeIdCompare)

theorem linkIdCompare_eq_zero_iff {a b : LinkId} :
    linkIdCompare a b = 0 ↔ nodeIdCompare a.src b.src = 0 ∧ nodeIdCompare a.dst b.dst = 0 := by
  unfold linkIdCompare
  split_ifs with h <;> simp_all

theorem nodeIdCompare_values (a b : NodeId) :
    nodeIdCompare a b = -1 ∨ nodeIdCompare a b = 0 ∨ nodeIdCompare a b = 1 := by
  rcases lt_trichotomy a.nodeType.value b.nodeType.value with hlt | heq | hgt
  · exact Or.inl (nodeIdCompare_of_type_lt hlt)
  · rw [nodeIdCompare_of_type_eq (ApeMode.value_injective heq)]
    exact clipSign_values _
  · exact Or.inr (Or.inr (nodeIdCompare_of_type_gt hgt))

theorem linkIdCompare_values (a b : LinkId) :
    linkIdCompare a b = -1 ∨ linkIdCompare a b = 0 ∨ linkIdCompare a b = 1 := by
  unfold linkIdCompare
  split
  · exact nodeIdCompare_values a.src b.src
  · exact nodeIdCompare_values a.dst b.dst

/-! ### What the catalogs tell apart -/

/-- Two ids denote the same endpoint: they have one type and agree in the bytes of that type. -/
def NodeId.SameEndpoint (a b : NodeId) : Prop :=
  a.nodeType = b.nodeType ∧ a.significant = b.significant

/-- Two link ids denote the same pair of endpoints. -/
def LinkId.SameEndpoints (a b : LinkId) : Prop :=
  a.src.SameEndpoint b.src ∧ a.dst.SameEndpoint b.dst

/-- A total preorder read through the sign of a comparison that returns `-1`, `0` and `1`. -/
structure SignPreorder {κ : Type*} (cmp : κ → κ → Int) : Prop where
  values : ∀ a b, cmp a b = -1 ∨ cmp a b = 0 ∨ cmp a b = 1
  antisymmetric : ∀ a b, cmp b a = -cmp a b
  total : ∀ a b, cmp a b ≤ 0 ∨ cmp b a ≤ 0
  trans : ∀ a b c, cmp a b ≤ 0 → cmp b c ≤ 0 → cmp a c ≤ 0

/-- The trees ordered by `cmp` take two keys for one exactly when they are related by `same`. -/
structure TreesIdentify {κ : Type*} (cmp : κ → κ → Int) [ThreeWay cmp] (same : κ → κ → Prop) :
    Prop where
  lookup : ∀ k k', same k k' ↔ ∀ (ν : Type) (t : SortedTree cmp ν), t.lookup k = t.lookup k'
  insert : ∀ (ν : Type) (t : SortedTree cmp ν) (k k' : κ) (v : ν),
    (same k k' → (t.insert k v).lookup k' = some v) ∧
      (¬same k k' → (t.insert k v).lookup k' = t.lookup k')
  remove : ∀ (ν : Type) (t : SortedTree cmp ν) (k k' : κ),
    (same k k' → (t.remove k).lookup k' = none) ∧
      (¬same k k' → (t.remove k).lookup k' = t.lookup k')

theorem signPreorder_of_values {κ : Type*} {cmp : κ → κ → Int} [ThreeWay cmp]
    (h : ∀ a b, cmp a b = -1 ∨ cmp a b = 0 ∨ cmp a b = 1) : SignPreorder cmp where
  values := h
  antisymmetric a b := ThreeWay.swap a b
  total a b := by
    have hswap := @ThreeWay.swap _ cmp _ a b
    omega
  trans a b c := ThreeWay.trans a b c

theorem treesIdentify_of_eq_zero_iff {κ : Type*} {cmp : κ → κ → Int} [ThreeWay cmp]
    {same : κ → κ → Prop} (h : ∀ a b, cmp a b = 0 ↔ same a b) : TreesIdentify cmp same where
  lookup k k' := by
    rw [← h]
    constructor
    · intro hk ν t
      exact SortedTree.lookup_congr hk
    · intro hlookup
      -- The tree that holds `k` alone tells the two keys apart.
      have hfound := hlookup Unit (SortedTree.empty.insert k ())
      rw [SortedTree.lookup_insert_eq, SortedTree.lookup_insert_eq, if_pos (ThreeWay.refl k)] at hfound
      by_contra hne
      rw [if_neg hne] at hfound
      exact absurd hfound (Option.some_ne_none ())
  insert ν t k k' v := by
    rw [← h, SortedTree.lookup_insert_eq]
    exact ⟨fun hk => if_pos hk, fun hk => if_neg hk⟩
  remove ν t k k' := by
    rw [← h, SortedTree.lookup_remove_eq]
    exact ⟨fun hk => if_pos hk, fun hk => if_neg hk⟩

theorem linkIdCompare_eq_zero_iff_same {a b : LinkId} :
    linkIdCompare a b = 0 ↔ a.SameEndpoints b := by
  rw [linkIdCompare_eq_zero_iff, nodeIdCompare_eq_zero_iff, nodeIdCompare_eq_zero_iff]
  exact Iff.rfl

/-- The node and link catalogs are ordered by total preorders, the second lexicographic over the
first, and identify exactly the ids that denote the same endpoints. -/
theorem catalogs_identify_endpoints :
    SignPreorder nodeIdCompare ∧
      (∀ a b : NodeId, nodeIdCompare a b = 0 ↔ a.SameEndpoint b) ∧
      SignPreorder linkIdCompare ∧
      (∀ a b : LinkId, linkIdCompare a b < 0 ↔ nodeIdCompare a.src b.src < 0 ∨
        nodeIdCompare a.src b.src = 0 ∧ nodeIdCompare a.dst b.dst < 0) ∧
      (∀ a b : LinkId, linkIdCompare a b = 0 ↔ a.SameEndpoints b) ∧
      TreesIdentify nodeIdCompare NodeId.SameEndpoint ∧
      TreesIdentify linkIdCompare LinkId.SameEndpoints := by
  refine ⟨signPreorder_of_values nodeIdCompare_values, fun a b => nodeIdCompare_eq_zero_iff,
    signPreorder_of_values linkIdCompare_values, fun a b => ?_,
    fun a b => linkIdCompare_eq_zero_iff_same,
    treesIdentify_of_eq_zero_iff fun a b => nodeIdCompare_eq_zero_iff,
    treesIdentify_of_eq_zero_iff fun a b => linkIdCompare_eq_zero_iff_same⟩
  unfold linkIdCompare
  split <;> omega

end EtherApe
