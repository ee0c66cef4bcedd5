import EtherApe.DecodeProto.Endpoints
import EtherApe.Names.Termination
import EtherApe.NamesNetbios.Reads

/-!
# Reads of the name decoder

What the name decoder reads comes in a fixed order: each header it comes to, then the encoded names there.
All of it is in the packet just when every reading is that it comes to; a name without an end is the last
one.
-/

namespace EtherApe

open CInt Iteration

/-! ### Headers -/

/-- How far in front of a TCP header its decoder takes the address to be. -/
def tcpAddressBack (inp : NameInput) (family : Nat) : Nat :=
  (if inp.dir = .outbound then 8 else 4) * if family = afInet6 then 4 else 1

def tcpPortOff (inp : NameInput) : Nat := if inp.dir = .outbound then 0 else 2

/-- The decoder of a TCP header at `off` takes the address from in front of the packet: the place is
negative, but with the length of the address it passes for a small size. -/
def TcpAddressBefore (inp : NameInput) (family off : Nat) : Prop :=
  off < tcpAddressBack inp family ∧ tcpAddressBack inp family ≤ off + addressLen family ∧
    off + tcpPortOff inp + 2 ≤ inp.packet.packetSize

/-- The address family in the node id after the decoder of a header at `off`. -/
def NameFun.family (mode : ApeMode) (inp : NameInput) (off family : Nat) : NameFun → Nat
  | getLink6Name =>
      let disp : Int := if inp.dir = .inbound then 0 else 6
      if fillFits inp off disp 0 6 then (filledNodeId inp .link6 off disp 0 0).addr.tcp4Host.type
      else 0
  | getIpName => if fillFits inp off (if inp.dir = .inbound then 16 else 12) 0 4 then afInet else 0
  | getIpv6Name => if fillFits inp off (if inp.dir = .inbound then 24 else 8) 0 16 then afInet6 else 0
  | getTcpName =>
      if mode = .tcp ∧ ¬fillFits inp off (-(tcpAddressBack inp family : Int)) (tcpPortOff inp)
          (addressLen family) then 0
      else family
  | _ => family

/-- Whether the decoder of a header at `off` reads captured bytes only, as far as its own reads go. -/
def NameFun.Inside (mode : ApeMode) (inp : NameInput) (family off : Nat) : NameFun → Prop
  | getTcpName => mode = .tcp → ¬TcpAddressBefore inp family off
  | getIpxsapName =>
      ¬(off = 65532 ∧ inp.packet.packetSize = 65535 ∧ inp.pntohs off = 2 ∧
        ∃ i < 65535, inp.packet.p (i : Nat) = 0)
  | getNbssName => ¬(inp.byte off = 0x81 ∧ inp.packet.packetSize = off + 5)
  | _ => True

/-! ### Readings -/

/-- A header with the address family in the node id, or the start of an encoded name. -/
inductive Reading
  | header (fn : NameFun) (family off : Nat)
  | name (start : Int)

namespace Reading

def Inside (mode : ApeMode) (inp : NameInput) : Reading → Prop
  | header fn family off => fn.Inside mode inp family off
  | name start => ∀ place, Visits (chain inp.packet start) start place → 0 ≤ place

/-- The name decoder gets past the reading. -/
def Ends (inp : NameInput) : Reading → Prop
  | header _ _ _ => True
  | name start => ¬Circular inp.packet start

end Reading

/-- Every reading that is come to is inside the packet. -/
def ReadingsInside (mode : ApeMode) (inp : NameInput) : List Reading → Prop
  | [] => True
  | r :: rs => r.Inside mode inp ∧ (r.Ends inp → ReadingsInside mode inp rs)

def NameFun.readings (inp : NameInput) (family off : Nat) (fn : NameFun) : List Reading :=
  .header fn family off :: (fn.encodedNames inp off).map .name

/-- The readings of the headers, of which the first finds the given address family in the node id. -/
def readingsFrom (mode : ApeMode) (inp : NameInput) : Nat → List NameHeader → List Reading
  | _, [] => []
  | family, h :: hs =>
      h.fn.readings inp family h.off ++ readingsFrom mode inp (h.fn.family mode inp h.off family) hs

def readings (mode : ApeMode) (inp : NameInput) (uninit : NodeId) : List Reading :=
  readingsFrom mode inp uninit.addr.tcp4Host.type (headers inp)

/-! ### Readings in so many rounds -/

section Rounds

variable (mode : ApeMode) (inp : NameInput) (rounds : Nat)

def Reading.InsideWithin : Reading → Prop
  | header fn family off => fn.Inside mode inp family off
  | name start => StaysWithin inp.packet rounds start start

def Reading.EndsWithin : Reading → Prop
  | header _ _ _ => True
  | name start => EnoughRounds inp rounds start

def ReadingsInsideWithin : List Reading → Prop
  | [] => True
  | r :: rs => r.InsideWithin mode inp rounds ∧ (r.EndsWithin inp rounds → ReadingsInsideWithin rs)

end Rounds

section Limit

variable {mode : ApeMode} {inp : NameInput} {rounds rounds' : Nat}

theorem Reading.EndsWithin.mono (hle : rounds ≤ rounds') {r : Reading}
    (h : r.EndsWithin inp rounds) : r.EndsWithin inp rounds' := by
  cases r with
  | header fn family off => exact trivial
  | name start => exact EnoughRounds.mono hle h

theorem Reading.InsideWithin.anti (hle : rounds ≤ rounds') {r : Reading}
    (h : r.InsideWithin mode inp rounds') : r.InsideWithin mode inp rounds := by
  cases r with
  | header fn family off => exact h
  | name start => exact fun k hk => h k (hk.trans_le hle)

theorem ReadingsInsideWithin.anti (hle : rounds ≤ rounds') {rs : List Reading}
    (h : ReadingsInsideWithin mode inp rounds' rs) : ReadingsInsideWithin mode inp rounds rs := by
  induction rs with
  | nil => exact trivial
  | cons r rs ih => exact ⟨h.1.anti hle, fun hends => ih (h.2 (hends.mono hle))⟩

theorem Reading.inside_iff (r : Reading) :
    r.Inside mode inp ↔ ∀ rounds, r.InsideWithin mode inp rounds := by
  cases r with
  | header fn family off => exact ⟨fun h _ => h, fun h => h 0⟩
  | name start =>
      constructor
      · rintro h rounds k _ place hplace
        exact h place ⟨k, hplace⟩
      · rintro h place ⟨k, hplace⟩
        exact h (k + 1) k (Nat.lt_succ_self k) place hplace

theorem Reading.ends_iff (r : Reading) : r.Ends inp ↔ ∃ rounds, r.EndsWithin inp rounds := by
  cases r with
  | header fn family off => exact ⟨fun _ => ⟨0, trivial⟩, fun _ => trivial⟩
  | name start =>
      exact (ends_chain_iff inp.packet start).symm.trans (exists_enoughRounds_iff inp start).symm

theorem readingsInside_iff (rs : List Reading) :
    ReadingsInside mode inp rs ↔ ∀ rounds, ReadingsInsideWithin mode inp rounds rs := by
  induction rs with
  | nil => exact ⟨fun _ _ => trivial, fun _ => trivial⟩
  | cons r rs ih =>
      rw [ReadingsInside, r.inside_iff, r.ends_iff, ih]
      constructor
      · rintro ⟨hinside, hrest⟩ rounds
        exact ⟨hinside rounds, fun hends => hrest ⟨rounds, hends⟩ rounds⟩
      · intro h
        refine ⟨fun rounds => (h rounds).1, ?_⟩
        rintro ⟨enough, hends⟩ rounds
        -- with more rounds the reading ends as well
        have hmax := (h (max rounds enough)).2 (hends.mono (le_max_right _ _))
        exact hmax.anti (le_max_left _ _)

theorem readingsInsideWithin_append (rs rs' : List Reading) :
    ReadingsInsideWithin mode inp rounds (rs ++ rs') ↔
      ReadingsInsideWithin mode inp rounds rs ∧
        ((∀ r ∈ rs, r.EndsWithin inp rounds) → ReadingsInsideWithin mode inp rounds rs') := by
  induction rs with
  | nil => simp [ReadingsInsideWithin]
  | cons r rs ih =>
      rw [List.cons_append, ReadingsInsideWithin, ih, ReadingsInsideWithin, List.forall_mem_cons]
      constructor
      · rintro ⟨hr, hrest⟩
        exact ⟨⟨hr, fun hends => (hrest hends).1⟩, fun ⟨hends, hall⟩ => (hrest hends).2 hall⟩
      · rintro ⟨⟨hr, hrest⟩, hrest'⟩
        exact ⟨hr, fun hends => ⟨hrest hends, fun hall => hrest' ⟨hends, hall⟩⟩⟩

end Limit

/-! ### Reads of the decoders -/

namespace NameAdd

/-- Everything read so far was captured. -/
def ReadsOk (inp : NameInput) (nt : NameAdd) : Prop := ∀ i ∈ nt.reads, inp.packet.Captured i

section ReadsOk

variable {env : NamesEnv} {inp : NameInput} {rounds : Nat} {nt : NameAdd}

@[simp] theorem readsOk_advance (n : Nat) : (nt.advance n).ReadsOk inp ↔ nt.ReadsOk inp := Iff.rfl

@[simp] theorem readsOk_nextLevel : nt.nextLevel.ReadsOk inp ↔ nt.ReadsOk inp := Iff.rfl

@[simp] theorem readsOk_setNodeId (id : NodeId) : (nt.setNodeId id).ReadsOk inp ↔ nt.ReadsOk inp :=
  Iff.rfl

@[simp] theorem readsOk_addName (numeric : List UInt8) (resolved : Option (List UInt8)) :
    (nt.addName inp numeric resolved).ReadsOk inp ↔ nt.ReadsOk inp := Iff.rfl

@[simp] theorem readsOk_addAddressName (numeric : List UInt8) :
    (addAddressName env inp numeric nt).ReadsOk inp ↔ nt.ReadsOk inp := Iff.rfl

@[simp] theorem readsOk_addNetbiosName (found : NbnsName) :
    (addNetbiosName inp found nt).ReadsOk inp ↔ nt.ReadsOk inp := by
  unfold addNetbiosName
  dsimp only
  split
  · rfl
  · rfl

theorem readsOk_touch (indices : List Int) :
    (nt.touch indices).ReadsOk inp ↔ nt.ReadsOk inp ∧ ∀ i ∈ indices, inp.packet.Captured i := by
  simp only [NameAdd.ReadsOk, NameAdd.touch_reads, List.forall_mem_append]

theorem readsOk_touch_indicesFrom {i n : Nat} (hend : i + n ≤ inp.packet.packetSize) :
    (nt.touch (indicesFrom i n)).ReadsOk inp ↔ nt.ReadsOk inp := by
  rw [readsOk_touch]
  refine and_iff_left fun j hj => ?_
  have hbounds := mem_indicesFrom.mp hj
  exact ⟨by omega, by omega⟩

theorem fillSize_le (apemode : ApeMode) (type : Nat) : fillSize apemode type ≤ 16 := by
  unfold fillSize addressLen
  cases apemode with
  | apemodeDefault => exact Nat.zero_le 16
  | link6 => exact (by decide : 6 ≤ 16)
  | ip =>
      dsimp only
      split_ifs <;> decide
  | tcp =>
      dsimp only
      split_ifs <;> decide

/-- `fill_node_id` reads captured bytes only, unless a negative place passes its check. -/
theorem readsOk_fillNodeId {apemode : ApeMode} {disp portdisp : Int} {type : Nat}
    (hoff : nt.offset < 65536) (hlow : -65536 ≤ disp) (hhigh : disp ≤ 65536) (hport : 0 ≤ portdisp) :
    (fillNodeId inp apemode disp portdisp type nt).ReadsOk inp ↔
      nt.ReadsOk inp ∧
        (fillFits inp nt.offset disp portdisp (fillSize apemode type) → 0 ≤ nt.offset + disp) := by
  have hsize := inp.packet.packetSize_lt
  have hlen := fillSize_le apemode type
  unfold fillNodeId
  split_ifs with hfits
  · rw [readsOk_setNodeId, readsOk_touch]
    refine and_congr_right fun _ => ?_
    rw [imp_iff_right hfits, fillReads, List.forall_mem_append]
    obtain ⟨haddress, hportEnd⟩ := hfits
    have hportReads : ∀ i ∈ (if apemode = .tcp then indicesFrom (nt.offset + portdisp) 2 else []),
        inp.packet.Captured i := by
      intro i hi
      split_ifs at hi
      · have hbounds := mem_indicesFrom.mp hi
        exact ⟨by omega, by omega⟩
      · exact absurd hi List.not_mem_nil
    rw [and_iff_left hportReads]
    unfold unsigned at haddress
    constructor
    · intro hreads
      by_contra hneg
      -- a negative place passes only with the length of an address
      have hpos : 0 < fillSize apemode type := by omega
      have hfirst := hreads (nt.offset + disp) (mem_indicesFrom.mpr (by omega))
      exact hneg hfirst.1
    · intro hplace i hi
      have hbounds := mem_indicesFrom.mp hi
      exact ⟨by omega, by omega⟩
  · rw [readsOk_setNodeId]
    exact (and_iff_left fun h => absurd h hfits).symm

theorem readsOk_fillNodeId_of_nonneg {apemode : ApeMode} {disp : Int} {type : Nat}
    (hoff : nt.offset < 65536) (hlow : 0 ≤ disp) (hhigh : disp ≤ 65536) :
    (fillNodeId inp apemode disp 0 type nt).ReadsOk inp ↔ nt.ReadsOk inp := by
  rw [readsOk_fillNodeId hoff (by omega) hhigh le_rfl]
  exact and_iff_left fun _ => by omega

/-- Where the address in front of a TCP header passes the check. -/
theorem fillFits_back_iff {family off : Nat} (hoff : off < 65536) :
    (fillFits inp off (-(tcpAddressBack inp family : Int)) (tcpPortOff inp) (addressLen family) →
        0 ≤ (off : Int) + -(tcpAddressBack inp family : Int)) ↔
      ¬TcpAddressBefore inp family off := by
  have hsize := inp.packet.packetSize_lt
  have hback : tcpAddressBack inp family ≤ 32 := by
    unfold tcpAddressBack
    split_ifs <;> decide
  have hlen : addressLen family ≤ tcpAddressBack inp family := by
    unfold addressLen tcpAddressBack
    split_ifs <;> simp_all [afInet, afInet6]
  unfold fillFits TcpAddressBefore unsigned
  omega

theorem addTcpName_spec (env : NamesEnv) (inp : NameInput) (nt : NameAdd) :
    ∃ numeric resolved, addTcpName env inp nt =
      (fillNodeId inp .tcp (-(tcpAddressBack inp nt.nodeId.addr.tcp4Host.type : Int)) (tcpPortOff inp)
        nt.nodeId.addr.tcp4Host.type nt).addName inp numeric resolved := by
  unfold addTcpName tcpAddressBack tcpPortOff
  dsimp only
  by_cases hout : inp.dir = .outbound
  · rw [if_pos hout, if_pos hout, if_pos hout]
    push_cast
    rw [← neg_mul]
    exact ⟨_, _, rfl⟩
  · rw [if_neg hout, if_neg hout, if_neg hout]
    push_cast
    rw [← neg_mul]
    exact ⟨_, _, rfl⟩

theorem readsOk_addTcpName (hoff : nt.offset < 65536) :
    (addTcpName env inp nt).ReadsOk inp ↔
      nt.ReadsOk inp ∧ ¬TcpAddressBefore inp nt.nodeId.addr.tcp4Host.type nt.offset := by
  have hback : tcpAddressBack inp nt.nodeId.addr.tcp4Host.type ≤ 32 := by
    unfold tcpAddressBack
    split_ifs <;> decide
  obtain ⟨numeric, resolved, heq⟩ := addTcpName_spec env inp nt
  rw [heq, readsOk_addName, readsOk_fillNodeId hoff (by omega) (by omega) (by omega),
    ← fillFits_back_iff hoff]
  rfl

theorem scanZero_length_le (inp : NameInput) (n start : Nat) :
    (scanZero inp n start).1.length ≤ n := by
  induction n generalizing start with
  | zero => exact le_rfl
  | succ n ih =>
      rw [scanZero]
      dsimp only
      split
      · exact Nat.zero_le _
      · exact Nat.succ_le_succ (ih (start + 1))

/-- A search that has found the end finds it as well when it may go further. -/
theorem scanZero_found {inp : NameInput} {n start : Nat} (h : (scanZero inp n start).2 = true) :
    (scanZero inp n start).1.length < n ∧
      ∀ m, n ≤ m → scanZero inp m start = scanZero inp n start := by
  induction n generalizing start with
  | zero => cases h
  | succ n ih =>
      rw [scanZero] at h
      dsimp only at h
      split at h
      next hzero =>
        refine ⟨by rw [scanZero, if_pos hzero]; exact Nat.succ_pos n, fun m hm => ?_⟩
        obtain ⟨m, rfl⟩ := Nat.exists_eq_add_of_le' (Nat.one_le_of_lt hm)
        rw [scanZero, if_pos hzero, scanZero, if_pos hzero]
      next hne =>
        obtain ⟨hlen, hfurther⟩ := ih h
        refine ⟨by rw [scanZero, if_neg hne]; exact Nat.succ_lt_succ hlen, fun m hm => ?_⟩
        obtain ⟨m, rfl⟩ := Nat.exists_eq_add_of_le' (Nat.one_le_of_lt hm)
        rw [scanZero, scanZero, hfurther m (Nat.le_of_succ_le_succ hm)]

theorem scanZero_found_iff (inp : NameInput) (n start : Nat) :
    (scanZero inp n start).2 = true ↔ ∃ i < start + n, start ≤ i ∧ inp.packet.p (i : Nat) = 0 := by
  induction n generalizing start with
  | zero =>
      refine iff_of_false (by simp [scanZero]) ?_
      rintro ⟨i, hlt, hle, _⟩
      omega
  | succ n ih =>
      rw [scanZero]
      dsimp only
      split
      next hzero => exact iff_of_true rfl ⟨start, by omega, le_rfl, hzero⟩
      next hne =>
        rw [ih (start + 1)]
        constructor
        · rintro ⟨i, hlt, hle, hi⟩
          exact ⟨i, by omega, by omega, hi⟩
        · rintro ⟨i, hlt, hle, hi⟩
          have hstart : i ≠ start := by
            rintro rfl
            exact hne hi
          exact ⟨i, by omega, by omega, hi⟩

/-- The search for the end of a SAP name stays in the packet; the name itself does not if its position
has overflowed. -/
theorem readsOk_getIpxsapName (hlt : nt.offset < inp.packet.packetSize) :
    (getIpxsapName inp nt).2.ReadsOk inp ↔
      nt.ReadsOk inp ∧ ¬(nt.offset = 65532 ∧ inp.packet.packetSize = 65535 ∧
        inp.pntohs nt.offset = 2 ∧ ∃ i < 65535, inp.packet.p (i : Nat) = 0) := by
  have hsize := inp.packet.packetSize_lt
  unfold getIpxsapName
  dsimp only
  split
  next hshort => exact (and_iff_left fun ⟨hoff, hfull, _⟩ => by omega).symm
  next hlong =>
    have htype : (nt.touch (indicesFrom nt.offset 2)).ReadsOk inp ↔ nt.ReadsOk inp :=
      readsOk_touch_indicesFrom (by omega)
    split
    next hother => exact htype.trans (and_iff_left fun ⟨_, _, hresponse, _⟩ => hother hresponse).symm
    next hresponse =>
      simp only [NameAdd.touch_offset]
      have hlength := scanZero_length_le inp
        (inp.packet.packetSize - (nt.offset + 4) % 65536) ((nt.offset + 4) % 65536)
      have hzero := scanZero_found_iff inp
        (inp.packet.packetSize - (nt.offset + 4) % 65536) ((nt.offset + 4) % 65536)
      rcases hscan : scanZero inp (inp.packet.packetSize - (nt.offset + 4) % 65536)
        ((nt.offset + 4) % 65536) with ⟨name, found⟩
      rw [hscan] at hlength hzero
      dsimp only at hlength hzero ⊢
      cases found with
      | false =>
          have hsearch : ((nt.touch (indicesFrom nt.offset 2)).touch
              (indicesFrom ((nt.offset + 4) % 65536 : Nat) name.length)).ReadsOk inp ↔
                nt.ReadsOk inp := by
            by_cases hempty : name.length = 0
            · rw [hempty, readsOk_touch]
              exact (and_iff_left (by simp [indicesFrom])).trans htype
            · exact (readsOk_touch_indicesFrom (by omega)).trans htype
          rw [if_pos Bool.false_ne_true, if_neg Bool.false_ne_true]
          refine hsearch.trans (and_iff_left ?_).symm
          rintro ⟨hoff, hfull, _, i, hi, hbyte⟩
          have hnone := hzero.mpr ⟨i, by omega, by omega, hbyte⟩
          cases hnone
      | true =>
          obtain ⟨hlt', hfurther⟩ := scanZero_found (congrArg Prod.snd hscan)
          rw [hscan] at hlt' hfurther
          dsimp only at hlt' hfurther
          have hsearch : ((nt.touch (indicesFrom nt.offset 2)).touch
              (indicesFrom ((nt.offset + 4) % 65536 : Nat) (name.length + 1))).ReadsOk inp ↔
                nt.ReadsOk inp := (readsOk_touch_indicesFrom (by omega)).trans htype
          rw [if_neg (not_not.mpr rfl), if_pos rfl, readsOk_addName, readsOk_touch, hsearch]
          refine and_congr_right fun _ => ?_
          by_cases hover : nt.offset = 65532
          · -- the position has overflowed, and the name lies behind the packet
            refine iff_of_false (fun hall => ?_) ?_
            · have hfirst := hall (nt.offset + 4) (mem_indicesFrom.mpr (by omega))
              have hlast := hfirst.2
              omega
            · have hfull : inp.packet.packetSize = 65535 := by omega
              obtain ⟨i, hi, _, hbyte⟩ := hzero.mp rfl
              exact not_not.mpr ⟨hover, hfull, not_not.mp hresponse, i, by omega, hbyte⟩
          · have hexact : (nt.offset + 4) % 65536 = nt.offset + 4 := by omega
            rw [hexact] at hfurther hlt'
            rw [hfurther 65536 (by omega)]
            refine iff_of_true (fun i hi => ?_) fun h => hover h.1
            have hbounds := mem_indicesFrom.mp hi
            dsimp only at hbounds
            exact ⟨by omega, by omega⟩

/-! ### Readings of the decoders -/

theorem readsOk_nbnsNames (env : NamesEnv) (rounds : Nat) (nt : NameAdd)
    (hpos : 0 < inp.packet.packetSize) (second : Bool) :
    (nbnsNames env inp rounds second nt).2.ReadsOk inp ↔
      nt.ReadsOk inp ∧ ReadingsInsideWithin env.mode inp rounds
        ((namesFrom inp nt.offset second).map .name) := by
  have hname : ∀ start,
      (∀ i ∈ (etherealNbnsName env.stray rounds inp.packet start nameSize).2, inp.packet.Captured i) ↔
        StaysWithin inp.packet rounds start start := fun start =>
    getDnsName_captured_iff env.stray.stack rounds hpos
  unfold nbnsNames namesFrom
  rw [List.map_cons, ReadingsInsideWithin, Reading.InsideWithin, Reading.EndsWithin, ← hname,
    ← etherealNbnsName_isSome_iff]
  rcases hfirst : etherealNbnsName env.stray rounds inp.packet nt.offset nameSize with
    ⟨_ | name, reads⟩
  · rw [readsOk_touch]
    exact and_congr_right fun _ => (and_iff_left fun h => absurd h (by simp)).symm
  · have hlen : name.nameLen = fieldLength inp.packet nt.offset := etherealNbnsName_nameLen hfirst
    cases second with
    | false =>
        dsimp only
        rw [if_neg Bool.false_ne_true, readsOk_touch]
        exact and_congr_right fun _ => (and_iff_left fun _ => trivial).symm
    | true =>
        dsimp only
        rw [if_pos rfl, readsOk_touch, List.forall_mem_append, hlen]
        refine and_congr_right fun _ => and_congr_right fun _ => ?_
        rw [hname]
        simp [ReadingsInsideWithin, Reading.InsideWithin]

/-- A session request is read beyond the packet if its length has only one captured byte. -/
theorem readsOk_getSessionRequestName {off : Nat} (hlt : off < inp.packet.packetSize)
    (hoff : nt.offset = (off + 2) % 65536) :
    (getSessionRequestName env inp rounds nt).2.ReadsOk inp ↔
      nt.ReadsOk inp ∧ ¬inp.packet.packetSize = off + 5 ∧
        ReadingsInsideWithin env.mode inp rounds
          ((match sessionRequest inp off with
            | some (start, _) => namesFrom inp start (inp.dir = PacketDirection.outbound)
            | none => []).map .name) := by
  have hsize := inp.packet.packetSize_lt
  have hempty : ReadingsInsideWithin env.mode inp rounds [] := trivial
  unfold getSessionRequestName sessionRequest
  rw [← hoff]
  dsimp only
  by_cases hshort : inp.packet.packetSize ≤ nt.offset + 2
  · rw [if_pos hshort, if_pos hshort]
    exact (and_iff_left ⟨by omega, hempty⟩).symm
  · rw [if_neg hshort, if_neg hshort]
    have hlength : (nt.touch (indicesFrom (nt.offset + 2) 2)).ReadsOk inp ↔
        nt.ReadsOk inp ∧ ¬inp.packet.packetSize = off + 5 := by
      rw [readsOk_touch]
      refine and_congr_right fun _ => ⟨fun hreads hcut => ?_, fun hcut i hi => ?_⟩
      · have hlast := hreads (nt.offset + 3) (mem_indicesFrom.mpr (by omega))
        have hend := hlast.2
        omega
      · have hbounds := mem_indicesFrom.mp hi
        exact ⟨by omega, by omega⟩
    rw [← and_assoc, ← hlength]
    by_cases hdata : inp.packet.packetSize ≤
        (nt.offset + 2) % 65536 + inp.pntohs ((nt.offset + 2 : Nat) : Int)
    · rw [if_pos hdata]
      rw [if_pos (by simpa using hdata)]
      exact (and_iff_left hempty).symm
    · rw [if_neg hdata]
      rw [if_neg (by simpa using hdata)]
      refine Iff.trans ?_ (readsOk_nbnsNames env rounds
        ((nt.touch (indicesFrom (nt.offset + 2) 2)).advance 2) (Nat.zero_lt_of_lt hlt)
        (inp.dir = .outbound))
      rcases nbnsNames env inp rounds (inp.dir = .outbound)
        ((nt.touch (indicesFrom (nt.offset + 2) 2)).advance 2) with ⟨_ | found, nt₂⟩
      · rfl
      · exact readsOk_addNetbiosName found

theorem readings_insideWithin_iff (mode : ApeMode) (fn : NameFun) (family off : Nat) :
    ReadingsInsideWithin mode inp rounds (fn.readings inp family off) ↔
      fn.Inside mode inp family off ∧
        ReadingsInsideWithin mode inp rounds ((fn.encodedNames inp off).map .name) :=
  and_congr_right fun _ => true_imp_iff

theorem readsOk_call (env : NamesEnv) (rounds : Nat) (nt : NameAdd) (f : NameFun)
    (hlt : nt.offset < inp.packet.packetSize) :
    (f.call env inp rounds nt).2.ReadsOk inp ↔
      nt.ReadsOk inp ∧ ReadingsInsideWithin env.mode inp rounds
        (f.readings inp nt.nodeId.addr.tcp4Host.type nt.offset) := by
  have hsize := inp.packet.packetSize_lt
  have hoff : nt.offset < 65536 := hlt.trans hsize
  have hempty : ReadingsInsideWithin env.mode inp rounds [] := trivial
  rw [readings_insideWithin_iff]
  cases f with
  | getLink6Name =>
      have hfill : (fillNodeId inp .link6 (if inp.dir = .inbound then 0 else 6) 0 0 nt).ReadsOk inp ↔
          nt.ReadsOk inp := by
        split
        · exact readsOk_fillNodeId_of_nonneg hoff le_rfl (by decide)
        · exact readsOk_fillNodeId_of_nonneg hoff (by decide) (by decide)
      exact hfill.trans (and_iff_left ⟨trivial, hempty⟩).symm
  | getNullName => exact (and_iff_left ⟨trivial, hempty⟩).symm
  | getLinuxSllName => exact (and_iff_left ⟨trivial, hempty⟩).symm
  | getLlcName =>
      refine Iff.trans ?_ (and_iff_left ⟨trivial, hempty⟩).symm
      rw [NameFun.call, EtherApe.getLlcName]
      split_ifs <;> rfl
  | getArpName =>
      refine Iff.trans ?_ (and_iff_left ⟨trivial, hempty⟩).symm
      have htype (hlong : ¬inp.packet.packetSize ≤ nt.offset + 4) :
          (nt.touch (indicesFrom (nt.offset + 2 : Nat) 2)).ReadsOk inp ↔ nt.ReadsOk inp :=
        readsOk_touch_indicesFrom (by omega)
      rw [NameFun.call, EtherApe.getArpName]
      dsimp only
      split_ifs with hin hshort hother hshort'
      · rfl
      · rfl
      · exact htype hshort
      · exact htype hshort
      · have hlens : ((nt.touch (indicesFrom (nt.offset + 2 : Nat) 2)).touch
            (indicesFrom (nt.offset + 4 : Nat) 2)).ReadsOk inp ↔ nt.ReadsOk inp :=
          (readsOk_touch_indicesFrom (by rw [NameAdd.touch_offset] at hshort'; omega)).trans
            (htype hshort)
        have hhardware : inp.byte (nt.offset + 4 : Nat) < 256 := UInt8.toNat_lt _
        refine Iff.trans ?_ hlens
        refine readsOk_fillNodeId_of_nonneg hoff (by positivity) ?_
        change (8 : Int) + inp.byte (nt.offset + 4 : Nat) ≤ 65536
        omega
  | getIpName =>
      have hfill : (fillNodeId inp .ip (if inp.dir = .inbound then 16 else 12) 0 afInet nt).ReadsOk inp ↔
          nt.ReadsOk inp := by
        split
        · exact readsOk_fillNodeId_of_nonneg hoff (by decide) (by decide)
        · exact readsOk_fillNodeId_of_nonneg hoff (by decide) (by decide)
      refine Iff.trans ?_ (and_iff_left ⟨trivial, hempty⟩).symm
      rw [NameFun.call, EtherApe.getIpName]
      rw [if_pos (by simpa using hlt)]
      refine (readsOk_touch _).trans ?_
      rw [readsOk_addAddressName, hfill, addAddressName_offset, fillNodeId_offset,
        List.forall_mem_singleton]
      exact and_iff_left ⟨by omega, by omega⟩
  | getIpv6Name =>
      have hfill : (fillNodeId inp .ip (if inp.dir = .inbound then 24 else 8) 0 afInet6 nt).ReadsOk inp ↔
          nt.ReadsOk inp := by
        split
        · exact readsOk_fillNodeId_of_nonneg hoff (by decide) (by decide)
        · exact readsOk_fillNodeId_of_nonneg hoff (by decide) (by decide)
      exact hfill.trans (and_iff_left ⟨trivial, hempty⟩).symm
  | getIpxName => exact (and_iff_left ⟨trivial, hempty⟩).symm
  | getTcpName =>
      rw [NameFun.call, EtherApe.getTcpName]
      dsimp only
      have hoffset : (if env.mode = .tcp then addTcpName env inp nt else nt).offset = nt.offset := by
        split <;> simp
      have hreads : (if env.mode = .tcp then addTcpName env inp nt else nt).ReadsOk inp ↔
          nt.ReadsOk inp ∧
            (NameFun.getTcpName).Inside env.mode inp nt.nodeId.addr.tcp4Host.type nt.offset := by
        unfold NameFun.Inside
        split
        next hmode => rw [imp_iff_right hmode, readsOk_addTcpName hoff]
        next hmode => exact (and_iff_left fun h => absurd h hmode).symm
      refine Iff.trans ?_ (hreads.trans (and_congr_right fun _ => (and_iff_left hempty).symm))
      generalize (if env.mode = .tcp then addTcpName env inp nt else nt) = nt₁ at hoffset
      by_cases hshort : inp.packet.packetSize ≤ nt₁.offset + 14
      · rw [if_pos hshort]
        rfl
      · rw [if_neg hshort]
        refine (readsOk_touch _).trans (and_iff_left ?_)
        rw [List.forall_mem_singleton]
        exact ⟨by omega, by omega⟩
  | getUdpName => exact (and_iff_left ⟨trivial, hempty⟩).symm
  | getIpxsapName =>
      exact (readsOk_getIpxsapName hlt).trans (and_congr_right fun _ => (and_iff_left hempty).symm)
  | getNbssName =>
      have htype : ((nt.touch [(nt.offset : Int)]).advance 2).ReadsOk inp ↔ nt.ReadsOk inp := by
        rw [readsOk_advance, readsOk_touch, List.forall_mem_singleton]
        exact and_iff_left ⟨by omega, by omega⟩
      rw [NameFun.call, NameFun.encodedNames, EtherApe.getNbssName, if_neg (by omega)]
      unfold NameFun.Inside
      dsimp only
      by_cases hrequest : inp.byte nt.offset = 0x81
      · rw [if_pos hrequest, if_pos hrequest, readsOk_getSessionRequestName hlt rfl, htype]
        exact and_congr_right fun _ => and_congr_left fun _ =>
          not_congr (and_iff_right hrequest).symm
      · rw [if_neg hrequest, if_neg hrequest]
        exact htype.trans (and_iff_left ⟨fun h => hrequest h.1, hempty⟩).symm
  | getNbdgmName =>
      have htype : (nt.touch [(nt.offset : Int)]).ReadsOk inp ↔ nt.ReadsOk inp := by
        rw [readsOk_touch, List.forall_mem_singleton]
        exact and_iff_left ⟨by omega, by omega⟩
      have hnames : ∀ (second : Bool) (nt₁ : NameAdd), (nt₁.ReadsOk inp ↔ nt.ReadsOk inp) →
          ((nbdgmName env inp rounds second nt₁).2.ReadsOk inp ↔
          nt.ReadsOk inp ∧ ReadingsInsideWithin env.mode inp rounds
            ((namesFrom inp nt₁.offset second).map .name)) := by
        intro second nt₁ hnt₁
        rw [← hnt₁, ← readsOk_nbnsNames env rounds nt₁ (Nat.zero_lt_of_lt hlt), nbdgmName]
        rcases nbnsNames env inp rounds second nt₁ with ⟨_ | found, nt₂⟩
        · exact Iff.rfl
        · exact readsOk_addNetbiosName found
      refine Iff.trans ?_ (and_congr_right fun _ => (and_iff_right trivial).symm)
      rw [NameFun.call, NameFun.encodedNames, getNbdgmName_eq, if_neg (by omega)]
      split_ifs
      · exact hnames _ _ htype
      · exact hnames _ _ htype
      · exact htype.trans (and_iff_left hempty).symm

end ReadsOk

/-! ### Address families -/

section Family

variable {env : NamesEnv} {inp : NameInput} {rounds : Nat} {nt nt' : NameAdd}

theorem type_lt (a : Address) : a.type < 2 ^ 32 := by
  have h0 := (a 0).toNat_lt
  have h1 := (a 1).toNat_lt
  have h2 := (a 2).toNat_lt
  have h3 := (a 3).toNat_lt
  unfold Address.type
  omega

@[simp] theorem type_setAddr (a : Address) (len : Nat) (src : Nat → UInt8) :
    (a.setAddr len src).type = a.type := by
  simp [Address.type, setAddr_apply]

theorem type_setType (a : Address) {family : Nat} (h : family < 2 ^ 32) :
    (a.setType family).type = family := by
  simp [Address.type, setType_apply]
  omega

theorem fillNodeId_type {apemode : ApeMode} (hmode : apemode = .ip ∨ apemode = .tcp)
    (disp portdisp : Int) {type : Nat} (htype : type < 2 ^ 32) :
    (fillNodeId inp apemode disp portdisp type nt).nodeId.addr.tcp4Host.type =
      if fillFits inp nt.offset disp portdisp (addressLen type) then type else 0 := by
  have hsize : fillSize apemode type = addressLen type := by
    rcases hmode with rfl | rfl <;> rfl
  unfold fillNodeId
  rw [hsize]
  split
  · rw [NameAdd.setNodeId_nodeId]
    rcases hmode with rfl | rfl
    · simp [filledNodeId, NodeAddr.tcp4Host, type_setType _ htype]
    · simp [filledNodeId, NodeAddr.tcp4Host, NodeAddr.setTcp4Host, type_setType _ htype]
  · rfl

theorem call_family (f : NameFun) (hlt : nt.offset < inp.packet.packetSize)
    (h : f.call env inp rounds nt = (some true, nt')) :
    nt'.nodeId.addr.tcp4Host.type =
      f.family env.mode inp nt.offset nt.nodeId.addr.tcp4Host.type := by
  have hinet : afInet < 2 ^ 32 := by decide
  have hinet6 : afInet6 < 2 ^ 32 := by decide
  cases f with
  | getLink6Name =>
      cases h
      have hsize : fillSize .link6 0 = 6 := rfl
      change (fillNodeId inp .link6 _ 0 0 nt).nodeId.addr.tcp4Host.type = _
      rw [NameFun.family]
      generalize (if inp.dir = .inbound then (0 : Int) else 6) = disp
      unfold fillNodeId
      rw [hsize]
      split <;> rfl
  | getNullName =>
      cases h
      rfl
  | getLinuxSllName =>
      cases h
      rfl
  | getLlcName =>
      rw [NameFun.call, EtherApe.getLlcName] at h
      split_ifs at h
      · cases h
        rfl
      · cases h
        rfl
      · cases h
  | getArpName =>
      have hnext := (call_returned .getArpName hlt h).2
      cases hnext
  | getIpName =>
      rw [NameFun.call, EtherApe.getIpName] at h
      rw [if_pos (by simpa using hlt)] at h
      cases h
      exact fillNodeId_type (Or.inl rfl) _ _ hinet
  | getIpv6Name =>
      cases h
      exact fillNodeId_type (Or.inl rfl) _ _ hinet6
  | getIpxName =>
      cases h
      rfl
  | getTcpName =>
      have htype : (if env.mode = .tcp then addTcpName env inp nt else nt).nodeId.addr.tcp4Host.type =
          (NameFun.getTcpName).family env.mode inp nt.offset nt.nodeId.addr.tcp4Host.type := by
        rw [NameFun.family]
        by_cases hmode : env.mode = .tcp
        · obtain ⟨numeric, resolved, heq⟩ := addTcpName_spec env inp nt
          rw [if_pos hmode, heq, NameAdd.addName_nodeId, fillNodeId_type (Or.inr rfl) _ _ (type_lt _)]
          simp [hmode, ite_not]
        · rw [if_neg hmode, if_neg fun h => hmode h.1]
      rw [NameFun.call, EtherApe.getTcpName] at h
      dsimp only at h
      generalize (if env.mode = .tcp then addTcpName env inp nt else nt) = nt₁ at h htype
      split_ifs at h
      · cases h
      · cases h
        exact htype
  | getUdpName =>
      cases h
      rfl
  | getIpxsapName =>
      have hnext := (call_returned .getIpxsapName hlt h).2
      cases hnext
  | getNbssName =>
      have hstep := @getNbssName_step env inp rounds nt hlt
      rw [NameFun.call] at h
      rw [h] at hstep
      cases hstep with
      | other _ _ => rfl
      | request _ _ _ hid _ _ =>
          rw [NameAdd.advance_nodeId, addNetbiosName_nodeId, NameAdd.touch_nodeId, hid]
          rfl
  | getNbdgmName =>
      have hnext := (call_returned .getNbdgmName hlt h).2
      cases hnext

end Family

/-! ### Runs -/

/-- The decoders read level by level, each as long as those before it have returned. -/
theorem readsOk_decodeNext (env : NamesEnv) (inp : NameInput) (rounds levels : Nat) (nt : NameAdd) :
    (decodeNext env inp rounds levels nt).2.ReadsOk inp ↔
      nt.ReadsOk inp ∧ ReadingsInsideWithin env.mode inp rounds
        (readingsFrom env.mode inp nt.nodeId.addr.tcp4Host.type
          (headersFrom inp levels nt.level nt.offset)) := by
  induction levels generalizing nt with
  | zero => exact (and_iff_left trivial).symm
  | succ levels ih =>
      rw [decodeNext, headersFrom]
      cases htoken : inp.tokens.token nt.level with
      | none => exact (and_iff_left trivial).symm
      | some name =>
          dsimp only
          cases hlookup : protFunctionsTable.lookup name with
          | none => exact ih nt.nextLevel
          | some fn =>
              dsimp only
              by_cases hle : inp.packet.packetSize ≤ nt.offset
              · rw [if_pos hle, if_pos hle]
                exact (and_iff_left trivial).symm
              · have hlt := Nat.lt_of_not_le hle
                have hreads := readsOk_call env rounds nt fn hlt
                have hreturns := @call_isSome_iff env inp rounds nt fn hlt
                have hends : (∀ r ∈ fn.readings inp nt.nodeId.addr.tcp4Host.type nt.offset,
                    r.EndsWithin inp rounds) ↔ (fn.call env inp rounds nt).1.isSome := by
                  rw [hreturns, NameFun.readings, List.forall_mem_cons, List.forall_mem_map]
                  exact and_iff_right trivial
                rw [if_neg hle, if_neg hle, readingsFrom, readingsInsideWithin_append, hends,
                  ← and_assoc, ← hreads]
                rcases hcall : fn.call env inp rounds nt with ⟨_ | goOn, nt'⟩
                · exact (and_iff_left fun h => by cases h).symm
                · obtain ⟨hlevel, hnext⟩ := call_returned fn hlt hcall
                  dsimp only
                  rw [hnext]
                  cases goOn with
                  | false => exact (and_iff_left fun _ => trivial).symm
                  | true =>
                      have hrest := ih nt'.nextLevel
                      rw [NameAdd.nextLevel_level, NameAdd.nextLevel_offset, NameAdd.nextLevel_nodeId,
                        hlevel, call_family fn hlt hcall] at hrest
                      simpa using hrest

end NameAdd

/-- **Reads of the name decoder.** -/
theorem getPacketNames_captured_iff (env : NamesEnv) (inp : NameInput) (uninit : NodeId) :
    (∀ rounds, ∀ i ∈ (getPacketNames env inp uninit rounds).2.reads, inp.packet.Captured i) ↔
      ReadingsInside env.mode inp (readings env.mode inp uninit) := by
  rw [readingsInside_iff]
  refine forall_congr' fun rounds => ?_
  have hstart : (NameAdd.start uninit).ReadsOk inp := fun i hi => absurd hi List.not_mem_nil
  exact (NameAdd.readsOk_decodeNext env inp rounds stackSize (NameAdd.start uninit)).trans
    (and_iff_right hstart)

/-- A NetBIOS datagram whose name is a pointer to 128 bytes in front of it. -/
def backwardDatagram : RawPacket :=
  .sized 60 fun i =>
    if i = 12 then 0x08 else if i = 14 then 0x45 else if i = 23 then 17 else if i = 35 then 138
    else if i = 42 then 0x10 else if i = 56 then 0xC0 else if i = 57 then 0x80 else 0

theorem not_all_reads_captured :
    ¬∀ (env : DecodeEnv) (names : NamesEnv) (packet : RawPacket) (conversations : Conversations)
      (pphLkentry : Option Linktype) (calls : Nat) (d : DecodeState) (dir : PacketDirection)
      (uninit : NodeId) (rounds : Nat), names.mode = env.mode →
      getPacketProt env calls (packet.decodeStart conversations pphLkentry) = .finished d →
      ∀ i ∈ (getPacketNames names (d.nameInput env packet dir) uninit rounds).2.reads,
        packet.Captured i := by
  intro h
  have hreads := h (.bare linktypeEthernet .ip)
    ⟨.ip, false, fun _ => none, fun _ => [], fun _ => none, ⟨fun _ => 0, []⟩⟩ backwardDatagram
    Conversations.empty none 0 _ .outbound NodeId.clear 2 rfl rfl
  revert hreads
  decide +kernel

end EtherApe
