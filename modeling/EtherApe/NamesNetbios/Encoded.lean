import EtherApe.NamesNetbios
import Mathlib.Data.List.DropRight
import Mathlib.Data.List.TakeWhile

/-!
# Encoded names

A NetBIOS name of sixteen bytes, the last of which is its type, is sent as a label of thirty-two letters,
two for each byte. The decoder finds the bytes again. What it shows of them is the text as it is, but the
type as a signed character.
-/

namespace EtherApe

open Printf CInt

/-! ### Labels -/

/-- The packet has the given bytes from `i` on. -/
def RawPacket.HasBytes (pd : RawPacket) (i : Nat) (bs : List UInt8) : Prop :=
  ∀ (k : Nat) (b : UInt8), bs[k]? = some b → pd.p (i + k) = b

section Labels

variable {pd : RawPacket} {i : Nat} {bs bs' : List UInt8} {b : UInt8}

theorem RawPacket.HasBytes.head (h : pd.HasBytes i (b :: bs)) : pd.p i = b := by
  simpa using h 0 b rfl

theorem RawPacket.HasBytes.tail (h : pd.HasBytes i (b :: bs)) : pd.HasBytes (i + 1) bs := by
  intro k b' hk
  have hget := h (k + 1) b' hk
  push_cast at hget ⊢
  rwa [add_assoc, add_comm (1 : Int)]

theorem RawPacket.HasBytes.append_left (h : pd.HasBytes i (bs ++ bs')) : pd.HasBytes i bs := by
  intro k b' hk
  apply h k b'
  rwa [List.getElem?_append_left (List.getElem?_eq_some_iff.mp hk).1]

theorem RawPacket.HasBytes.append_right (h : pd.HasBytes i (bs ++ bs')) :
    pd.HasBytes (i + bs.length) bs' := by
  intro k b' hk
  have hget := h (bs.length + k) b'
  rw [List.getElem?_append_right (Nat.le_add_right _ _), Nat.add_sub_cancel_left] at hget
  have hbyte := hget hk
  push_cast at hbyte ⊢
  rwa [add_assoc]

def RawPacket.ofBytes (bytes : List UInt8) (packetSize : UInt16) : RawPacket :=
  .sized packetSize fun i => bytes.getD i.toNat 0

theorem RawPacket.ofBytes_hasBytes (packetSize : UInt16) (before bs after : List UInt8) :
    (ofBytes (before ++ (bs ++ after)) packetSize).HasBytes before.length bs := by
  intro k b hk
  show (before ++ (bs ++ after)).getD ((before.length + k : Int)).toNat 0 = b
  have hindex : ((before.length + k : Int)).toNat = before.length + k := by omega
  rw [hindex, List.getD_eq_getElem?_getD, List.getElem?_append_right (Nat.le_add_right _ _),
    Nat.add_sub_cancel_left, List.getElem?_append_left (List.getElem?_eq_some_iff.mp hk).1, hk]
  rfl

theorem putLabel_of_hasBytes (s : DnsName) (hoffset : s.offset = i) (h : pd.HasBytes i bs)
    (hroom : bs.length ≤ s.maxname) :
    ∃ reads, s.putLabel pd bs.length =
      { s with
        offset := s.offset + bs.length
        name := s.name ++ bs
        maxname := s.maxname - bs.length
        reads := reads } := by
  induction bs generalizing s i with
  | nil => exact ⟨s.reads, by simp [DnsName.putLabel]⟩
  | cons b bs ih =>
      have hpos : 0 < s.maxname := by
        rw [List.length_cons] at hroom
        omega
      rw [List.length_cons, DnsName.putLabel, if_pos hpos, hoffset, h.head]
      obtain ⟨reads, heq⟩ := ih (i := i + 1)
        { s with
          offset := (i : Int) + 1
          name := s.name ++ [b]
          maxname := s.maxname - 1
          reads := s.reads ++ [(i : Int)] }
        (by push_cast; rfl) h.tail (by
          rw [List.length_cons] at hroom
          dsimp only
          omega)
      refine ⟨reads, heq.trans ?_⟩
      simp only [List.append_assoc, List.singleton_append]
      congr 1
      · push_cast
        ring
      · omega

theorem labelByte : ∀ n < 64, unsigned 32 (ofChar (UInt8.ofNat n)) = n ∧ n &&& 0xc0 = 0 := by
  decide +kernel

theorem getDnsName_label {stack : List UInt8} {rounds : Nat} (hrounds : 2 ≤ rounds)
    (hne : bs ≠ []) (hlen : bs.length < 64) (hzero : 0 ∉ bs)
    (h : pd.HasBytes i (UInt8.ofNat bs.length :: (bs ++ [0])))
    (hcaptured : i + bs.length + 2 < pd.packetSize) :
    (getDnsName stack rounds pd i).1 = some ⟨bs, bs.length + 2⟩ := by
  have hsize := pd.packetSize_lt
  obtain ⟨more, rfl⟩ := Nat.exists_eq_add_of_le hrounds
  have hfirst : pd.p i = UInt8.ofNat bs.length := h.head
  have hlast : pd.p ((i : Int) + 1 + bs.length) = 0 := by
    have hzero' := h.tail.append_right.head
    push_cast at hzero'
    exact hzero'
  obtain ⟨hcomponent, hlabel⟩ := labelByte bs.length hlen
  have hpos : bs.length ≠ 0 := mt List.length_eq_zero_iff.mp hne
  obtain ⟨reads, hput⟩ := @putLabel_of_hasBytes pd (i + 1) bs
    ⟨(i : Int) + 1, maxdname - 1, [], none, [] ++ [(i : Int)]⟩ (by push_cast; rfl)
    h.tail.append_left (by dsimp only [maxdname]; omega)
  have hround₁ : dnsRound pd i ⟨i, maxdname - 1, [], none, []⟩ = .more
      ⟨(i : Int) + 1 + bs.length, maxdname - 1 - bs.length, [] ++ bs, none, reads⟩ := by
    have hfits : unsigned 32 ((i : Int) + 1 + bs.length) < pd.packetSize := by
      have hcast : (i : Int) + 1 + bs.length = ((i + 1 + bs.length : Nat) : Int) := by push_cast; rfl
      rw [hcast, unsigned_natCast (by omega)]
      omega
    unfold dnsRound
    dsimp only
    rw [if_neg (by omega), hfirst, hcomponent, if_neg hpos, if_pos hlabel, dnsLabel]
    dsimp only
    rw [if_neg (fun h : ([] : List UInt8) ≠ [] => h rfl), if_neg (not_not.mpr hfits), hput]
  have hround₂ : dnsRound pd i
      ⟨(i : Int) + 1 + bs.length, maxdname - 1 - bs.length, [] ++ bs, none, reads⟩ = .terminated
      ⟨(i : Int) + 1 + bs.length + 1, maxdname - 1 - bs.length, [] ++ bs, none,
        reads ++ [(i : Int) + 1 + bs.length]⟩ := by
    unfold dnsRound
    dsimp only
    rw [if_neg (by omega), hlast]
    rfl
  have hname : bs.takeWhile (· ≠ 0) = bs := by
    refine List.takeWhile_eq_self_iff.mpr fun b hb => ?_
    simp only [decide_eq_true_eq]
    rintro rfl
    exact hzero hb
  unfold getDnsName
  rw [if_neg (by omega), Nat.add_comm, dnsLoop, hround₁]
  dsimp only
  rw [dnsLoop, hround₂]
  dsimp only [dnsTerminated]
  rw [List.nil_append, hname, if_neg hne, Option.getD_none]
  congr 2
  ring

end Labels

/-! ### Names -/

/-- A name of sixteen bytes with a printable text. -/
structure NetbiosName where
  bytes : List UInt8
  length_eq : bytes.length = 16
  printable : ∀ b ∈ bytes.take 15, 32 ≤ b.toNat ∧ b.toNat ≤ 126

def halfLetter (n : Nat) : UInt8 := UInt8.ofNat (65 + n)

def firstLevelPair (b : UInt8) : List UInt8 := [halfLetter (b.toNat / 16), halfLetter (b.toNat % 16)]

/-- Two hexadecimal digits in angle brackets, or more if they do not suffice. -/
def shownNumber (n : Nat) : List UInt8 := lit "<" ++ padded 2 (hex n) ++ lit ">"

def shownType (type : Int) : List UInt8 := shownNumber (unsigned 32 type)

namespace NetbiosName

/-- The text without the blanks behind it. -/
def text (name : NetbiosName) : List UInt8 := (name.bytes.take 15).rdropWhile (· = 32)

def type (name : NetbiosName) : UInt8 := name.bytes.getD 15 0

def encoded (name : NetbiosName) : List UInt8 := name.bytes.flatMap firstLevelPair

def label (name : NetbiosName) : List UInt8 := 32 :: (name.encoded ++ [0])

theorem length_encoded (name : NetbiosName) : name.encoded.length = 32 := by
  unfold encoded
  rw [List.length_flatMap]
  show (name.bytes.map fun _ => 2).sum = 32
  rw [List.map_const', List.sum_replicate, name.length_eq]
  rfl

end NetbiosName

theorem halfLetter_spec {n : Nat} (h : n < 16) :
    halfLetter n ≠ 46 ∧ halfLetter n ≠ 0 ∧ isLetter (halfLetter n) := by
  have hall : ∀ n < 16, halfLetter n ≠ 46 ∧ halfLetter n ≠ 0 ∧ isLetter (halfLetter n) := by decide
  exact hall n h

theorem firstLevelPair_byte (b : UInt8) :
    (halfLetter (b.toNat / 16) - 65) <<< 4 ||| (halfLetter (b.toNat % 16) - 65) = b := by
  have hall : ∀ n < 256, (halfLetter ((UInt8.ofNat n).toNat / 16) - 65) <<< 4 |||
      (halfLetter ((UInt8.ofNat n).toNat % 16) - 65) = UInt8.ofNat n := by decide +kernel
  have hb := hall b.toNat b.toNat_lt
  rwa [UInt8.ofNat_toNat] at hb

theorem firstLevel_encoded (bs : List UInt8) :
    firstLevel (bs.flatMap firstLevelPair) = .decoded bs [] := by
  induction bs with
  | nil => rfl
  | cons b bs ih =>
      have hlt := b.toNat_lt
      obtain ⟨hdot, _, hletter⟩ := halfLetter_spec (n := b.toNat / 16) (by omega)
      obtain ⟨hdot', _, hletter'⟩ := halfLetter_spec (n := b.toNat % 16) (by omega)
      show firstLevel (halfLetter (b.toNat / 16) :: halfLetter (b.toNat % 16) ::
        bs.flatMap firstLevelPair) = _
      rw [firstLevel, if_neg hdot, if_neg (not_not.mpr hletter), if_neg hdot',
        if_neg (not_not.mpr hletter'), ih]
      dsimp only
      rw [firstLevelPair_byte]

theorem zero_not_mem_encoded (bs : List UInt8) : 0 ∉ bs.flatMap firstLevelPair := by
  intro h
  obtain ⟨b, _, hmem⟩ := List.mem_flatMap.mp h
  have hlt := b.toNat_lt
  rcases List.mem_cons.mp hmem with heq | hmem
  · exact (halfLetter_spec (n := b.toNat / 16) (by omega)).2.1 heq.symm
  · exact (halfLetter_spec (n := b.toNat % 16) (by omega)).2.1 (List.mem_singleton.mp hmem).symm

/-- Printable characters are shown as they are, as far as there is room. -/
theorem foldl_shown (stray : StrayBytes) {room : Nat} {bs out : List UInt8}
    (h : ∀ b ∈ bs, 32 ≤ b.toNat ∧ b.toNat ≤ 126) (hroom : out.length + bs.length ≤ room) :
    bs.foldl (fun out nameChar =>
      if out.length < room then out ++ shownChar stray nameChar else out) out = out ++ bs := by
  induction bs generalizing out with
  | nil => exact (List.append_nil out).symm
  | cons b bs ih =>
      obtain ⟨hb, hbs⟩ := List.forall_mem_cons.mp h
      rw [List.length_cons] at hroom
      have hshown : shownChar stray b = [b] := by
        have hchar := ofChar_of_lt (b := b) (by omega)
        unfold shownChar
        rw [if_pos (by omega)]
      rw [List.foldl_cons, if_pos (by omega), hshown, ih hbs]
      · simp
      · rw [List.length_append, List.length_singleton]
        omega

/-- A type below 128 has two digits; another is extended by its sign. -/
theorem shownType_spec (b : UInt8) :
    (shownNumber b.toNat)[3]? = some 62 ∧ (shownType (ofChar b)).length ≤ 10 ∧
      if b.toNat < 128 then ofChar b = b.toNat ∧ shownType (ofChar b) = shownNumber b.toNat
      else (shownType (ofChar b))[3]? = some 102 := by
  have hall : ∀ n < 256, (shownNumber (UInt8.ofNat n).toNat)[3]? = some 62 ∧
      (shownType (ofChar (UInt8.ofNat n))).length ≤ 10 ∧
      if (UInt8.ofNat n).toNat < 128 then ofChar (UInt8.ofNat n) = (UInt8.ofNat n).toNat ∧
        shownType (ofChar (UInt8.ofNat n)) = shownNumber (UInt8.ofNat n).toNat
      else (shownType (ofChar (UInt8.ofNat n)))[3]? = some 102 := by decide +kernel
  have hb := hall b.toNat b.toNat_lt
  rwa [UInt8.ofNat_toNat] at hb

theorem shownType_append_iff {b : UInt8} {xs ys : List UInt8} :
    shownType (ofChar b) ++ xs = shownNumber b.toNat ++ ys ↔ b.toNat < 128 ∧ xs = ys := by
  obtain ⟨hnumber, _, htype⟩ := shownType_spec b
  by_cases hlt : b.toNat < 128
  · rw [if_pos hlt] at htype
    rw [htype.2, List.append_cancel_left_eq]
    exact (and_iff_right hlt).symm
  · rw [if_neg hlt] at htype
    refine iff_of_false (fun heq => ?_) fun h => hlt h.1
    have hget := congrArg (fun l : List UInt8 => l[3]?) heq
    rw [List.getElem?_append_left (List.getElem?_eq_some_iff.mp htype).1,
      List.getElem?_append_left (List.getElem?_eq_some_iff.mp hnumber).1, htype, hnumber] at hget
    exact absurd hget (by decide)

/-- An encoded name is shown as its text and its type. -/
theorem etherealNbnsName_label {pd : RawPacket} {i : Nat} {stray : StrayBytes} {rounds n : Nat}
    (name : NetbiosName) (hrounds : 2 ≤ rounds) (h : pd.HasBytes i name.label)
    (hcaptured : i + 34 < pd.packetSize) (hn : 25 < n) :
    (etherealNbnsName stray rounds pd i n).1 =
      some ⟨name.bytes.take 15 ++ shownType (ofChar name.type), ofChar name.type, 34⟩ := by
  have hlen := name.length_encoded
  have hne : name.encoded ≠ [] := by
    rw [← List.length_pos_iff_ne_nil, hlen]
    decide
  have hdns : (getDnsName stray.stack rounds pd i).1 = some ⟨name.encoded, 34⟩ := by
    have hlabel : UInt8.ofNat name.encoded.length :: (name.encoded ++ [0]) = name.label := by
      rw [hlen]
      rfl
    rw [getDnsName_label hrounds hne (by omega) (zero_not_mem_encoded name.bytes)
      (hlabel.symm ▸ h) (by omega), hlen]
    rfl
  have htake : (name.bytes.take 15).length = 15 := by
    rw [List.length_take, name.length_eq]
    rfl
  have hlenType : (shownType (ofChar name.type)).length ≤ 10 := (shownType_spec name.type).2.1
  unfold etherealNbnsName
  dsimp only
  rw [hdns, Option.map_some, nbnsOfDns]
  dsimp only
  rw [NetbiosName.encoded, firstLevel_encoded]
  dsimp only
  rw [if_neg (not_not.mpr name.length_eq : ¬name.bytes.length ≠ netbiosNameLen), processNetbiosName]
  dsimp only [netbiosNameLen]
  have hroom : 15 ≤ lastIndex n := by
    rw [lastIndex, if_neg (by omega)]
    omega
  have hprinted : (name.bytes.take 15).takeWhile (· ≠ 0) = name.bytes.take 15 := by
    rw [List.takeWhile_eq_self_iff]
    intro b hb
    have hle := (name.printable b hb).1
    simpa using fun hb0 : b = 0 => absurd (hb0 ▸ hle) (by decide)
  rw [foldl_shown stray name.printable (by rw [htake, List.length_nil]; omega), List.nil_append,
    hprinted]
  have htext : safeStrncat (name.bytes.take 15) (shownType (ofChar name.type)) n =
      name.bytes.take 15 ++ shownType (ofChar name.type) := by
    rw [safeStrncat, htake, if_neg (by omega), List.take_of_length_le]
    rw [List.length_append, htake]
    omega
  have hscope : safeStrncat (name.bytes.take 15 ++ shownType (ofChar name.type)) [] n =
      name.bytes.take 15 ++ shownType (ofChar name.type) := by
    have hlength : (name.bytes.take 15 ++ shownType (ofChar name.type)).length ≤ n - 1 := by
      rw [List.length_append, htake]
      omega
    rw [safeStrncat, if_neg (by omega), List.append_nil, List.take_of_length_le hlength]
  congr 2
  exact (congrArg (safeStrncat · [] n) htext).trans hscope

end EtherApe
