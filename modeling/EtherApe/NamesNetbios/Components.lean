import EtherApe.Lib.Iteration
import EtherApe.NamesNetbios
import Mathlib.Order.Interval.Finset.Basic
import Mathlib.Data.Int.Interval

/-!
# Components of encoded names

An encoded name is a chain of labels and pointers in the packet. Which places the loop of `get_dns_name`
comes to depends on these alone, so it ends just when the chain does not come back to one of them.
-/

namespace EtherApe

open CInt Iteration

/-- What stands at a place of an encoded name: the end of the captured data, of whose bytes `used` were
read, the end of the name, a label, or a pointer. -/
inductive Component
  | cut (used : Nat)
  | terminator
  | label (len : Nat)
  | pointer (target : Int)

def component (pd : RawPacket) (start off : Int) : Component :=
  let first := unsigned 32 (ofChar (pd.p off))
  if ¬off + 1 < pd.packetSize then .cut 0
  else if first = 0 then .terminator
  else if first &&& 0xc0 = 0 then
    if unsigned 32 (off + 1 + first) < pd.packetSize then .label first else .cut 1
  else if first &&& 0xc0 = 0xc0 then
    if off + 2 < pd.packetSize then .pointer (pointerTarget start first (pd.p (off + 1))) else .cut 1
  else .terminator

def chain (pd : RawPacket) (start off : Int) : Option Int :=
  match component pd start off with
  | .cut _ => none
  | .terminator => none
  | .label len => some (off + 1 + len)
  | .pointer target => some target

/-- The chain comes back to where it has been. -/
def Circular (pd : RawPacket) (start : Int) : Prop := Circles (chain pd start) start

variable {pd : RawPacket} {start off : Int} {s s' : DnsName}

/-! ### Rounds of the loop -/

@[simp] theorem put_offset (c : UInt8) : (s.put c).offset = s.offset := by
  unfold DnsName.put
  split <;> rfl

@[simp] theorem put_len (c : UInt8) : (s.put c).len = s.len := by
  unfold DnsName.put
  split <;> rfl

@[simp] theorem put_reads (c : UInt8) : (s.put c).reads = s.reads := by
  unfold DnsName.put
  split <;> rfl

/-- What a part of the loop has read, which is among `n` bytes from `off` on. -/
def ReadsFrom (s s' : DnsName) (off : Int) (n : Nat) : Prop :=
  ∃ more, s'.reads = s.reads ++ more ∧ ∀ i ∈ more, off ≤ i ∧ i < off + n

theorem putLabel_spec (pd : RawPacket) (n : Nat) (s : DnsName) :
    (s.putLabel pd n).offset = s.offset + n ∧ (s.putLabel pd n).len = s.len ∧
      ReadsFrom s (s.putLabel pd n) s.offset n := by
  induction n generalizing s with
  | zero => exact ⟨by simp [DnsName.putLabel], rfl, [], by simp [DnsName.putLabel], by simp⟩
  | succ n ih =>
      rw [DnsName.putLabel]
      by_cases hroom : 0 < s.maxname
      · rw [if_pos hroom]
        obtain ⟨hoffset, hlen, more, hreads, hmore⟩ := ih
          { offset := s.offset + 1, maxname := s.maxname - 1, name := s.name ++ [pd.p s.offset]
            len := s.len, reads := s.reads ++ [s.offset] }
        dsimp only at hoffset hlen hreads hmore ⊢
        refine ⟨by rw [hoffset]; push_cast; omega, hlen, s.offset :: more, by simp [hreads], ?_⟩
        rintro i hi
        rcases List.mem_cons.mp hi with rfl | hi
        · omega
        · have hi := hmore i hi
          omega
      · rw [if_neg hroom]
        obtain ⟨hoffset, hlen, more, hreads, hmore⟩ := ih { s with offset := s.offset + 1 }
        dsimp only at hoffset hlen hreads hmore ⊢
        refine ⟨by rw [hoffset]; push_cast; omega, hlen, more, hreads, fun i hi => ?_⟩
        have hi := hmore i hi
        omega

/-- The variables when a label that is not the first has got its point. -/
def dotted (s : DnsName) : DnsName := if s.name ≠ [] then s.put 46 else s

@[simp] theorem dotted_offset : (dotted s).offset = s.offset := by
  unfold dotted
  split <;> simp

@[simp] theorem dotted_len : (dotted s).len = s.len := by
  unfold dotted
  split <;> simp

@[simp] theorem dotted_reads : (dotted s).reads = s.reads := by
  unfold dotted
  split <;> simp

theorem dnsLabel_eq (pd : RawPacket) (componentLen : Nat) (s : DnsName) :
    dnsLabel pd componentLen s =
      if ¬unsigned 32 ((dotted s).offset + componentLen) < pd.packetSize then .overflow (dotted s)
      else .more ((dotted s).putLabel pd componentLen) := rfl

theorem dnsRound_spec (pd : RawPacket) (start : Int) (s : DnsName) :
    match component pd start s.offset with
    | .cut used => ∃ s', dnsRound pd start s = .overflow s' ∧ s'.offset = s.offset + used ∧
        s'.len = s.len ∧ s'.reads = s.reads ++ indicesFrom s.offset used
    | .terminator => ∃ s', dnsRound pd start s = .terminated s' ∧ s'.offset = s.offset + 1 ∧
        s'.len = s.len ∧ s'.reads = s.reads ++ [s.offset]
    | .label len => ∃ s', dnsRound pd start s = .more s' ∧ s'.offset = s.offset + 1 + len ∧
        s'.len = s.len ∧ ∃ more, s'.reads = s.reads ++ s.offset :: more ∧
          ∀ i ∈ more, s.offset < i ∧ i ≤ s.offset + len
    | .pointer target => ∃ s', dnsRound pd start s = .more s' ∧ s'.offset = target ∧
        s'.len = some (s.len.getD (s.offset + 2 - start)) ∧
          s'.reads = s.reads ++ indicesFrom s.offset 2 := by
  unfold component dnsRound
  dsimp only
  split_ifs with hframe hzero hlabel hfits hpointer hfits
  · exact ⟨_, rfl, rfl, rfl, rfl⟩
  · -- a label that was captured
    obtain ⟨hoffset, hlen, more, hreads, hmore⟩ := putLabel_spec pd
      (unsigned 32 (ofChar (pd.p s.offset)))
      (dotted { s with offset := s.offset + 1, reads := s.reads ++ [s.offset] })
    rw [dotted_offset] at hoffset hmore
    rw [dotted_len] at hlen
    rw [dotted_reads] at hreads
    refine ⟨_, ?_, hoffset, hlen, more, by rw [hreads]; simp, fun i hi => ?_⟩
    · rw [dnsLabel_eq, dotted_offset, if_neg (not_not.mpr hfits)]
    · have hi := hmore i hi
      dsimp only at hi
      omega
  · refine ⟨dotted { s with offset := s.offset + 1, reads := s.reads ++ [s.offset] }, ?_, ?_, ?_, ?_⟩
    · rw [dnsLabel_eq, dotted_offset, if_pos hfits]
    · rw [dotted_offset]
      rfl
    · rw [dotted_len]
    · rw [dotted_reads]
      simp [indicesFrom]
  · -- a pointer
    refine ⟨_, if_neg (by dsimp only; omega), rfl, ?_, ?_⟩
    · dsimp only
      congr 2
      omega
    · simp [indicesFrom, List.range_succ]
  · refine ⟨_, if_pos (by dsimp only; omega), rfl, rfl, ?_⟩
    simp [indicesFrom]
  · exact ⟨_, rfl, rfl, rfl, rfl⟩
  · exact ⟨s, rfl, by simp, rfl, by simp [indicesFrom]⟩

/-- A round goes on where the chain does. -/
theorem dnsRound_chain (pd : RawPacket) (start : Int) (s : DnsName) :
    match dnsRound pd start s with
    | .more s' => chain pd start s.offset = some s'.offset
    | .terminated _ => chain pd start s.offset = none
    | .overflow _ => chain pd start s.offset = none := by
  have hround := dnsRound_spec pd start s
  unfold chain
  cases hcomponent : component pd start s.offset with
  | cut used =>
      rw [hcomponent] at hround
      obtain ⟨s', hs', _⟩ := hround
      rw [hs']
  | terminator =>
      rw [hcomponent] at hround
      obtain ⟨s', hs', _⟩ := hround
      rw [hs']
  | label len =>
      rw [hcomponent] at hround
      obtain ⟨s', hs', hoffset, _⟩ := hround
      rw [hs']
      exact congrArg some hoffset.symm
  | pointer target =>
      rw [hcomponent] at hround
      obtain ⟨s', hs', hoffset, _⟩ := hround
      rw [hs']
      exact congrArg some hoffset.symm

/-! ### The end of the loop -/

theorem dnsLoop_more_iff (pd : RawPacket) (start : Int) (rounds : Nat) (s : DnsName) :
    (∃ s', dnsLoop pd start rounds s = .more s') ↔ after (chain pd start) rounds s.offset ≠ none := by
  induction rounds generalizing s with
  | zero => exact iff_of_true ⟨s, rfl⟩ (by simp [after])
  | succ rounds ih =>
      have hround := dnsRound_chain pd start s
      rw [dnsLoop, after]
      cases hs : dnsRound pd start s with
      | more s' =>
          rw [hs] at hround
          rw [hround, Option.bind_some]
          exact ih s'
      | terminated s' =>
          rw [hs] at hround
          rw [hround]
          exact iff_of_false (by rintro ⟨_, h⟩; cases h) (by simp)
      | overflow s' =>
          rw [hs] at hround
          rw [hround]
          exact iff_of_false (by rintro ⟨_, h⟩; cases h) (by simp)

theorem dnsLoop_mono {rounds rounds' : Nat} (hle : rounds ≤ rounds')
    (hend : ¬∃ s', dnsLoop pd start rounds s = .more s') :
    dnsLoop pd start rounds' s = dnsLoop pd start rounds s := by
  induction rounds generalizing s rounds' with
  | zero => exact absurd ⟨s, rfl⟩ hend
  | succ rounds ih =>
      obtain ⟨rounds', rfl⟩ := Nat.exists_eq_add_of_le hle
      rw [Nat.add_right_comm, dnsLoop, dnsLoop]
      rw [dnsLoop] at hend
      cases hs : dnsRound pd start s with
      | more s' =>
          rw [hs] at hend
          exact ih (Nat.le_add_right _ _) hend
      | terminated s' => rfl
      | overflow s' => rfl

theorem label_le {len : Nat} (h : component pd start off = .label len) : len < 64 := by
  have hbyte : ∀ n < 256, unsigned 32 (ofChar (UInt8.ofNat n)) &&& 0xc0 = 0 →
      unsigned 32 (ofChar (UInt8.ofNat n)) < 64 := by decide +kernel
  unfold component at h
  dsimp only at h
  split_ifs at h with hframe hzero hlabel hfits
  obtain rfl := Component.label.inj h
  have hall := hbyte (pd.p off).toNat (UInt8.toNat_lt _)
  rw [UInt8.ofNat_toNat] at hall
  exact hall hlabel

theorem pointer_bounds {target : Int} (h : component pd start off = .pointer target) :
    -2 ^ 32 ≤ target ∧ target < 2 ^ 32 := by
  unfold component at h
  dsimp only at h
  split_ifs at h
  obtain rfl := Component.pointer.inj h
  exact signed_bounds 32 _

/-- A chain has only finitely many places to go to. -/
theorem finite_visits (pd : RawPacket) (start : Int) :
    {off | Visits (chain pd start) start off}.Finite := by
  have hsize := pd.packetSize_lt
  have hbound : ∀ n off off', after (chain pd start) n off = some off' →
      min start (-2 ^ 32) ≤ off → off ≤ max start (2 ^ 32) →
        min start (-2 ^ 32) ≤ off' ∧ off' ≤ max start (2 ^ 32) := by
    intro n
    induction n with
    | zero =>
        rintro off off' h hlo hhi
        obtain rfl := Option.some.inj h
        exact ⟨hlo, hhi⟩
    | succ n ih =>
        intro off off' h hlo hhi
        rw [after] at h
        cases hnext : chain pd start off with
        | none => rw [hnext] at h; cases h
        | some next =>
            rw [hnext, Option.bind_some] at h
            suffices hbounds : min start (-2 ^ 32) ≤ next ∧ next ≤ max start (2 ^ 32) from
              ih next off' h hbounds.1 hbounds.2
            unfold chain at hnext
            cases hcomponent : component pd start off with
            | cut used => rw [hcomponent] at hnext; cases hnext
            | terminator => rw [hcomponent] at hnext; cases hnext
            | label len =>
                rw [hcomponent] at hnext
                obtain rfl := Option.some.inj hnext
                have hlen := label_le hcomponent
                have hframe : off + 1 < pd.packetSize := by
                  unfold component at hcomponent
                  dsimp only at hcomponent
                  split_ifs at hcomponent with hframe
                  exact hframe
                omega
            | pointer target =>
                rw [hcomponent] at hnext
                obtain rfl := Option.some.inj hnext
                have hbounds := pointer_bounds hcomponent
                omega
  refine (Set.finite_Icc (min start (-2 ^ 32)) (max start (2 ^ 32))).subset ?_
  rintro off ⟨n, hn⟩
  exact hbound n start off hn (min_le_left _ _) (le_max_left _ _)

/-- The loop ends just when the chain does not come back to where it has been. -/
theorem ends_chain_iff (pd : RawPacket) (start : Int) :
    Ends (chain pd start) start ↔ ¬Circular pd start :=
  ends_iff_not_circles (finite_visits pd start)

/-! ### The length of a name's field -/

/-- How many bytes of the field of a name follow from `off` on: up to its end, or to its first pointer.
Every label counts, as long as `n` allows it. -/
def fieldLengthFrom (pd : RawPacket) (start : Int) : Nat → Int → Int
  | 0, _ => 0
  | n + 1, off =>
      match component pd start off with
      | .cut used => used
      | .terminator => 1
      | .label len => 1 + len + fieldLengthFrom pd start n (off + 1 + len)
      | .pointer _ => 2

def fieldLength (pd : RawPacket) (start : Int) : Int :=
  fieldLengthFrom pd start (pd.packetSize - start).toNat start

theorem component_of_le (h : pd.packetSize ≤ off + 1) : component pd start off = .cut 0 := by
  unfold component
  dsimp only
  rw [if_pos (by omega)]

/-- Every label takes the field nearer to the end of the packet. -/
theorem fieldLengthFrom_succ {n : Nat} (hn : pd.packetSize - off ≤ n) :
    fieldLengthFrom pd start n off = fieldLengthFrom pd start (n + 1) off := by
  induction n generalizing off with
  | zero =>
      rw [fieldLengthFrom, fieldLengthFrom, component_of_le (by omega)]
      rfl
  | succ n ih =>
      rw [fieldLengthFrom, fieldLengthFrom]
      cases component pd start off with
      | cut used => rfl
      | terminator => rfl
      | pointer target => rfl
      | label len => exact congrArg (1 + (len : Int) + ·) (ih (by omega))

/-- The loop returns the length of the field, whatever the pointers lead to. -/
theorem dnsLoop_len {rounds n : Nat} (hn : pd.packetSize - s.offset ≤ n)
    (h : dnsLoop pd start rounds s = .terminated s' ∨ dnsLoop pd start rounds s = .overflow s') :
    s'.len.getD (s'.offset - start) =
      s.len.getD (s.offset - start + fieldLengthFrom pd start n s.offset) := by
  induction rounds generalizing s n with
  | zero => rcases h with h | h <;> cases h
  | succ rounds ih =>
      rw [fieldLengthFrom_succ hn, fieldLengthFrom]
      have hround := dnsRound_spec pd start s
      rw [dnsLoop] at h
      cases hcomponent : component pd start s.offset with
      | cut used =>
          rw [hcomponent] at hround
          obtain ⟨s₁, hs₁, hoffset, hlen, _⟩ := hround
          rw [hs₁] at h
          obtain rfl : s₁ = s' := by
            rcases h with h | h
            · cases h
            · exact DnsRound.overflow.inj h
          rw [hlen, hoffset]
          congr 1
          dsimp only
          omega
      | terminator =>
          rw [hcomponent] at hround
          obtain ⟨s₁, hs₁, hoffset, hlen, _⟩ := hround
          rw [hs₁] at h
          obtain rfl : s₁ = s' := by
            rcases h with h | h
            · exact DnsRound.terminated.inj h
            · cases h
          rw [hlen, hoffset]
          congr 1
          dsimp only
          omega
      | label len =>
          rw [hcomponent] at hround
          obtain ⟨s₁, hs₁, hoffset, hlen, _⟩ := hround
          rw [hs₁] at h
          rw [ih (n := n) (by omega) h, hlen, hoffset]
          congr 1
          dsimp only
          omega
      | pointer target =>
          rw [hcomponent] at hround
          obtain ⟨s₁, hs₁, _, hlen, _⟩ := hround
          rw [hs₁] at h
          rw [ih (n := (pd.packetSize - s₁.offset).toNat) (by omega) h, hlen, Option.getD_some]
          congr 1
          dsimp only
          omega

/-! ### Domain names -/

section GetDnsName

variable (stack : List UInt8) (pd : RawPacket) (start : Int)

theorem chain_of_le (h : pd.packetSize ≤ off) : chain pd start off = none := by
  rw [chain, component_of_le (by omega)]

theorem ends_of_le (h : pd.packetSize ≤ start) : Ends (chain pd start) start :=
  ⟨1, by rw [after, chain_of_le pd start h]; rfl⟩

theorem getDnsName_isSome_iff (rounds : Nat) :
    (getDnsName stack rounds pd start).1.isSome ↔
      pd.packetSize ≤ start ∨ after (chain pd start) rounds start = none := by
  unfold getDnsName
  by_cases hle : pd.packetSize ≤ start
  · rw [if_pos hle]
    exact iff_of_true rfl (Or.inl hle)
  · rw [if_neg hle, or_iff_right hle]
    have hmore := dnsLoop_more_iff pd start rounds ⟨start, maxdname - 1, [], none, []⟩
    dsimp only at hmore
    cases hloop : dnsLoop pd start rounds ⟨start, maxdname - 1, [], none, []⟩ with
    | more s =>
        have hne := hmore.mp ⟨s, hloop⟩
        exact iff_of_false (by simp) hne
    | terminated s =>
        refine iff_of_true rfl (not_not.mp fun hne => ?_)
        obtain ⟨s', hs'⟩ := hmore.mpr hne
        rw [hloop] at hs'
        cases hs'
    | overflow s =>
        refine iff_of_true rfl (not_not.mp fun hne => ?_)
        obtain ⟨s', hs'⟩ := hmore.mpr hne
        rw [hloop] at hs'
        cases hs'

theorem getDnsName_len {rounds : Nat} {dns : DnsReturn}
    (h : (getDnsName stack rounds pd start).1 = some dns) : dns.len = fieldLength pd start := by
  unfold getDnsName at h
  by_cases hle : pd.packetSize ≤ start
  · rw [if_pos hle] at h
    obtain rfl := Option.some.inj h
    have hzero : (pd.packetSize - start).toNat = 0 := by omega
    rw [fieldLength, hzero]
    simp [dnsOverflow, fieldLengthFrom]
  · rw [if_neg hle] at h
    have hlen : ∀ {s' : DnsName},
        (dnsLoop pd start rounds ⟨start, maxdname - 1, [], none, []⟩ = .terminated s' ∨
          dnsLoop pd start rounds ⟨start, maxdname - 1, [], none, []⟩ = .overflow s') →
        s'.len.getD (s'.offset - start) = fieldLength pd start := by
      intro s' hs'
      rw [dnsLoop_len (n := (pd.packetSize - start).toNat) (by dsimp only; omega) hs', fieldLength]
      dsimp only
      rw [Option.getD_none, sub_self, zero_add]
    cases hloop : dnsLoop pd start rounds ⟨start, maxdname - 1, [], none, []⟩ with
    | more s => rw [hloop] at h; cases h
    | terminated s =>
        rw [hloop] at h
        obtain rfl := Option.some.inj h
        exact hlen (Or.inl hloop)
    | overflow s =>
        rw [hloop] at h
        obtain rfl := Option.some.inj h
        exact hlen (Or.inr hloop)

end GetDnsName

end EtherApe
