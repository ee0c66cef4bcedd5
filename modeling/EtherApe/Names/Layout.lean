import EtherApe.Names
import EtherApe.NamesNetbios.Components

/-!
# Where the name decoder looks

Each decoder of `names.c` takes the header in front of it to have a length of its own, and looks for the
next one behind it. The places it comes to, and the encoded names it reads there, follow from the packet
and the names on the protocol stack.
-/

namespace EtherApe

open CInt Iteration

/-! ### Headers -/

/-- Where the name of a session request starts for the decoder, and how long it takes the names to
be. -/
def sessionRequest (inp : NameInput) (off : Nat) : Option (Nat × Nat) :=
  let lengthOff := (off + 2) % 65536 + 2
  let start := lengthOff % 65536
  if inp.packet.packetSize ≤ lengthOff then none
  else if inp.packet.packetSize ≤ start + inp.pntohs lengthOff then none
  else some (start, inp.pntohs lengthOff)

/-- Where the decoder of a header at `off` goes on, unless it stops there. -/
def NameFun.next (inp : NameInput) (off : Nat) : NameFun → Option Nat
  | getLink6Name => some ((off + 14) % 65536)
  | getNullName => some ((off + 4) % 65536)
  | getLinuxSllName => some ((off + 16) % 65536)
  | getLlcName =>
      if inp.linkType = dltFddi ∨ inp.linkType = dltIeee802 then some ((off + 8) % 65536)
      else if inp.linkType = dltEn10mb then some ((off + 3) % 65536)
      else none
  | getArpName => none
  | getIpName => some ((off + inp.byte off % 16 * 4) % 65536)
  | getIpv6Name => some ((off + 40) % 65536)
  | getIpxName => some ((off + 30) % 65536)
  | getTcpName =>
      if inp.packet.packetSize ≤ off + 14 then none
      else some ((off + inp.byte (off + 12) / 16 * 4) % 65536)
  | getUdpName => some ((off + 8) % 65536)
  | getIpxsapName => none
  | getNbssName =>
      if inp.byte off = 0x81 then (sessionRequest inp off).map fun r => (r.1 + r.2) % 65536
      else some ((off + 2) % 65536)
  | getNbdgmName => none

/-- The encoded name at `start`, and the one behind it if `second`. -/
def namesFrom (inp : NameInput) (start : Int) (second : Bool) : List Int :=
  start :: if second then [start + fieldLength inp.packet start] else []

/-- Where the encoded names start that the decoder of a header at `off` reads. -/
def NameFun.encodedNames (inp : NameInput) (off : Nat) : NameFun → List Int
  | getNbssName =>
      if inp.byte off = 0x81 then
        match sessionRequest inp off with
        | some (start, _) => namesFrom inp start (inp.dir = .outbound)
        | none => []
      else []
  | getNbdgmName =>
      if inp.byte off = 0x10 ∨ inp.byte off = 0x11 ∨ inp.byte off = 0x12 then
        namesFrom inp (((off + 10) % 65536 + 4) % 65536 : Nat) (inp.dir = .inbound)
      else if (inp.byte off = 0x14 ∨ inp.byte off = 0x15 ∨ inp.byte off = 0x16) ∧
          inp.dir = .inbound then
        namesFrom inp ((off + 10) % 65536 : Nat) false
      else []
  | _ => []

/-- A header that the name decoder comes to. -/
structure NameHeader where
  level : Nat
  fn : NameFun
  off : Nat

/-- The headers that the name decoder comes to when it looks for the one of `level` at `off`. -/
def headersFrom (inp : NameInput) : Nat → Nat → Nat → List NameHeader
  | 0, _, _ => []
  | levels + 1, level, off =>
      match inp.tokens.token level with
      | none => []
      | some name =>
          match protFunctionsTable.lookup name with
          | none => headersFrom inp levels (level + 1) off
          | some fn =>
              if inp.packet.packetSize ≤ off then []
              else
                ⟨level, fn, off⟩ ::
                  match fn.next inp off with
                  | none => []
                  | some next => headersFrom inp levels (level + 1) next

/-- The headers that `get_packet_names` comes to. -/
def headers (inp : NameInput) : List NameHeader := headersFrom inp stackSize 1 0

/-- Where the encoded names start that `get_packet_names` reads. -/
def encodedNames (inp : NameInput) : List Int :=
  (headers inp).flatMap fun h => h.fn.encodedNames inp h.off

/-! ### What the decoders leave alone -/

section Frame

variable (env : NamesEnv) (inp : NameInput) (rounds : Nat) (nt : NameAdd)

@[simp] theorem fillNodeId_offset (apemode : ApeMode) (disp portdisp : Int) (type : Nat) :
    (fillNodeId inp apemode disp portdisp type nt).offset = nt.offset := by
  unfold fillNodeId
  split <;> rfl

@[simp] theorem fillNodeId_level (apemode : ApeMode) (disp portdisp : Int) (type : Nat) :
    (fillNodeId inp apemode disp portdisp type nt).level = nt.level := by
  unfold fillNodeId
  split <;> rfl

@[simp] theorem addAddressName_offset (numeric : List UInt8) :
    (addAddressName env inp numeric nt).offset = nt.offset := rfl

@[simp] theorem addAddressName_level (numeric : List UInt8) :
    (addAddressName env inp numeric nt).level = nt.level := rfl

@[simp] theorem addTcpName_offset : (addTcpName env inp nt).offset = nt.offset := by
  unfold addTcpName
  split <;> simp

@[simp] theorem addTcpName_level : (addTcpName env inp nt).level = nt.level := by
  unfold addTcpName
  split <;> simp

@[simp] theorem addNetbiosName_offset (found : NbnsName) :
    (addNetbiosName inp found nt).offset = nt.offset := by
  unfold addNetbiosName
  dsimp only
  split <;> rfl

@[simp] theorem addNetbiosName_level (found : NbnsName) :
    (addNetbiosName inp found nt).level = nt.level := by
  unfold addNetbiosName
  dsimp only
  split <;> rfl

@[simp] theorem addNetbiosName_nodeId (found : NbnsName) :
    (addNetbiosName inp found nt).nodeId = nt.nodeId := by
  unfold addNetbiosName
  dsimp only
  split <;> rfl

theorem nbnsNames_touch (second : Bool) :
    ∃ found reads, nbnsNames env inp rounds second nt = (found, nt.touch reads) := by
  unfold nbnsNames
  split
  · exact ⟨_, _, rfl⟩
  · split
    · exact ⟨_, _, rfl⟩
    · exact ⟨_, _, rfl⟩

end Frame

/-! ### Returning -/

/-- Enough rounds to get to the end of the name at `start`. -/
def EnoughRounds (inp : NameInput) (rounds : Nat) (start : Int) : Prop :=
  inp.packet.packetSize ≤ start ∨ after (chain inp.packet start) rounds start = none

section Returning

variable (env : NamesEnv) {inp : NameInput} {rounds : Nat} {nt : NameAdd}

theorem nbnsOfDns_nameLen (stray : StrayBytes) (n : Nat) (dns : DnsReturn) :
    (nbnsOfDns stray n dns).nameLen = dns.len := by
  unfold nbnsOfDns
  dsimp only
  split
  · rfl
  · rfl
  · split <;> rfl

theorem etherealNbnsName_nameLen {stray : StrayBytes} {pd : RawPacket} {start : Int} {n : Nat}
    {name : NbnsName} {reads : List Int}
    (h : etherealNbnsName stray rounds pd start n = (some name, reads)) :
    name.nameLen = fieldLength pd start := by
  obtain ⟨dns, hdns, rfl⟩ := Option.map_eq_some_iff.mp (congrArg Prod.fst h)
  rw [nbnsOfDns_nameLen, getDnsName_len stray.stack pd start hdns]

theorem etherealNbnsName_isSome_iff (stray : StrayBytes) (start : Int) (n : Nat) :
    (etherealNbnsName stray rounds inp.packet start n).1.isSome ↔ EnoughRounds inp rounds start := by
  rw [etherealNbnsName, Option.isSome_map, getDnsName_isSome_iff]
  rfl

theorem nbnsNames_isSome_iff (second : Bool) :
    (nbnsNames env inp rounds second nt).1.isSome ↔
      ∀ start ∈ namesFrom inp nt.offset second, EnoughRounds inp rounds start := by
  unfold nbnsNames namesFrom
  rw [List.forall_mem_cons,
    ← etherealNbnsName_isSome_iff env.stray _ nameSize]
  rcases hfirst : etherealNbnsName env.stray rounds inp.packet nt.offset nameSize with
    ⟨_ | name, reads⟩
  · exact iff_of_false (by simp) (by simp)
  · have hlen : name.nameLen = fieldLength inp.packet nt.offset := etherealNbnsName_nameLen hfirst
    cases second with
    | false => simp
    | true =>
        simp only [if_pos, Option.isSome_some, true_and, List.mem_singleton, forall_eq]
        rw [← etherealNbnsName_isSome_iff env.stray _ nameSize, hlen]

theorem getSessionRequestName_eq (inp : NameInput) (rounds : Nat) (nt : NameAdd) (off : Nat)
    (hoff : nt.offset = (off + 2) % 65536) :
    match sessionRequest inp off with
    | none => ∃ nt', getSessionRequestName env inp rounds nt = (some false, nt') ∧
        nt'.level = nt.level ∧ nt'.nodeId = nt.nodeId ∧ nt'.names = nt.names
    | some (start, length) => ∃ reads, ∀ found nt',
        nbnsNames env inp rounds (inp.dir = .outbound) ((nt.touch reads).advance 2) = (found, nt') →
        ((nt.touch reads).advance 2).offset = start ∧
        getSessionRequestName env inp rounds nt =
          (found.map fun _ => true, match found with
            | none => nt'
            | some name => (addNetbiosName inp name nt').advance length) := by
  unfold sessionRequest getSessionRequestName
  rw [← hoff]
  dsimp only
  by_cases hlength : inp.packet.packetSize ≤ nt.offset + 2
  · rw [if_pos hlength, if_pos hlength]
    exact ⟨nt, rfl, rfl, rfl, rfl⟩
  · rw [if_neg hlength, if_neg hlength]
    by_cases hdata : inp.packet.packetSize ≤
        (nt.offset + 2) % 65536 + inp.pntohs ((nt.offset + 2 : Nat) : Int)
    · rw [if_pos hdata]
      exact ⟨_, if_pos (by simpa using hdata), rfl, rfl, rfl⟩
    · rw [if_neg hdata]
      refine ⟨indicesFrom (nt.offset + 2) 2, fun found nt' h => ⟨rfl, ?_⟩⟩
      rw [if_neg (by simpa using hdata), h]
      cases found <;> rfl

/-- What the decoder of a session message comes to: a message of another kind, a request that is cut off,
a name that it does not get to the end of, or the names of a request. -/
inductive SessionStep (inp : NameInput) (rounds : Nat) (nt : NameAdd) : Option Bool × NameAdd → Prop
  | other (hnext : NameFun.getNbssName.next inp nt.offset = some ((nt.offset + 2) % 65536))
      (hencoded : NameFun.getNbssName.encodedNames inp nt.offset = []) :
      SessionStep inp rounds nt (some true, (nt.touch [(nt.offset : Int)]).advance 2)
  | cut {nt' : NameAdd} (hnext : NameFun.getNbssName.next inp nt.offset = none)
      (hencoded : NameFun.getNbssName.encodedNames inp nt.offset = []) (hlevel : nt'.level = nt.level)
      (hid : nt'.nodeId = nt.nodeId) (hnames : nt'.names = nt.names) :
      SessionStep inp rounds nt (some false, nt')
  | endless {nt₁ : NameAdd} {reads : List Int}
      (hencoded : NameFun.getNbssName.encodedNames inp nt.offset =
        namesFrom inp nt₁.offset (inp.dir = .outbound)) (hid : nt₁.nodeId = nt.nodeId)
      (hnames : nt₁.names = nt.names)
      (hread : nbnsNames env inp rounds (inp.dir = .outbound) nt₁ = (none, nt₁.touch reads)) :
      SessionStep inp rounds nt (none, nt₁.touch reads)
  | request {nt₁ : NameAdd} {reads : List Int} {name : NbnsName} {length : Nat}
      (hnext : NameFun.getNbssName.next inp nt.offset = some ((nt₁.offset + length) % 65536))
      (hencoded : NameFun.getNbssName.encodedNames inp nt.offset =
        namesFrom inp nt₁.offset (inp.dir = .outbound)) (hlevel : nt₁.level = nt.level)
      (hid : nt₁.nodeId = nt.nodeId) (hnames : nt₁.names = nt.names)
      (hread : nbnsNames env inp rounds (inp.dir = .outbound) nt₁ = (some name, nt₁.touch reads)) :
      SessionStep inp rounds nt (some true, (addNetbiosName inp name (nt₁.touch reads)).advance length)

theorem getNbssName_step (hlt : nt.offset < inp.packet.packetSize) :
    SessionStep env inp rounds nt (getNbssName env inp rounds nt) := by
  rw [EtherApe.getNbssName, if_neg (by omega)]
  dsimp only
  by_cases htype : inp.byte nt.offset = 0x81
  · rw [if_pos htype]
    have hspec := getSessionRequestName_eq env inp rounds
      ((nt.touch [(nt.offset : Int)]).advance 2) nt.offset rfl
    have hnext : NameFun.getNbssName.next inp nt.offset =
        (sessionRequest inp nt.offset).map fun r => (r.1 + r.2) % 65536 := by
      rw [NameFun.next, if_pos htype]
    cases hrequest : sessionRequest inp nt.offset with
    | none =>
        have hencoded : NameFun.getNbssName.encodedNames inp nt.offset = [] := by
          rw [NameFun.encodedNames, if_pos htype, hrequest]
        rw [hrequest] at hspec hnext
        obtain ⟨nt', heq, hlevel, hid, hnames⟩ := hspec
        rw [heq]
        exact .cut hnext hencoded hlevel hid hnames
    | some r =>
        have hencoded : NameFun.getNbssName.encodedNames inp nt.offset =
            namesFrom inp r.1 (inp.dir = .outbound) := by
          rw [NameFun.encodedNames, if_pos htype, hrequest]
        rw [hrequest] at hspec hnext
        obtain ⟨reads, hspec⟩ := hspec
        obtain ⟨found, reads', hread⟩ := nbnsNames_touch env inp rounds
          (((nt.touch [(nt.offset : Int)]).advance 2 |>.touch reads).advance 2) (inp.dir = .outbound)
        obtain ⟨hstart, heq⟩ := hspec _ _ hread
        rw [heq]
        rw [← hstart] at hencoded
        rw [Option.map_some, ← hstart] at hnext
        cases found with
        | none => exact .endless hencoded rfl rfl hread
        | some name => exact .request hnext hencoded rfl rfl rfl hread
  · rw [if_neg htype]
    exact .other (if_neg htype) (if_neg htype)

/-- A datagram's decoder stops after the one name it reads. -/
def nbdgmName (env : NamesEnv) (inp : NameInput) (rounds : Nat) (second : Bool) (nt : NameAdd) :
    Option Bool × NameAdd :=
  let r := nbnsNames env inp rounds second nt
  r.1.elim (none, r.2) fun found => (some false, addNetbiosName inp found r.2)

theorem getNbdgmName_eq (env : NamesEnv) (inp : NameInput) (rounds : Nat) (nt : NameAdd) :
    getNbdgmName env inp rounds nt =
      if inp.packet.packetSize < nt.offset + 1 then (some false, nt)
      else if inp.byte nt.offset = 0x10 ∨ inp.byte nt.offset = 0x11 ∨ inp.byte nt.offset = 0x12 then
        nbdgmName env inp rounds (inp.dir = .inbound)
          (((nt.touch [(nt.offset : Int)]).advance 10).advance 4)
      else if (inp.byte nt.offset = 0x14 ∨ inp.byte nt.offset = 0x15 ∨ inp.byte nt.offset = 0x16) ∧
          inp.dir = .inbound then
        nbdgmName env inp rounds false ((nt.touch [(nt.offset : Int)]).advance 10)
      else (some false, (nt.touch [(nt.offset : Int)]).advance 10) := by
  rw [EtherApe.getNbdgmName]
  dsimp only [nbdgmName]
  generalize nbnsNames env inp rounds (inp.dir = .inbound) _ = first
  generalize nbnsNames env inp rounds false _ = second
  obtain ⟨_ | _, _⟩ := first
  all_goals
    obtain ⟨_ | _, _⟩ := second
    all_goals rfl

theorem call_returned {env : NamesEnv} (f : NameFun) {goOn : Bool} {nt' : NameAdd}
    (hlt : nt.offset < inp.packet.packetSize) (h : f.call env inp rounds nt = (some goOn, nt')) :
    nt'.level = nt.level ∧ f.next inp nt.offset = if goOn then some nt'.offset else none := by
  cases f with
  | getLink6Name =>
      cases h
      exact ⟨by simp, by simp [NameFun.next]⟩
  | getNullName =>
      cases h
      exact ⟨rfl, rfl⟩
  | getLinuxSllName =>
      cases h
      exact ⟨rfl, rfl⟩
  | getLlcName =>
      rw [NameFun.call, EtherApe.getLlcName] at h
      rw [NameFun.next]
      by_cases hring : inp.linkType = dltFddi ∨ inp.linkType = dltIeee802
      · rw [if_pos hring] at h ⊢
        cases h
        exact ⟨rfl, rfl⟩
      · rw [if_neg hring] at h ⊢
        by_cases heth : inp.linkType = dltEn10mb
        · rw [if_pos heth] at h ⊢
          cases h
          exact ⟨rfl, rfl⟩
        · rw [if_neg heth] at h ⊢
          cases h
          exact ⟨rfl, rfl⟩
  | getArpName =>
      rw [NameFun.call, EtherApe.getArpName] at h
      dsimp only at h
      split_ifs at h
      all_goals
        cases h
        exact ⟨by simp, rfl⟩
  | getIpName =>
      rw [NameFun.call, EtherApe.getIpName] at h
      rw [NameFun.next]
      rw [if_pos (by simpa using hlt)] at h
      cases h
      exact ⟨by simp, by simp⟩
  | getIpv6Name =>
      cases h
      exact ⟨by simp, by simp [NameFun.next]⟩
  | getIpxName =>
      cases h
      exact ⟨rfl, rfl⟩
  | getTcpName =>
      have hoffset : (if env.mode = .tcp then addTcpName env inp nt else nt).offset = nt.offset := by
        split <;> simp
      have hlevel : (if env.mode = .tcp then addTcpName env inp nt else nt).level = nt.level := by
        split <;> simp
      rw [NameFun.call, EtherApe.getTcpName] at h
      rw [NameFun.next]
      dsimp only at h
      rw [hoffset] at h
      by_cases hdata : inp.packet.packetSize ≤ nt.offset + 14
      · rw [if_pos hdata] at h ⊢
        cases h
        exact ⟨hlevel, rfl⟩
      · rw [if_neg hdata] at h ⊢
        cases h
        exact ⟨by simpa using hlevel, by simp [hoffset]⟩
  | getUdpName =>
      cases h
      exact ⟨rfl, rfl⟩
  | getIpxsapName =>
      rw [NameFun.call, EtherApe.getIpxsapName] at h
      dsimp only at h
      split_ifs at h
      all_goals
        cases h
        exact ⟨by simp, rfl⟩
  | getNbssName =>
      have hstep := @getNbssName_step env inp rounds nt hlt
      rw [NameFun.call] at h
      rw [h] at hstep
      cases hstep with
      | other hnext _ => exact ⟨rfl, hnext⟩
      | cut hnext _ hlevel _ _ => exact ⟨hlevel, hnext⟩
      | request hnext _ hlevel _ _ _ => exact ⟨by simpa using hlevel, by simpa using hnext⟩
  | getNbdgmName =>
      rw [NameFun.call, getNbdgmName_eq] at h
      rw [NameFun.next]
      rw [if_neg (by omega)] at h
      have hnames : ∀ (second : Bool) (nt₁ : NameAdd), nt₁.level = nt.level →
          nbdgmName env inp rounds second nt₁ = (some goOn, nt') →
          nt'.level = nt.level ∧ none = if goOn then some nt'.offset else none := by
        intro second nt₁ hlevel h
        obtain ⟨found, reads, hread⟩ := nbnsNames_touch env inp rounds nt₁ second
        rw [nbdgmName, hread] at h
        cases found with
        | none => cases h
        | some name =>
            cases h
            exact ⟨by simpa using hlevel, rfl⟩
      split_ifs at h
      · exact hnames _ _ (by simp) h
      · exact hnames _ _ (by simp) h
      · cases h
        exact ⟨by simp, rfl⟩

/-- A decoder returns just when there are enough rounds for the names it reads. -/
theorem call_isSome_iff (f : NameFun) (hlt : nt.offset < inp.packet.packetSize) :
    (f.call env inp rounds nt).1.isSome ↔
      ∀ start ∈ f.encodedNames inp nt.offset, EnoughRounds inp rounds start := by
  cases f with
  | getNbssName =>
      have hstep := @getNbssName_step env inp rounds nt hlt
      rw [NameFun.call]
      generalize EtherApe.getNbssName env inp rounds nt = returned at hstep
      cases hstep with
      | other _ hencoded =>
          rw [hencoded]
          exact iff_of_true rfl (List.forall_mem_nil _)
      | cut _ hencoded _ _ _ =>
          rw [hencoded]
          exact iff_of_true rfl (List.forall_mem_nil _)
      | endless hencoded _ _ hread =>
          rw [hencoded, ← nbnsNames_isSome_iff env, hread]
          exact Iff.rfl
      | request _ hencoded _ _ _ hread =>
          rw [hencoded, ← nbnsNames_isSome_iff env, hread]
          exact Iff.rfl
  | getNbdgmName =>
      rw [NameFun.call, NameFun.encodedNames, getNbdgmName_eq, if_neg (by omega)]
      have hnames : ∀ (second : Bool) (nt₁ : NameAdd),
          (nbdgmName env inp rounds second nt₁).1.isSome ↔
          ∀ start ∈ namesFrom inp nt₁.offset second, EnoughRounds inp rounds start := by
        intro second nt₁
        rw [← nbnsNames_isSome_iff env, nbdgmName]
        rcases nbnsNames env inp rounds second nt₁ with ⟨_ | found, nt₂⟩
        · exact Iff.rfl
        · exact Iff.rfl
      split_ifs
      · exact hnames _ _
      · exact hnames _ _
      · exact iff_of_true rfl (by simp)
  | _ => exact iff_of_true rfl (by simp [NameFun.encodedNames])

end Returning

end EtherApe
