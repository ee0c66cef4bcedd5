import EtherApe.DecodeProto.Framings
import EtherApe.Names.Endpoints

/-!
# Where the IP header is

The protocol decoder comes to the IP header by the real lengths of the headers in front of it. The name
decoder has only their names, of which some have a fixed size for it and others none, so that it comes to
the same place behind some framings only. The bytes that it finds elsewhere are the address by chance.
-/

namespace EtherApe

open CInt

/-! ### Sizes of link headers -/

/-- The size that the name decoder takes a link header to have, unless it stops there. -/
def linkSize (linkType : Nat) (name : String) : Option Nat :=
  match protFunctionsTable.lookup name with
  | none => some 0
  | some .getLink6Name => some 14
  | some .getNullName => some 4
  | some .getLinuxSllName => some 16
  | some .getLlcName =>
      if linkType = dltFddi ∨ linkType = dltIeee802 then some 8
      else if linkType = dltEn10mb then some 3
      else none
  | some _ => none

/-- Where the name decoder looks behind headers with the given names. -/
def linkOffset (linkType : Nat) : List String → Option Nat
  | [] => some 0
  | name :: names => do
      let size ← linkSize linkType name
      let rest ← linkOffset linkType names
      some (size + rest)

def LinkName (name : String) : Prop :=
  protFunctionsTable.lookup name ∈
    [none, some .getLink6Name, some .getNullName, some .getLinuxSllName, some .getLlcName]

instance (name : String) : Decidable (LinkName name) := inferInstanceAs (Decidable (_ ∈ _))

section Sizes

variable {inp : NameInput} {name : String} {fn : NameFun} {off : Nat}

theorem linkSize_le {size : Nat} (h : linkSize inp.linkType name = some size) : size ≤ 16 := by
  unfold linkSize at h
  split at h
  all_goals try split_ifs at h
  all_goals cases h
  all_goals decide

theorem next_of_linkSize (hname : LinkName name) (hfn : protFunctionsTable.lookup name = some fn)
    (hoff : off + 16 < 65536) :
    fn.next inp off = (linkSize inp.linkType name).map (off + ·) ∧ fn.encodedNames inp off = [] := by
  unfold LinkName at hname
  unfold linkSize
  rw [hfn] at hname ⊢
  simp only [List.mem_cons, Option.some.injEq, reduceCtorEq, List.not_mem_nil, or_false, false_or]
    at hname
  rcases hname with rfl | rfl | rfl | rfl
  · exact ⟨congrArg some (Nat.mod_eq_of_lt (by omega)), rfl⟩
  · exact ⟨congrArg some (Nat.mod_eq_of_lt (by omega)), rfl⟩
  · exact ⟨congrArg some (Nat.mod_eq_of_lt (by omega)), rfl⟩
  · refine ⟨?_, rfl⟩
    unfold NameFun.next
    dsimp only
    split_ifs
    · exact congrArg some (Nat.mod_eq_of_lt (by omega))
    · exact congrArg some (Nat.mod_eq_of_lt (by omega))
    · rfl

end Sizes

def PacketProtos.Named (tokens : PacketProtos) (level : Nat) (names : List String) : Prop :=
  ∀ i < names.length, tokens.token (level + i) = names[i]?

namespace PacketProtos.Named

variable {tokens : PacketProtos} {level : Nat} {name : String} {names : List String}

theorem head (h : tokens.Named level (name :: names)) : tokens.token level = some name :=
  h 0 (Nat.succ_pos _)

theorem tail (h : tokens.Named level (name :: names)) : tokens.Named (level + 1) names := by
  intro i hi
  have habove := h (i + 1) (Nat.succ_lt_succ hi)
  rwa [List.getElem?_cons_succ, Nat.add_comm i, ← Nat.add_assoc] at habove

end PacketProtos.Named

section Walk

variable {inp : NameInput} {names : List String} {level off n : Nat}

theorem linkOffset_cons {name : String} (h : linkOffset inp.linkType (name :: names) = some n) :
    ∃ size rest, linkSize inp.linkType name = some size ∧ linkOffset inp.linkType names = some rest ∧
      n = size + rest := by
  obtain ⟨size, hsize, hrest⟩ := Option.bind_eq_some_iff.mp h
  obtain ⟨rest, hrest', hsum⟩ := Option.bind_eq_some_iff.mp hrest
  exact ⟨size, rest, hsize, hrest', (Option.some.inj hsum).symm⟩

theorem linkSize_of_no_decoder {name : String} (h : protFunctionsTable.lookup name = none) :
    linkSize inp.linkType name = some 0 := by
  unfold linkSize
  rw [h]

theorem decoder_of_lookup {name : String} {fn : NameFun} (htoken : inp.tokens.token level = some name)
    (h : protFunctionsTable.lookup name = some fn) : inp.tokens.decoder level = some fn := by
  rw [PacketProtos.decoder, htoken]
  exact h

/-- Where there is enough data, the name decoder gets behind the link headers, which register no encoded
names. -/
theorem headersFrom_link (hnames : ∀ name ∈ names, LinkName name) (htokens : inp.tokens.Named level names)
    (hroom : off + 16 * names.length < 65536) (hoffset : linkOffset inp.linkType names = some n)
    (hlong : off + n < inp.packet.packetSize) :
    ∃ hs, (∀ h ∈ hs, h.fn.encodedNames inp h.off = []) ∧ ∀ levels,
      headersFrom inp (levels + names.length) level off =
        hs ++ headersFrom inp levels (level + names.length) (off + n) := by
  induction names generalizing level off n with
  | nil =>
      cases hoffset
      exact ⟨[], fun h hmem => absurd hmem List.not_mem_nil, fun levels => rfl⟩
  | cons name names ih =>
      obtain ⟨size, rest, hsize, hrest, rfl⟩ := linkOffset_cons hoffset
      have hle := linkSize_le hsize
      rw [List.length_cons] at hroom
      obtain ⟨hs, hread, hheaders⟩ := @ih (level + 1) (off + size) rest
        (fun name' hmem => hnames name' (List.mem_cons_of_mem _ hmem)) htokens.tail (by omega) hrest
        (by omega)
      have hlevel : level + (name :: names).length = level + 1 + names.length := by
        rw [List.length_cons, Nat.add_assoc, Nat.add_comm 1]
      rw [hlevel, ← Nat.add_assoc]
      cases hlookup : protFunctionsTable.lookup name with
      | none =>
          obtain rfl : size = 0 :=
            Option.some.inj (hsize.symm.trans (linkSize_of_no_decoder hlookup))
          refine ⟨hs, hread, fun levels => ?_⟩
          rw [← hheaders levels]
          exact headersFrom_of_no_decoder htokens.head hlookup
      | some fn =>
          obtain ⟨hnext, hencoded⟩ := @next_of_linkSize inp name fn off
            (hnames name List.mem_cons_self) hlookup (by omega)
          rw [hsize] at hnext
          refine ⟨⟨level, fn, off⟩ :: hs, ?_, fun levels => ?_⟩
          · rw [List.forall_mem_cons]
            exact ⟨hencoded, hread⟩
          · rw [List.cons_append, ← hheaders levels]
            exact headersFrom_of_decoder (decoder_of_lookup htokens.head hlookup) (by omega) hnext

/-- Otherwise it does not come to a header behind them. -/
theorem level_lt_of_short (hnames : ∀ name ∈ names, LinkName name)
    (htokens : inp.tokens.Named level names) (hroom : off + 16 * names.length < 65536)
    (hshort : ∀ n, linkOffset inp.linkType names = some n → inp.packet.packetSize ≤ off + n)
    {fn : NameFun} (hdecoder : inp.tokens.decoder (level + names.length) = some fn) {levels : Nat}
    {h : NameHeader} (hmem : h ∈ headersFrom inp levels level off) : h.level < level + names.length := by
  induction names generalizing level off levels with
  | nil =>
      cases levels with
      | zero => cases hmem
      | succ levels =>
          have hlt := (mem_headersFrom_of_decoder hdecoder hmem).1
          have hle := hshort 0 rfl
          omega
  | cons name names ih =>
      have hlevel : level + (name :: names).length = level + 1 + names.length := by
        rw [List.length_cons, Nat.add_assoc, Nat.add_comm 1]
      rw [hlevel] at hdecoder ⊢
      rw [List.length_cons] at hroom
      cases levels with
      | zero => cases hmem
      | succ levels =>
          have hrest {off' size : Nat} (hsize : linkSize inp.linkType name = some size)
              (hoff' : off' = off + size) (hmem : h ∈ headersFrom inp levels (level + 1) off') :
              h.level < level + 1 + names.length := by
            have hle := linkSize_le hsize
            refine ih (fun name' hmem => hnames name' (List.mem_cons_of_mem _ hmem)) htokens.tail
              (by omega) (fun n hn => ?_) hdecoder hmem
            have hsum : linkOffset inp.linkType (name :: names) = some (size + n) := by
              rw [linkOffset, hsize, hn]
              rfl
            have hlong := hshort _ hsum
            omega
          cases hlookup : protFunctionsTable.lookup name with
          | none =>
              rw [headersFrom_of_no_decoder htokens.head hlookup] at hmem
              exact hrest (linkSize_of_no_decoder hlookup) rfl hmem
          | some fn' =>
              obtain ⟨hlt, rfl | ⟨next, hnext, hmem⟩⟩ :=
                mem_headersFrom_of_decoder (decoder_of_lookup htokens.head hlookup) hmem
              · show level < level + 1 + names.length
                omega
              · rw [(@next_of_linkSize inp name fn' off (hnames name List.mem_cons_self) hlookup
                  (by omega)).1] at hnext
                obtain ⟨size, hsize, hnext⟩ := Option.map_eq_some_iff.mp hnext
                exact hrest hsize hnext.symm hmem

end Walk

/-! ### Addresses of IP headers -/

namespace NameFun

/-- The decoders of the two versions of IP. -/
def IsIp (fn : NameFun) : Prop := fn ∈ [getIpName, getIpv6Name]

instance (fn : NameFun) : Decidable fn.IsIp := inferInstanceAs (Decidable (_ ∈ _))

def ipFamily : NameFun → Nat
  | getIpv6Name => afInet6
  | _ => afInet

def ipSize : NameFun → Nat
  | getIpv6Name => 16
  | _ => 4

/-- The place of the address in a header. -/
def ipDisp (dir : PacketDirection) : NameFun → Nat
  | getIpv6Name => if dir = .inbound then 24 else 8
  | _ => if dir = .inbound then 16 else 12

end NameFun

/-- The address that a decoder makes of the bytes of a header. -/
def ipAddress (fn : NameFun) (src : Nat → UInt8) : Address :=
  (Address.clear.setType fn.ipFamily).setAddr fn.ipSize src

theorem NameFun.ipSize_le (fn : NameFun) : fn.ipSize ≤ 16 := by
  cases fn <;> decide

theorem ipAddress_type {fn : NameFun} (src : Nat → UInt8) : (ipAddress fn src).type = fn.ipFamily := by
  unfold ipAddress
  rw [NameAdd.type_setAddr, NameAdd.type_setType]
  cases fn <;> decide

theorem ipAddress_eq_iff {fn fn' : NameFun} (hfn : fn.IsIp) (hfn' : fn'.IsIp) {src src' : Nat → UInt8} :
    ipAddress fn src = ipAddress fn' src' ↔ fn = fn' ∧ ∀ k < fn.ipSize, src k = src' k := by
  constructor
  · intro h
    have htype : fn.ipFamily = fn'.ipFamily := by
      rw [← ipAddress_type src, h, ipAddress_type]
    have hsame : fn = fn' := by
      simp only [NameFun.IsIp, List.mem_cons, List.not_mem_nil, or_false] at hfn hfn'
      rcases hfn with rfl | rfl
      · rcases hfn' with rfl | rfl
        · rfl
        · cases htype
      · rcases hfn' with rfl | rfl
        · cases htype
        · rfl
    subst hsame
    refine ⟨rfl, fun k hk => ?_⟩
    have hle := fn.ipSize_le
    have hbyte := congrFun h ⟨4 + k, by omega⟩
    unfold ipAddress at hbyte
    rw [setAddr_apply, setAddr_apply, if_pos ⟨Nat.le_add_right 4 k, Nat.add_lt_add_left hk 4⟩,
      if_pos ⟨Nat.le_add_right 4 k, Nat.add_lt_add_left hk 4⟩] at hbyte
    dsimp only at hbyte
    rwa [Nat.add_sub_cancel_left] at hbyte
  · intro h
    obtain ⟨rfl, hbytes⟩ := h
    funext k
    unfold ipAddress
    rw [setAddr_apply, setAddr_apply]
    split
    next hk => exact hbytes _ (by omega)
    · rfl

section Fills

variable {mode : ApeMode} {inp : NameInput} {fn : NameFun} {off family : Nat}

theorem fill_ip (hfn : fn.IsIp) :
    fn.fill mode inp off family = some ⟨.ip, off, fn.ipDisp inp.dir, 0, fn.ipFamily⟩ := by
  simp only [NameFun.IsIp, List.mem_cons, List.not_mem_nil, or_false] at hfn
  unfold NameFun.fill NameFun.ipDisp
  rcases hfn with rfl | rfl
  · dsimp only
    split_ifs
    all_goals rfl
  · dsimp only
    split_ifs
    all_goals rfl

theorem fillSize_ip (hfn : fn.IsIp) : fillSize .ip fn.ipFamily = fn.ipSize := by
  simp only [NameFun.IsIp, List.mem_cons, List.not_mem_nil, or_false] at hfn
  rcases hfn with rfl | rfl
  all_goals rfl

theorem registers_ip (hfn : fn.IsIp) {env : NamesEnv} : fn.Registers env inp off := by
  simp only [NameFun.IsIp, List.mem_cons, List.not_mem_nil, or_false] at hfn
  rcases hfn with rfl | rfl
  all_goals exact trivial

theorem encodedNames_ip (hfn : fn.IsIp) : fn.encodedNames inp off = [] := by
  simp only [NameFun.IsIp, List.mem_cons, List.not_mem_nil, or_false] at hfn
  rcases hfn with rfl | rfl
  all_goals rfl

/-- The address in a header is captured. -/
def AddressCaptured (inp : NameInput) (fn : NameFun) (off : Nat) : Prop :=
  off + fn.ipDisp inp.dir + fn.ipSize ≤ inp.packet.packetSize

instance : Decidable (AddressCaptured inp fn off) := inferInstanceAs (Decidable (_ ≤ _))

theorem fillFits_ip_iff (hfn : fn.IsIp) (hoff : off < inp.packet.packetSize) :
    fillFits inp off (fn.ipDisp inp.dir) 0 (fillSize .ip fn.ipFamily) ↔ AddressCaptured inp fn off := by
  have hsize := inp.packet.packetSize_lt
  have hdisp : 8 ≤ fn.ipDisp inp.dir ∧ fn.ipDisp inp.dir ≤ 24 := by
    unfold NameFun.ipDisp
    split
    all_goals split_ifs
    all_goals decide
  have hle := fn.ipSize_le
  rw [fillSize_ip hfn]
  unfold fillFits AddressCaptured unsigned
  omega

theorem complete_ip_iff (hfn : fn.IsIp) (hoff : off < inp.packet.packetSize) :
    Fill.Complete inp ⟨.ip, off, fn.ipDisp inp.dir, 0, fn.ipFamily⟩ ↔ AddressCaptured inp fn off := by
  constructor
  · intro h
    exact (fillFits_ip_iff hfn hoff).mp h.2.1
  · intro h
    have hpos : 0 < fn.ipSize := by
      cases fn <;> decide
    refine ⟨(fillSize_ip hfn).symm ▸ hpos, (fillFits_ip_iff hfn hoff).mpr h, fun i hi => ?_⟩
    unfold fillReads at hi
    dsimp only at hi
    rw [if_neg (by decide), List.append_nil, fillSize_ip hfn] at hi
    have hbounds := mem_indicesFrom.mp hi
    unfold AddressCaptured at h
    exact ⟨by omega, by omega⟩

theorem nodeId_ip (hfn : fn.IsIp) (hoff : off < inp.packet.packetSize)
    (hcaptured : AddressCaptured inp fn off) :
    Fill.nodeId inp ⟨.ip, off, fn.ipDisp inp.dir, 0, fn.ipFamily⟩ =
      ipId (ipAddress fn fun k => inp.packet.p (off + fn.ipDisp inp.dir + k : Nat)) := by
  rw [Fill.nodeId_of_fits ((fillFits_ip_iff hfn hoff).mpr hcaptured)]
  have hlen : addressLen fn.ipFamily = fn.ipSize := fillSize_ip hfn
  unfold filledNodeId ipAddress
  dsimp only
  rw [hlen]
  push_cast
  exact setIp_eq (fun _ _ => rfl) _

end Fills

namespace Handover

variable {o : Handover} {p : IpPayload}

def ipFun (o : Handover) : NameFun :=
  if (o.window.get 0).toNat / 16 = 4 then .getIpName else .getIpv6Name

theorem lookup_ipLabel (o : Handover) : protFunctionsTable.lookup o.ipLabel = some o.ipFun := by
  unfold ipLabel ipFun
  split
  all_goals rfl

theorem isIp_ipFun (o : Handover) : o.ipFun.IsIp := by
  unfold ipFun
  split
  all_goals decide

def address (o : Handover) (dir : PacketDirection) : Address :=
  ipAddress o.ipFun fun k => o.window.get (o.ipFun.ipDisp dir + k)

theorem setAddr_sixteen (a : Address) (src : Nat → UInt8) :
    (a.setType afInet6).setAddr 16 src = ipAddress .getIpv6Name src := by
  funext k
  show _ = (Address.clear.setType afInet6).setAddr 16 src k
  rw [setAddr_apply, setAddr_apply, setType_apply, setType_apply]
  split
  · rfl
  · rw [if_pos (by omega), if_pos (by omega)]

theorem ip_nodeIds (hsrc : PortClear o.srcNodeId) (hdst : PortClear o.dstNodeId)
    (hp : o.ip .ip = some p) (dir : PacketDirection) :
    (if dir = .inbound then p.dstNodeId else p.srcNodeId) = ipId (o.address dir) := by
  have hmode : ApeMode.ip ≠ .link6 := by decide
  have hv4 (src : Nat → UInt8) : (Address.clear.setType afInet).setAddr 4 src =
      ipAddress .getIpName src := rfl
  unfold ip at hp
  unfold address ipFun
  split at hp
  · cases hp
  · split at hp
    next hversion =>
      split at hp
      · cases hp
      · cases hp
        rw [if_pos hversion]
        unfold ipv4
        dsimp only
        rw [if_pos hmode, if_pos hmode, setIpv4, setIpv4, setIp_eq hsrc, setIp_eq hdst, hv4, hv4]
        unfold NameFun.ipDisp
        split_ifs
        all_goals rfl
    next hversion =>
      split at hp
      · split at hp
        · cases hp
        · cases hp
          rw [if_neg hversion]
          unfold ipv6
          dsimp only
          rw [if_pos hmode, if_pos hmode, setIpv6, setIpv6, setIp_eq hsrc, setIp_eq hdst,
            setAddr_sixteen, setAddr_sixteen]
          unfold NameFun.ipDisp
          split_ifs
          all_goals rfl
      · cases hp

/-- The bytes that a decoder takes for the address are those of the IP header. -/
def AddressAt (o : Handover) (inp : NameInput) (fn : NameFun) (off : Nat) : Prop :=
  fn = o.ipFun ∧ ∀ k < fn.ipSize,
    inp.packet.p (off + fn.ipDisp inp.dir + k : Nat) = o.window.get (o.ipFun.ipDisp inp.dir + k)

theorem addressAt_iff {inp : NameInput} {fn : NameFun} {off : Nat} (hfn : fn.IsIp) :
    o.AddressAt inp fn off ↔
      ipId (ipAddress fn fun k => inp.packet.p (off + fn.ipDisp inp.dir + k : Nat)) =
        ipId (o.address inp.dir) := by
  unfold AddressAt address
  rw [← ipAddress_eq_iff hfn o.isIp_ipFun]
  constructor
  · intro h
    rw [h]
  · intro h
    rw [← ipId_ip (ipAddress fn _), h, ipId_ip]

end Handover

/-! ### Names of IP levels -/

/-- The name is registered for a level that is called like an IP header. -/
def AddedName.OfIp (name : AddedName) (tokens : PacketProtos) : Prop :=
  ∃ fn : NameFun, fn.IsIp ∧ tokens.decoder name.level = some fn

/-- The decoder of an IP header is called at `h`, behind encoded names that end. -/
structure IpHeaderAt (inp : NameInput) (h : NameHeader) : Prop where
  isIp : h.fn.IsIp
  reached : ∃ hs, hs ++ [h] <+: headers inp ∧
    ∀ h' ∈ hs, ∀ start ∈ h'.fn.encodedNames inp h'.off, ¬Circular inp.packet start

section Names

variable {env : NamesEnv} {inp : NameInput} {uninit : NodeId}

theorem IpHeaderAt.mem {h : NameHeader} (hat : IpHeaderAt inp h) : h ∈ headers inp := by
  obtain ⟨hs, hbefore, _⟩ := hat.reached
  exact hbefore.subset (List.mem_append_right hs (List.mem_singleton_self h))

theorem IpHeaderAt.registersAfter {h : NameHeader} (hat : IpHeaderAt inp h) :
    ∃ hs, RegistersAfter env inp (fun start => ¬Circular inp.packet start) hs h (headers inp) := by
  obtain ⟨hs, hbefore, hends⟩ := hat.reached
  refine ⟨hs, hbefore, fun h' hmem start hstart => ?_, registers_ip hat.isIp⟩
  rcases List.mem_append.mp hmem with hmem | hmem
  · exact hends h' hmem start hstart
  · rw [List.mem_singleton.mp hmem, encodedNames_ip hat.isIp] at hstart
    exact absurd hstart List.not_mem_nil

/-- The names of IP levels are registered for an id just when the headers there give this id, as far as
their addresses are captured. -/
theorem ipNames_iff {id : NodeId} :
    (∀ rounds, ∀ name ∈ (getPacketNames env inp uninit rounds).2.names, name.OfIp inp.tokens →
        name.FilledInCall env.mode inp uninit → name.nodeId = id) ↔
      ∀ h, IpHeaderAt inp h → AddressCaptured inp h.fn h.off →
        ipId (ipAddress h.fn fun k => inp.packet.p (h.off + h.fn.ipDisp inp.dir + k : Nat)) = id := by
  have hspec {ends : Int → Prop} {hs : List NameHeader} {h : NameHeader}
      (hafter : RegistersAfter env inp ends hs h (headers inp)) (hfn : h.fn.IsIp) :
      inp.tokens.decoder h.level = some h.fn ∧ h.off < inp.packet.packetSize ∧
        lastFill env.mode inp uninit none (hs ++ [h]) =
          some ⟨.ip, h.off, h.fn.ipDisp inp.dir, 0, h.fn.ipFamily⟩ := by
    have hmem : h ∈ headers inp :=
      hafter.isPrefix.subset (List.mem_append_right hs (List.mem_singleton_self h))
    obtain ⟨hdecoder, hlt⟩ := mem_headersFrom hmem
    exact ⟨hdecoder, hlt, lastFill_of_fill (fill_ip hfn)⟩
  constructor
  · intro hall h hat hcaptured
    obtain ⟨hs, hafter⟩ := hat.registersAfter
    obtain ⟨hdecoder, hlt, hfill⟩ := hspec hafter hat.isIp
    obtain ⟨rounds, hrounds⟩ := registersAfter_iff_rounds.mp hafter
    obtain ⟨name, hname, hof⟩ := (getPacketNames_names env inp uninit rounds).2 hs h hrounds
    have hfilled : name.FilledInCall env.mode inp uninit :=
      (filledInCall_iff hrounds hof).mpr ⟨_, hfill, (complete_ip_iff hat.isIp hlt).mpr hcaptured⟩
    rw [← hall rounds name hname ⟨h.fn, hat.isIp, hof.1 ▸ hdecoder⟩ hfilled, hof.2, hfill, idAfter_some,
      nodeId_ip hat.isIp hlt hcaptured]
  · intro hall rounds name hname hip hfilled
    obtain ⟨hs, h, hrounds, hof⟩ := (getPacketNames_names env inp uninit rounds).1 name hname
    have hafter := registersAfter_iff_rounds.mpr ⟨rounds, hrounds⟩
    have hfn : h.fn.IsIp := by
      obtain ⟨fn, hfn, hdecoder⟩ := hip
      have hmem : h ∈ headers inp :=
        hafter.isPrefix.subset (List.mem_append_right hs (List.mem_singleton_self h))
      rw [hof.1, (mem_headersFrom hmem).1] at hdecoder
      obtain rfl := Option.some.inj hdecoder
      exact hfn
    obtain ⟨_, hlt, hfill⟩ := hspec hafter hfn
    obtain ⟨fill, hmem, hcomplete⟩ := (filledInCall_iff hrounds hof).mp hfilled
    rw [hfill] at hmem
    obtain rfl := Option.some.inj hmem
    have hcaptured := (complete_ip_iff hfn hlt).mp hcomplete
    rw [hof.2, hfill, idAfter_some, nodeId_ip hfn hlt hcaptured]
    refine hall h ⟨hfn, hs, hafter.isPrefix, fun h' hmem => ?_⟩ hcaptured
    exact hafter.ends h' (List.mem_append_left [h] hmem)

end Names

/-! ### The level of the IP header -/

theorem linkNames_of_framing {names : List String} (h : names ∈ framings) :
    (∀ name ∈ names, LinkName name) ∧ names.length ≤ 3 := by
  have hall : ∀ names ∈ framings, (∀ name ∈ names, LinkName name) ∧ names.length ≤ 3 := by decide
  exact hall names h

theorem not_isIp_of_linkName {name : String} (h : LinkName name) {fn : NameFun}
    (hlookup : protFunctionsTable.lookup name = some fn) : ¬fn.IsIp := by
  unfold LinkName at h
  rw [hlookup] at h
  simp only [List.mem_cons, Option.some.injEq, reduceCtorEq, List.not_mem_nil, or_false, false_or] at h
  rcases h with rfl | rfl | rfl | rfl
  all_goals decide

section Level

variable {inp : NameInput} {o : Handover} (hframing : o.names ∈ framings)
  (htokens : inp.tokens.Named 1 o.names)
  (hdecoder : inp.tokens.decoder (1 + o.names.length) = some o.ipFun)

include hframing htokens hdecoder

/-- With enough data the name decoder comes to the IP header where the link headers end for it. -/
theorem ipHeaderAt_of_linkOffset {off : Nat} (hoffset : linkOffset inp.linkType o.names = some off)
    (hlt : off < inp.packet.packetSize) : IpHeaderAt inp ⟨1 + o.names.length, o.ipFun, off⟩ := by
  obtain ⟨hnames, hlen⟩ := linkNames_of_framing hframing
  obtain ⟨hs, hread, hheaders⟩ := @headersFrom_link inp o.names 1 0 off hnames htokens (by omega) hoffset
    (by omega)
  have hlevels : stackSize - o.names.length - 1 + 1 + o.names.length = stackSize := by
    unfold stackSize
    omega
  have hall := hheaders (stackSize - o.names.length - 1 + 1)
  rw [hlevels, Nat.zero_add] at hall
  refine ⟨o.isIp_ipFun, hs, ?_, fun h hmem start hstart => ?_⟩
  · rw [headers, hall, List.prefix_append_right_inj]
    exact headersFrom_isPrefix hdecoder hlt
  · rw [hread h hmem] at hstart
    exact absurd hstart List.not_mem_nil

/-- No other header is called like an IP header below it or at its level. -/
theorem IpHeaderAt.level_cases {h : NameHeader} (hat : IpHeaderAt inp h) :
    (linkOffset inp.linkType o.names = some h.off ∧ h = ⟨1 + o.names.length, o.ipFun, h.off⟩) ∨
      1 + o.names.length < h.level := by
  obtain ⟨hnames, hlen⟩ := linkNames_of_framing hframing
  have hmem := hat.mem
  have hpos : 1 ≤ h.level := level_le_of_mem_headersFrom hmem
  obtain ⟨hfn, hlt⟩ := mem_headersFrom hmem
  rcases Nat.lt_trichotomy h.level (1 + o.names.length) with hbelow | hlevel | habove
  · exfalso
    have hindex : h.level - 1 < o.names.length := by omega
    have htoken := htokens (h.level - 1) hindex
    rw [Nat.add_sub_cancel' hpos, List.getElem?_eq_getElem hindex] at htoken
    rw [PacketProtos.decoder, htoken] at hfn
    exact not_isIp_of_linkName (hnames _ (List.getElem_mem hindex)) hfn hat.isIp
  · left
    by_cases hshort : ∀ n, linkOffset inp.linkType o.names = some n → inp.packet.packetSize ≤ 0 + n
    · have hlevel' := level_lt_of_short hnames htokens (by omega) hshort hdecoder hmem
      exact absurd hlevel (Nat.ne_of_lt hlevel')
    · push Not at hshort
      obtain ⟨n, hoffset, hn⟩ := hshort
      have hthere := ipHeaderAt_of_linkOffset hframing htokens hdecoder hoffset (by omega)
      have hsame : h = ⟨1 + o.names.length, o.ipFun, n⟩ := eq_of_level_eq hmem hthere.mem hlevel
      subst hsame
      exact ⟨hoffset, rfl⟩
  · exact Or.inr habove

end Level

/-- **Where IP is.** The name decoder finds the addresses of the IP header: behind the link headers, where
its place for the header is the real one or has the same bytes, and at each higher level that is called like
an IP header. -/
structure IpFound (inp : NameInput) (o : Handover) : Prop where
  framing : ∀ off, linkOffset inp.linkType o.names = some off → AddressCaptured inp o.ipFun off →
    off = o.window.pos ∨ o.AddressAt inp o.ipFun off
  above : ∀ h, IpHeaderAt inp h → 1 + o.names.length < h.level → AddressCaptured inp h.fn h.off →
    o.AddressAt inp h.fn h.off

theorem ipFound_iff {inp : NameInput} {o : Handover} (hframing : o.names ∈ framings)
    (hbytes : o.window.bytes = fun i : Nat => inp.packet.p i) (htokens : inp.tokens.Named 1 o.names)
    (hdecoder : inp.tokens.decoder (1 + o.names.length) = some o.ipFun) :
    (∀ h, IpHeaderAt inp h → AddressCaptured inp h.fn h.off → o.AddressAt inp h.fn h.off) ↔
      IpFound inp o := by
  constructor
  · intro hall
    refine ⟨fun off hoffset hcaptured => Or.inr ?_, fun h hat _ => hall h hat⟩
    have hpos : 0 < o.ipFun.ipSize := by
      cases o.ipFun <;> decide
    have hlt : off < inp.packet.packetSize := by
      unfold AddressCaptured at hcaptured
      omega
    exact hall _ (ipHeaderAt_of_linkOffset hframing htokens hdecoder hoffset hlt) hcaptured
  · intro hfound h hat hcaptured
    rcases hat.level_cases hframing htokens hdecoder with ⟨hoffset, hfn⟩ | habove
    · rw [hfn] at hcaptured ⊢
      rcases hfound.framing h.off hoffset hcaptured with hpos | hthere
      · refine ⟨rfl, fun k _ => ?_⟩
        rw [Window.get, hbytes, hpos, Nat.add_assoc]
      · exact hthere
    · exact hfound.above h hat habove hcaptured

/-- The addresses are found at the real place, where no higher level is called like an IP header. -/
theorem ipFound_of_place {inp : NameInput} {o : Handover}
    (hplace : linkOffset inp.linkType o.names = some o.window.pos)
    (habove : ∀ level < stackSize + 1, 1 + o.names.length < level →
      ∀ fn ∈ [NameFun.getIpName, .getIpv6Name], inp.tokens.decoder level ≠ some fn) : IpFound inp o := by
  constructor
  · intro off hoffset _
    rw [hplace] at hoffset
    exact Or.inl (Option.some.inj hoffset).symm
  · intro h hat hlevel _
    obtain ⟨hdecoder, _⟩ := mem_headersFrom hat.mem
    exact absurd hdecoder (habove h.level (PacketProtos.lt_of_decoder hdecoder) hlevel h.fn hat.isIp)

/-! ### Both decoders -/

theorem not_belowIp_of_lookup {name : String} {fn : NameFun}
    (hlookup : protFunctionsTable.lookup name = some fn) (hfn : fn.IsIp) : ¬BelowIp name := by
  have hall : ∀ entry ∈ protFunctionsTable, entry.2.IsIp → ¬BelowIp entry.1 := by decide
  exact hall _ (mem_of_lookup hlookup) hfn

section Packets

variable {env : DecodeEnv} {calls : Nat} {packet : RawPacket} {conversations : Conversations}
  {pphLkentry : Option Linktype} {d : DecodeState}
  (hd : getPacketProt env calls (packet.decodeStart conversations pphLkentry) = .finished d)

include hd

/-- Where the protocol decoder adds no name of IP, the name decoder comes to no IP header. -/
theorem not_ipHeaderAt_of_below (hbelow : ∀ entry ∈ d.added, BelowIp entry.1) {dir : PacketDirection}
    {h : NameHeader} : ¬IpHeaderAt (d.nameInput env packet dir) h := by
  intro hat
  obtain ⟨hdecoder, _⟩ := mem_headersFrom hat.mem
  obtain ⟨name, htoken, hlookup⟩ := Option.bind_eq_some_iff.mp hdecoder
  have hpos : 0 < h.level := level_le_of_mem_headersFrom hat.mem
  obtain ⟨entry, hentry, rfl⟩ :=
    List.mem_map.mp (List.mem_of_getElem? (mem_added_of_token hd hpos htoken))
  exact not_belowIp_of_lookup hlookup hat.isIp (hbelow entry hentry)

variable {o : Handover} {p : IpPayload}
  (hover : packetHandover env calls (fun i => packet.p i) packet.packetSize = some o)
  (hp : o.ip env.mode = some p)

include hover hp

theorem named_of_handover :
    d.pr.Named 1 o.names ∧ d.pr.decoder (1 + o.names.length) = some o.ipFun := by
  obtain ⟨d', rfl, hhands⟩ := getPacketProt_hands hd
  rw [hover] at hhands
  obtain ⟨d₀, hat, rfl⟩ := hhands.of_some
  have hadded := @getIp_names env d₀ p (hat.handover.symm ▸ hp)
  rw [hat.handover, hat.names_eq, ← copyTopmost_added (getIp env d₀)] at hadded
  obtain ⟨_, hlen⟩ := linkNames_of_framing (packetHandover_framed hover).1
  have hsize : (o.names ++ [o.ipLabel, p.label]).length = o.names.length + 2 := List.length_append
  have htoken {i : Nat} (hi : i < o.names.length + 1) :=
    token_firstNames hd hadded (i := i) (by omega) (show i < stackSize by unfold stackSize; omega)
  constructor
  · intro i hi
    rw [Nat.add_comm, htoken (Nat.lt_succ_of_lt hi), List.getElem_append_left hi,
      List.getElem?_eq_getElem hi]
  · rw [PacketProtos.decoder, Nat.add_comm, htoken (Nat.lt_succ_self _)]
    rw [List.getElem_append_right le_rfl]
    simp only [Nat.sub_self, List.getElem_cons_zero]
    exact o.lookup_ipLabel

theorem endpoint_of_handover (hmode : env.mode = .ip) (dir : PacketDirection) :
    d.endpoint dir = ipId (o.address dir) := by
  obtain ⟨d', rfl, hhands⟩ := getPacketProt_hands hd
  rw [hover] at hhands
  obtain ⟨d₀, hat, rfl⟩ := hhands.of_some
  obtain ⟨hsrc, hdst⟩ := @getIp_nodeIds env d₀ (by rw [hmode]; decide)
  rw [hat.handover, hp] at hsrc hdst
  rw [hmode] at hp
  obtain ⟨pr, hpr⟩ := copyTopmost_eq (getIp env d₀)
  rw [hpr, ← Handover.ip_nodeIds (hat.src_eq ▸ hat.src.port) (hat.dst_eq ▸ hat.dst.port) hp dir]
  show (if dir = .inbound then (getIp env d₀).dstNodeId else (getIp env d₀).srcNodeId) = _
  rw [hsrc, hdst]
  rfl

end Packets

/-- **Names of IP endpoints.** In IP mode the names of the IP levels of a packet belong to its endpoints
just when the name decoder finds the addresses that `get_ip` has found, if there are any. -/
theorem ipNames_endpoint_iff {env : DecodeEnv} (hmode : env.mode = .ip) {calls : Nat} {packet : RawPacket}
    {conversations : Conversations} {pphLkentry : Option Linktype} {d : DecodeState}
    (hd : getPacketProt env calls (packet.decodeStart conversations pphLkentry) = .finished d)
    (names : NamesEnv) (dir : PacketDirection) (uninit : NodeId) :
    let inp := d.nameInput env packet dir
    (∀ rounds, ∀ name ∈ (getPacketNames names inp uninit rounds).2.names, name.OfIp d.pr →
      name.FilledInCall names.mode inp uninit → name.nodeId = d.endpoint dir) ↔
    ∀ o ∈ packetHandover env calls (fun i => packet.p i) packet.packetSize,
      (o.ip env.mode).isSome → IpFound inp o := by
  intro inp
  have hnames := @ipNames_iff names inp uninit (d.endpoint dir)
  refine Iff.trans hnames ?_
  cases hover : packetHandover env calls (fun i => packet.p i) packet.packetSize with
  | none =>
      obtain ⟨d', rfl, hhands⟩ := getPacketProt_hands hd
      rw [hover] at hhands
      refine iff_of_true (fun h hat => ?_) fun o ho => absurd ho (Option.not_mem_none o)
      cases hhands with
      | below hbelow =>
          exact absurd hat (not_ipHeaderAt_of_below hd (by rw [copyTopmost_added]; exact hbelow.names))
  | some o =>
      cases hp : o.ip env.mode with
      | none =>
          obtain ⟨d', rfl, hhands⟩ := getPacketProt_hands hd
          rw [hover] at hhands
          obtain ⟨d₀, hat₀, rfl⟩ := hhands.of_some
          refine iff_of_true (fun h hat => ?_) fun o' ho' hsome => ?_
          · have hadded : (copyTopmost (getIp env d₀)).added = d₀.added := by
              rw [copyTopmost_added, getIp_added_of_none (hat₀.handover.symm ▸ hp)]
            exact absurd hat (not_ipHeaderAt_of_below hd (by rw [hadded]; exact hat₀.names))
          · obtain rfl := Option.some.inj ho'
            rw [hp] at hsome
            cases hsome
      | some p =>
          obtain ⟨htokens, hdecoder⟩ := named_of_handover hd hover hp
          obtain ⟨hframing, hbytes⟩ := packetHandover_framed hover
          have hfound : _ ↔ IpFound inp o := ipFound_iff hframing hbytes htokens hdecoder
          rw [endpoint_of_handover hd hover hp hmode dir]
          constructor
          · intro hall o' ho' _
            obtain rfl := Option.some.inj ho'
            refine hfound.mp fun h hat hcaptured => ?_
            exact (Handover.addressAt_iff hat.isIp).mpr (hall h hat hcaptured)
          · intro hall h hat hcaptured
            exact (Handover.addressAt_iff hat.isIp).mp
              (hfound.mpr (hall o rfl (by rw [hp]; rfl)) h hat hcaptured)

deriving instance DecidableEq for NameHeader

def EthFrame.tagged (f : EthFrame) (tag : Octets 2) : EthFrame := { f with tag := some tag }

theorem ipNames_endpoint_optionsFrame :
    ∃ d, getPacketProt (DecodeEnv.bare linktypeEthernet .ip) 0
        ((optionsFrame 0).rawPacket.decodeStart Conversations.empty none) = .finished d ∧
      ∀ rounds, ∀ name ∈ (getPacketNames (NamesEnv.bare .ip) (d.nameInput
          (DecodeEnv.bare linktypeEthernet .ip) (optionsFrame 0).rawPacket
          .outbound) NodeId.clear rounds).2.names,
        name.OfIp d.pr → name.FilledInCall .ip (d.nameInput
          (DecodeEnv.bare linktypeEthernet .ip) (optionsFrame 0).rawPacket
          .outbound) NodeId.clear → name.nodeId = d.endpoint .outbound := by
  have hiff := @ipNames_endpoint_iff (DecodeEnv.bare linktypeEthernet .ip) rfl 0
    (optionsFrame 0).rawPacket Conversations.empty none _ rfl (NamesEnv.bare .ip) .outbound
    NodeId.clear
  refine ⟨_, rfl, hiff.mpr fun o ho _ => ?_⟩
  rw [EthFrame.packetHandover_eq_handover (optionsFrame 0).capturedAs_rawPacket rfl rfl]
    at ho
  obtain rfl := Option.some.inj ho
  exact ipFound_of_place (by decide +kernel) (by decide +kernel)

theorem not_all_ip_names_endpoints :
    ¬∀ (env : DecodeEnv) (calls : Nat) (packet : RawPacket) (conversations : Conversations)
      (pphLkentry : Option Linktype) (d : DecodeState) (names : NamesEnv) (dir : PacketDirection)
      (uninit : NodeId), env.mode = .ip → names.mode = .ip → dir ≠ .eitherbound →
      getPacketProt env calls (packet.decodeStart conversations pphLkentry) = .finished d →
      ∀ rounds, ∀ name ∈ (getPacketNames names (d.nameInput env packet dir) uninit rounds).2.names,
        name.OfIp d.pr → name.FilledInCall names.mode (d.nameInput env packet dir) uninit →
          name.nodeId = d.endpoint dir := by
  intro h
  have hall := h (DecodeEnv.bare linktypeEthernet .ip) 0 ((optionsFrame 0).tagged ![0, 5]).rawPacket
    Conversations.empty none _ (NamesEnv.bare .ip) .outbound NodeId.clear rfl rfl (by decide) rfl
  set inp := DecodeState.nameInput _ _ _ _ with hinp
  have hbefore : [⟨2, .getLink6Name, 0⟩] ++ [⟨3, .getIpName, 14⟩] <+: headers inp := by
    have htake : (headers inp).take 2 = [⟨2, .getLink6Name, 0⟩, ⟨3, .getIpName, 14⟩] := by
      decide +kernel
    rw [List.singleton_append, ← htake]
    exact List.take_prefix 2 _
  have hat : IpHeaderAt inp ⟨3, .getIpName, 14⟩ := by
    refine ⟨by decide, _, hbefore, fun h' hmem start hstart => ?_⟩
    rw [List.mem_singleton.mp hmem] at hstart
    cases hstart
  have hid := ipNames_iff.mp hall ⟨3, .getIpName, 14⟩ hat (by decide +kernel)
  revert hid
  decide +kernel

end EtherApe
