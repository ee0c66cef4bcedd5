import EtherApe.Names.Reads

/-!
# Where the registered ids come from

The node id of the name decoder is carried from header to header: some decoders copy an address from the
packet into it, others register a name with whatever is there. Which copy an id comes from, and whether it
has brought a whole address, follows from the headers that the decoder comes to.
-/

namespace EtherApe

open CInt Iteration

/-! ### Copies of addresses -/

/-- A call of `fill_node_id` for a header at `off`. -/
structure Fill where
  apemode : ApeMode
  off : Nat
  disp : Int
  portdisp : Int
  type : Nat

namespace Fill

variable (inp : NameInput)

/-- The id that it leaves, which without enough data is a cleared one. -/
def nodeId (f : Fill) : NodeId :=
  if fillFits inp f.off f.disp f.portdisp (fillSize f.apemode f.type) then
    filledNodeId inp f.apemode f.off f.disp f.portdisp f.type
  else ⟨f.apemode, Octets.zero⟩

/-- There is an address to copy, there is enough data, and all that is copied was captured. -/
def Complete (f : Fill) : Prop :=
  0 < fillSize f.apemode f.type ∧
    fillFits inp f.off f.disp f.portdisp (fillSize f.apemode f.type) ∧
    ∀ i ∈ fillReads f.apemode f.off f.disp f.portdisp f.type, inp.packet.Captured i

instance (f : Fill) : Decidable (f.Complete inp) := inferInstanceAs (Decidable (_ ∧ _ ∧ _))

theorem fillNodeId_nodeId (apemode : ApeMode) (disp portdisp : Int) (type : Nat) (nt : NameAdd) :
    (fillNodeId inp apemode disp portdisp type nt).nodeId =
      Fill.nodeId inp ⟨apemode, nt.offset, disp, portdisp, type⟩ := by
  unfold fillNodeId Fill.nodeId
  split <;> rfl

end Fill

/-- An ARP header that tells an IP address which the decoder registers. -/
def ArpAsked (inp : NameInput) (off : Nat) : Prop :=
  inp.dir ≠ .inbound ∧ off + 7 < inp.packet.packetSize ∧ inp.pntohs (off + 2) = 0x0800

instance (inp : NameInput) (off : Nat) : Decidable (ArpAsked inp off) :=
  inferInstanceAs (Decidable (_ ∧ _ ∧ _))

/-- The copy that the decoder of a header at `off` makes, where the id before has the given family. -/
def NameFun.fill (mode : ApeMode) (inp : NameInput) (off family : Nat) : NameFun → Option Fill
  | getLink6Name => some ⟨.link6, off, if inp.dir = .inbound then 0 else 6, 0, 0⟩
  | getArpName =>
      if ArpAsked inp off then some ⟨.ip, off, 8 + inp.byte (off + 4), 0, afInet⟩ else none
  | getIpName => some ⟨.ip, off, if inp.dir = .inbound then 16 else 12, 0, afInet⟩
  | getIpv6Name => some ⟨.ip, off, if inp.dir = .inbound then 24 else 8, 0, afInet6⟩
  | getTcpName =>
      if mode = .tcp then
        some ⟨.tcp, off, -(tcpAddressBack inp family : Int), tcpPortOff inp, family⟩
      else none
  | _ => none

/-! ### Names -/

/-- The encoded name at `start` comes to an end, and is not registered as illegal. -/
def LegalName (env : NamesEnv) (inp : NameInput) (start : Int) : Prop :=
  ∃ rounds, ∃ found ∈ (etherealNbnsName env.stray rounds inp.packet start nameSize).1,
    unpadded found.outname ≠ Printf.lit "Illegal"

/-- A SAP response with a name that ends in the packet. -/
def SapNamed (inp : NameInput) (off : Nat) : Prop :=
  off + 2 < inp.packet.packetSize ∧ inp.pntohs off = 2 ∧
    ∃ i < inp.packet.packetSize, (off + 4) % 65536 ≤ i ∧ inp.packet.p (i : Nat) = 0

/-- The decoder of a header at `off` calls `add_name`. -/
def NameFun.Registers (env : NamesEnv) (inp : NameInput) (off : Nat) : NameFun → Prop
  | getLink6Name => True
  | getArpName => ArpAsked inp off
  | getIpName => True
  | getIpv6Name => True
  | getTcpName => env.mode = .tcp
  | getIpxsapName => SapNamed inp off
  | f => ∃ start ∈ (f.encodedNames inp off).getLast?, LegalName env inp start

/-- What a call of a decoder leaves in the id, and the name that it registers with this id. -/
structure Registered (env : NamesEnv) (inp : NameInput) (fn : NameFun) (nt : NameAdd)
    (r : Option Bool × NameAdd) : Prop where
  nodeId : r.2.nodeId =
    ((fn.fill env.mode inp nt.offset nt.nodeId.addr.tcp4Host.type).map (Fill.nodeId inp)).getD
      nt.nodeId
  names : ∃ new, r.2.names = nt.names ++ new ∧
    (∀ name ∈ new, name.level = nt.level ∧ name.nodeId = r.2.nodeId) ∧
    (new ≠ [] ↔ r.1.isSome ∧ fn.Registers env inp nt.offset)

section Call

variable {env : NamesEnv} {inp : NameInput} {rounds : Nat} {nt : NameAdd}

theorem Registered.of_names_eq {fn : NameFun} {r : Option Bool × NameAdd}
    (hid : r.2.nodeId =
      ((fn.fill env.mode inp nt.offset nt.nodeId.addr.tcp4Host.type).map (Fill.nodeId inp)).getD
        nt.nodeId)
    (hnames : r.2.names = nt.names) (hnone : r.1.isSome → ¬fn.Registers env inp nt.offset) :
    Registered env inp fn nt r :=
  ⟨hid, [], by rw [hnames, List.append_nil], fun _ h => absurd h List.not_mem_nil,
    iff_of_false (not_not.mpr rfl) fun h => hnone h.1 h.2⟩

theorem Registered.of_addName {fn : NameFun} {r : Option Bool × NameAdd} {name : AddedName}
    (hid : r.2.nodeId =
      ((fn.fill env.mode inp nt.offset nt.nodeId.addr.tcp4Host.type).map (Fill.nodeId inp)).getD
        nt.nodeId)
    (hnames : r.2.names = nt.names ++ [name]) (hlevel : name.level = nt.level)
    (hname : name.nodeId = r.2.nodeId) (hsome : r.1.isSome)
    (hregisters : fn.Registers env inp nt.offset) : Registered env inp fn nt r :=
  ⟨hid, [name], hnames, fun _ h => by
    rw [List.mem_singleton.mp h]
    exact ⟨hlevel, hname⟩, iff_of_true (List.cons_ne_nil _ _) ⟨hsome, hregisters⟩⟩

theorem Registered.advance {fn : NameFun} {returned : Option Bool} {nt' : NameAdd} (n : Nat)
    (h : Registered env inp fn nt (returned, nt')) :
    Registered env inp fn nt (returned, nt'.advance n) :=
  ⟨h.nodeId, h.names⟩

@[simp] theorem fillNodeId_names (apemode : ApeMode) (disp portdisp : Int) (type : Nat) :
    (fillNodeId inp apemode disp portdisp type nt).names = nt.names := by
  unfold fillNodeId
  split <;> rfl

theorem Registered.of_fill {fn : NameFun} {r : Option Bool × NameAdd} {nt₁ : NameAdd}
    {apemode : ApeMode} {disp portdisp : Int} {type : Nat} {numeric : List UInt8}
    {resolved : Option (List UInt8)}
    (hfill : fn.fill env.mode inp nt.offset nt.nodeId.addr.tcp4Host.type =
      some ⟨apemode, nt.offset, disp, portdisp, type⟩)
    (hoffset : nt₁.offset = nt.offset) (hlevel : nt₁.level = nt.level) (hnames : nt₁.names = nt.names)
    (hid : r.2.nodeId = (fillNodeId inp apemode disp portdisp type nt₁).nodeId)
    (hadd : r.2.names =
      ((fillNodeId inp apemode disp portdisp type nt₁).addName inp numeric resolved).names)
    (hsome : r.1.isSome) (hregisters : fn.Registers env inp nt.offset) :
    Registered env inp fn nt r := by
  rw [NameAdd.addName_names, fillNodeId_names, hnames, fillNodeId_level, hlevel] at hadd
  refine .of_addName ?_ hadd rfl hid.symm hsome hregisters
  rw [hfill, hid, Fill.fillNodeId_nodeId, hoffset]
  rfl

/-- A domain name that is read to its end is the same with more rounds. -/
theorem getDnsName_mono {stack : List UInt8} {start : Int} {rounds' : Nat} {dns : DnsReturn}
    (hle : rounds ≤ rounds') (h : (getDnsName stack rounds inp.packet start).1 = some dns) :
    (getDnsName stack rounds' inp.packet start).1 = some dns := by
  rw [getDnsName] at h ⊢
  by_cases hend : inp.packet.packetSize ≤ start
  · rw [if_pos hend] at h ⊢
    exact h
  · rw [if_neg hend] at h ⊢
    rw [dnsLoop_mono hle]
    · exact h
    · intro hmore
      obtain ⟨s', hs'⟩ := hmore
      rw [hs'] at h
      cases h

/-- Two readings of a name that both come to its end give the same name. -/
theorem etherealNbnsName_unique {stray : StrayBytes} {start : Int} {n rounds' : Nat}
    {found found' : NbnsName}
    (h : (etherealNbnsName stray rounds inp.packet start n).1 = some found)
    (h' : (etherealNbnsName stray rounds' inp.packet start n).1 = some found') :
    found' = found := by
  wlog hle : rounds ≤ rounds' generalizing rounds rounds' found found'
  · exact (this h' h (Nat.le_of_not_le hle)).symm
  obtain ⟨dns, hdns, hfound⟩ := Option.map_eq_some_iff.mp h
  obtain ⟨dns', hdns', hfound'⟩ := Option.map_eq_some_iff.mp h'
  obtain rfl : dns = dns' := Option.some.inj ((getDnsName_mono hle hdns).symm.trans hdns')
  exact hfound'.symm.trans hfound

theorem legalName_iff {start : Int} {found : NbnsName}
    (h : (etherealNbnsName env.stray rounds inp.packet start nameSize).1 = some found) :
    LegalName env inp start ↔ unpadded found.outname ≠ Printf.lit "Illegal" := by
  constructor
  · rintro ⟨rounds', found', hfound', hlegal⟩
    rwa [etherealNbnsName_unique h hfound'] at hlegal
  · exact fun hlegal => ⟨rounds, found, h, hlegal⟩

theorem not_legal_of_unread {f : NameFun} {off : Nat} (h : f.encodedNames inp off = []) :
    ¬∃ start ∈ (f.encodedNames inp off).getLast?, LegalName env inp start := by
  rw [h]
  intro hlast
  obtain ⟨start, hstart, _⟩ := hlast
  cases hstart

theorem nbnsNames_legal_iff {second : Bool} {found : NbnsName} {nt' : NameAdd}
    (h : nbnsNames env inp rounds second nt = (some found, nt')) :
    (∃ start ∈ (namesFrom inp nt.offset second).getLast?, LegalName env inp start) ↔
      unpadded found.outname ≠ Printf.lit "Illegal" := by
  unfold nbnsNames at h
  unfold namesFrom
  rcases hfirst : etherealNbnsName env.stray rounds inp.packet nt.offset nameSize with
    ⟨_ | name, reads⟩
  · rw [hfirst] at h
    cases h
  · rw [hfirst] at h
    have hname := congrArg Prod.fst hfirst
    cases second with
    | false =>
        obtain rfl : name = found := Option.some.inj (congrArg Prod.fst h)
        simpa using legalName_iff hname
    | true =>
        have hsecond := congrArg Prod.fst h
        dsimp only at hsecond
        rw [if_pos rfl, etherealNbnsName_nameLen hfirst] at hsecond
        simpa using legalName_iff hsecond

/-- A NetBIOS name is registered with the id that is there, unless it is illegal. -/
theorem addNetbiosName_registered {fn : NameFun} {found : NbnsName} {nt₁ : NameAdd}
    {goOn : Bool} (hid : nt₁.nodeId = nt.nodeId) (hnames : nt₁.names = nt.names)
    (hlevel : nt₁.level = nt.level)
    (hfill : fn.fill env.mode inp nt.offset nt.nodeId.addr.tcp4Host.type = none)
    (hlegal : fn.Registers env inp nt.offset ↔ unpadded found.outname ≠ Printf.lit "Illegal") :
    Registered env inp fn nt (some goOn, addNetbiosName inp found nt₁) := by
  have hkept : (addNetbiosName inp found nt₁).nodeId =
      ((fn.fill env.mode inp nt.offset nt.nodeId.addr.tcp4Host.type).map (Fill.nodeId inp)).getD
        nt.nodeId := by
    rw [hfill, addNetbiosName_nodeId]
    exact hid
  by_cases hname : unpadded found.outname = Printf.lit "Illegal"
  · refine .of_names_eq hkept ?_ fun _ => mt hlegal.mp (not_not.mpr hname)
    rw [addNetbiosName, if_pos hname, hnames]
  · have hnew : ∃ name : AddedName, (addNetbiosName inp found nt₁).names = nt.names ++ [name] ∧
        name.level = nt.level ∧ name.nodeId = nt₁.nodeId := by
      rw [addNetbiosName, if_neg hname, NameAdd.addName_names, hnames]
      exact ⟨_, rfl, hlevel, rfl⟩
    obtain ⟨name, hadd, hnameLevel, hnameId⟩ := hnew
    refine .of_addName hkept hadd hnameLevel ?_ rfl (hlegal.mpr hname)
    rw [hnameId, addNetbiosName_nodeId]

@[simp] theorem addAddressName_nodeId (numeric : List UInt8) :
    (addAddressName env inp numeric nt).nodeId = nt.nodeId := rfl

theorem getIpxsapName_registered :
    Registered env inp .getIpxsapName nt ((getIpxsapName inp nt).map some id) := by
  unfold getIpxsapName
  dsimp only
  split
  next hshort => exact .of_names_eq rfl rfl fun _ h => absurd h.1 (by omega)
  next hlong =>
    split
    next hother => exact .of_names_eq rfl rfl fun _ h => hother h.2.1
    next hresponse =>
      simp only [NameAdd.touch_offset]
      have hzero := NameAdd.scanZero_found_iff inp
        (inp.packet.packetSize - (nt.offset + 4) % 65536) ((nt.offset + 4) % 65536)
      rcases hscan : scanZero inp (inp.packet.packetSize - (nt.offset + 4) % 65536)
        ((nt.offset + 4) % 65536) with ⟨name, found⟩
      rw [hscan] at hzero
      dsimp only at hzero ⊢
      cases found with
      | false =>
          rw [if_pos Bool.false_ne_true]
          refine .of_names_eq rfl rfl fun _ h => ?_
          obtain ⟨_, _, i, hi, hstart, hbyte⟩ := h
          have hfound := hzero.mpr ⟨i, by omega, hstart, hbyte⟩
          cases hfound
      | true =>
          rw [if_neg (not_not.mpr rfl)]
          obtain ⟨i, hi, hstart, hbyte⟩ := hzero.mp rfl
          exact .of_addName rfl rfl rfl rfl rfl
            ⟨by omega, not_not.mp hresponse, i, by omega, hstart, hbyte⟩

theorem getNbssName_registered (hlt : nt.offset < inp.packet.packetSize) :
    Registered env inp .getNbssName nt (getNbssName env inp rounds nt) := by
  have hstep := @getNbssName_step env inp rounds nt hlt
  generalize getNbssName env inp rounds nt = returned at hstep ⊢
  cases hstep with
  | other _ hencoded => exact .of_names_eq rfl rfl fun _ => not_legal_of_unread hencoded
  | cut _ hencoded _ hid hnames => exact .of_names_eq hid hnames fun _ => not_legal_of_unread hencoded
  | endless _ hid hnames _ => exact .of_names_eq hid hnames fun h => by cases h
  | request _ hencoded hlevel hid hnames hread =>
      apply Registered.advance
      refine addNetbiosName_registered hid hnames hlevel rfl ?_
      rw [← nbnsNames_legal_iff hread, ← hencoded]
      exact Iff.rfl

theorem nbdgmName_registered {second : Bool} {nt₁ : NameAdd} (hid : nt₁.nodeId = nt.nodeId)
    (hnames : nt₁.names = nt.names) (hlevel : nt₁.level = nt.level)
    (hencoded : NameFun.getNbdgmName.encodedNames inp nt.offset =
      namesFrom inp nt₁.offset second) :
    Registered env inp .getNbdgmName nt (nbdgmName env inp rounds second nt₁) := by
  obtain ⟨found, reads, hread⟩ := nbnsNames_touch env inp rounds nt₁ second
  rw [nbdgmName, hread]
  cases found with
  | none => exact .of_names_eq hid hnames fun h => by cases h
  | some name =>
      have hlegal : NameFun.getNbdgmName.Registers env inp nt.offset ↔
          unpadded name.outname ≠ Printf.lit "Illegal" := by
        rw [← nbnsNames_legal_iff hread, ← hencoded]
        exact Iff.rfl
      exact addNetbiosName_registered hid hnames hlevel rfl hlegal

theorem call_registered (f : NameFun) (hlt : nt.offset < inp.packet.packetSize) :
    Registered env inp f nt (f.call env inp rounds nt) := by
  cases f with
  | getLink6Name => exact .of_fill rfl rfl rfl rfl rfl rfl rfl trivial
  | getNullName => exact .of_names_eq rfl rfl fun _ => not_legal_of_unread rfl
  | getLinuxSllName => exact .of_names_eq rfl rfl fun _ => not_legal_of_unread rfl
  | getLlcName =>
      rw [NameFun.call, EtherApe.getLlcName]
      split_ifs
      all_goals exact .of_names_eq rfl rfl fun _ => not_legal_of_unread rfl
  | getArpName =>
      have hidle {nt' : NameAdd} (hid : nt'.nodeId = nt.nodeId) (hnames : nt'.names = nt.names)
          (hno : ¬ArpAsked inp nt.offset) : Registered env inp .getArpName nt (some false, nt') := by
        refine .of_names_eq ?_ hnames fun _ => hno
        rw [NameFun.fill, if_neg hno]
        exact hid
      rw [NameFun.call, EtherApe.getArpName]
      dsimp only
      split
      next hin => exact hidle rfl rfl fun h => h.1 hin
      next hout =>
        split
        next hshort => exact hidle rfl rfl fun h => absurd h.2.1 (by omega)
        next =>
          split
          next hother => exact hidle rfl rfl fun h => hother h.2.2
          next hprotocol =>
            split
            next hshort =>
              rw [NameAdd.touch_offset] at hshort
              exact hidle rfl rfl fun h => absurd h.2.1 (by omega)
            next hlong =>
              rw [NameAdd.touch_offset] at hlong
              have hasked : ArpAsked inp nt.offset := ⟨hout, by omega, not_not.mp hprotocol⟩
              refine .of_fill (if_pos hasked) ?_ ?_ ?_ rfl rfl rfl hasked
              all_goals rfl
  | getIpName =>
      rw [NameFun.call, EtherApe.getIpName, if_pos (by simpa using hlt)]
      exact Registered.advance _ (.of_fill rfl rfl rfl rfl rfl rfl rfl trivial)
  | getIpv6Name => exact .of_fill rfl rfl rfl rfl rfl rfl rfl trivial
  | getIpxName => exact .of_names_eq rfl rfl fun _ => not_legal_of_unread rfl
  | getTcpName =>
      rw [NameFun.call, EtherApe.getTcpName]
      dsimp only
      have hadded : Registered env inp .getTcpName nt
          (some true, if env.mode = .tcp then addTcpName env inp nt else nt) := by
        by_cases hmode : env.mode = .tcp
        · obtain ⟨numeric, resolved, heq⟩ := NameAdd.addTcpName_spec env inp nt
          rw [if_pos hmode, heq]
          exact .of_fill (if_pos hmode) rfl rfl rfl rfl rfl rfl hmode
        · rw [if_neg hmode]
          refine .of_names_eq ?_ rfl fun _ => hmode
          rw [NameFun.fill, if_neg hmode]
          rfl
      generalize (if env.mode = .tcp then addTcpName env inp nt else nt) = nt₁ at hadded
      split_ifs
      · exact ⟨hadded.nodeId, hadded.names⟩
      · exact ⟨hadded.nodeId, hadded.names⟩
  | getUdpName => exact .of_names_eq rfl rfl fun _ => not_legal_of_unread rfl
  | getIpxsapName => exact getIpxsapName_registered
  | getNbssName => exact getNbssName_registered hlt
  | getNbdgmName =>
      rw [NameFun.call, getNbdgmName_eq, if_neg (by omega)]
      split
      next hdirect => exact nbdgmName_registered rfl rfl rfl (if_pos hdirect)
      next hother =>
        split
        next hquery =>
          exact nbdgmName_registered rfl rfl rfl ((if_neg hother).trans (if_pos hquery))
        next hnone =>
          have hencoded : NameFun.getNbdgmName.encodedNames inp nt.offset = [] :=
            (if_neg hother).trans (if_neg hnone)
          exact .of_names_eq rfl rfl fun _ => not_legal_of_unread hencoded

end Call

/-! ### Provenance of the id -/

section Provenance

variable (mode : ApeMode) (inp : NameInput) (uninit : NodeId)

/-- The id after the given copy, or the uninitialised one. -/
def idAfter (fill : Option Fill) : NodeId := (fill.map (Fill.nodeId inp)).getD uninit

/-- The last copy once the decoder of a header has run. -/
def NameHeader.lastFill (fill : Option Fill) (h : NameHeader) : Option Fill :=
  (h.fn.fill mode inp h.off (idAfter inp uninit fill).addr.tcp4Host.type).or fill

/-- The last copy once the decoders of the headers have run. -/
def lastFill (fill : Option Fill) (hs : List NameHeader) : Option Fill :=
  hs.foldl (NameHeader.lastFill mode inp uninit) fill

/-- The id of a name is the one that the last copy before it has left, and this copy is complete. -/
def AddedName.FilledInCall (name : AddedName) : Prop :=
  ∃ fill ∈ lastFill mode inp uninit none ((headers inp).filter (·.level ≤ name.level)),
    fill.Complete inp ∧ name.nodeId = fill.nodeId inp

theorem AddedName.FilledInCall.copied {mode : ApeMode} {inp : NameInput} {uninit : NodeId}
    {name : AddedName} (h : name.FilledInCall mode inp uninit) :
    (lastFill mode inp uninit none ((headers inp).filter (·.level ≤ name.level))).isSome := by
  obtain ⟨fill, hfill, _⟩ := h
  rw [Option.mem_def.mp hfill]
  rfl

theorem idAfter_lastFill (fill : Option Fill) (h : NameHeader) :
    idAfter inp uninit (h.lastFill mode inp uninit fill) =
      ((h.fn.fill mode inp h.off (idAfter inp uninit fill).addr.tcp4Host.type).map
        (Fill.nodeId inp)).getD (idAfter inp uninit fill) := by
  unfold NameHeader.lastFill
  cases h.fn.fill mode inp h.off (idAfter inp uninit fill).addr.tcp4Host.type with
  | none => rfl
  | some copy => rfl

end Provenance

/-- The decoder of `h` registers a name after those of `hs` have run, where their encoded names and its own
end. -/
structure RegistersAfter (env : NamesEnv) (inp : NameInput) (ends : Int → Prop)
    (hs : List NameHeader) (h : NameHeader) (all : List NameHeader) : Prop where
  isPrefix : hs ++ [h] <+: all
  ends : ∀ h' ∈ hs ++ [h], ∀ start ∈ h'.fn.encodedNames inp h'.off, ends start
  registers : h.fn.Registers env inp h.off

/-- At each header that registers a name, the last copy so far is complete. -/
def NamesFilled (env : NamesEnv) (inp : NameInput) (uninit : NodeId) : Prop :=
  ∀ hs h, RegistersAfter env inp (fun start => ¬Circular inp.packet start) hs h (headers inp) →
    ∃ fill ∈ lastFill env.mode inp uninit none (hs ++ [h]), fill.Complete inp

section Prefixes

variable {env : NamesEnv} {inp : NameInput} {ends : Int → Prop} {all : List NameHeader}

theorem not_registersAfter_nil {hs : List NameHeader} {h : NameHeader} :
    ¬RegistersAfter env inp ends hs h [] := fun hregisters =>
  absurd (List.prefix_nil.mp hregisters.isPrefix) (List.append_ne_nil_of_right_ne_nil _ (by simp))

theorem registersAfter_cons_iff {hs : List NameHeader} {h first : NameHeader} :
    RegistersAfter env inp ends hs h (first :: all) ↔
      (∀ start ∈ first.fn.encodedNames inp first.off, ends start) ∧
        ((hs = [] ∧ h = first ∧ first.fn.Registers env inp first.off) ∨
          ∃ hs', hs = first :: hs' ∧ RegistersAfter env inp ends hs' h all) := by
  constructor
  · intro ⟨hbefore, hends, hregisters⟩
    cases hs with
    | nil =>
        obtain rfl : h = first := (List.cons_prefix_cons.mp hbefore).1
        exact ⟨hends h (List.mem_singleton_self h), Or.inl ⟨rfl, rfl, hregisters⟩⟩
    | cons h' hs' =>
        obtain ⟨hfirst, hrest⟩ := List.cons_prefix_cons.mp hbefore
        subst hfirst
        rw [List.cons_append, List.forall_mem_cons] at hends
        exact ⟨hends.1, Or.inr ⟨hs', rfl, hrest, hends.2, hregisters⟩⟩
  · rintro ⟨hfirst, ⟨rfl, rfl, hregisters⟩ | ⟨hs', rfl, hbefore, hends, hregisters⟩⟩
    · refine ⟨List.cons_prefix_cons.mpr ⟨rfl, List.nil_prefix⟩, ?_, hregisters⟩
      rw [List.nil_append, List.forall_mem_singleton]
      exact hfirst
    · refine ⟨List.cons_prefix_cons.mpr ⟨rfl, hbefore⟩, ?_, hregisters⟩
      rw [List.cons_append, List.forall_mem_cons]
      exact ⟨hfirst, hends⟩

end Prefixes

/-! ### Runs -/

/-- The name that the decoder of `h` registers after those of `hs`. -/
def NameOf (mode : ApeMode) (inp : NameInput) (uninit : NodeId) (fill : Option Fill)
    (hs : List NameHeader) (h : NameHeader) (name : AddedName) : Prop :=
  name.level = h.level ∧
    name.nodeId = idAfter inp uninit (lastFill mode inp uninit fill (hs ++ [h]))

/-- A run from a state whose id comes from `fill` adds the names of the headers, and only these. -/
def NamesFrom (env : NamesEnv) (inp : NameInput) (uninit : NodeId) (rounds : Nat) (fill : Option Fill)
    (hs : List NameHeader) (new : List AddedName) : Prop :=
  (∀ name ∈ new, ∃ before h, RegistersAfter env inp (EnoughRounds inp rounds) before h hs ∧
    NameOf env.mode inp uninit fill before h name) ∧
  ∀ before h, RegistersAfter env inp (EnoughRounds inp rounds) before h hs →
    ∃ name ∈ new, NameOf env.mode inp uninit fill before h name

section Runs

variable {env : NamesEnv} {inp : NameInput} {uninit : NodeId} {rounds : Nat}

theorem namesFrom_nil (fill : Option Fill) : NamesFrom env inp uninit rounds fill [] [] :=
  ⟨fun _ h => absurd h List.not_mem_nil, fun _ _ h => absurd h not_registersAfter_nil⟩

/-- The names of the first header come before those of the rest, which the run does not come to if
the first decoder does not return. -/
theorem namesFrom_cons {fill : Option Fill} {h : NameHeader} {hs : List NameHeader}
    {new later : List AddedName}
    (hnew : ∀ name ∈ new, NameOf env.mode inp uninit fill [] h name)
    (hregisters : new ≠ [] ↔
      (∀ start ∈ h.fn.encodedNames inp h.off, EnoughRounds inp rounds start) ∧
        h.fn.Registers env inp h.off)
    (hlater : (∀ start ∈ h.fn.encodedNames inp h.off, EnoughRounds inp rounds start) →
      NamesFrom env inp uninit rounds (h.lastFill env.mode inp uninit fill) hs later)
    (hstuck : later ≠ [] → ∀ start ∈ h.fn.encodedNames inp h.off, EnoughRounds inp rounds start) :
    NamesFrom env inp uninit rounds fill (h :: hs) (new ++ later) := by
  constructor
  · intro name hname
    rcases List.mem_append.mp hname with hname | hname
    · obtain ⟨hends, hreg⟩ := hregisters.mp (List.ne_nil_of_mem hname)
      exact ⟨[], h, registersAfter_cons_iff.mpr ⟨hends, Or.inl ⟨rfl, rfl, hreg⟩⟩, hnew name hname⟩
    · have hends := hstuck (List.ne_nil_of_mem hname)
      obtain ⟨before, h', hafter, hof⟩ := (hlater hends).1 name hname
      exact ⟨h :: before, h', registersAfter_cons_iff.mpr ⟨hends, Or.inr ⟨before, rfl, hafter⟩⟩, hof⟩
  · intro before h' hafter
    obtain ⟨hends, ⟨rfl, rfl, hreg⟩ | ⟨before, rfl, hrest⟩⟩ := registersAfter_cons_iff.mp hafter
    · obtain ⟨name, hname⟩ := List.exists_mem_of_ne_nil new (hregisters.mpr ⟨hends, hreg⟩)
      exact ⟨name, List.mem_append_left later hname, hnew name hname⟩
    · obtain ⟨name, hname, hof⟩ := (hlater hends).2 before h' hrest
      exact ⟨name, List.mem_append_right new hname, hof⟩

/-- The decoders register level by level. -/
theorem decodeNext_names (levels : Nat) {nt : NameAdd} {fill : Option Fill}
    (hid : nt.nodeId = idAfter inp uninit fill) :
    ∃ new, (decodeNext env inp rounds levels nt).2.names = nt.names ++ new ∧
      NamesFrom env inp uninit rounds fill (headersFrom inp levels nt.level nt.offset) new := by
  have hstop (nt : NameAdd) (fill : Option Fill) : ∃ new, nt.names = nt.names ++ new ∧
      NamesFrom env inp uninit rounds fill [] new :=
    ⟨[], (List.append_nil _).symm, namesFrom_nil fill⟩
  induction levels generalizing nt fill with
  | zero => exact hstop nt fill
  | succ levels ih =>
      rw [decodeNext, headersFrom]
      cases htoken : inp.tokens.token nt.level with
      | none => exact hstop nt fill
      | some name =>
          dsimp only
          cases hlookup : protFunctionsTable.lookup name with
          | none => exact @ih nt.nextLevel fill hid
          | some fn =>
              dsimp only
              by_cases hle : inp.packet.packetSize ≤ nt.offset
              · rw [if_pos hle, if_pos hle]
                exact hstop nt fill
              · have hlt := Nat.lt_of_not_le hle
                have hcalled := @call_registered env inp rounds nt fn hlt
                have hreturns := @call_isSome_iff env inp rounds nt fn hlt
                rw [if_neg hle, if_neg hle]
                rcases hcall : fn.call env inp rounds nt with ⟨returned, nt'⟩
                rw [hcall] at hcalled hreturns
                obtain ⟨hnodeId, new, hnames, hnew, hregisters⟩ := hcalled
                have hid' : nt'.nodeId = idAfter inp uninit
                    (NameHeader.lastFill env.mode inp uninit fill ⟨nt.level, fn, nt.offset⟩) := by
                  rw [idAfter_lastFill, ← hid]
                  exact hnodeId
                have hof : ∀ name ∈ new,
                    NameOf env.mode inp uninit fill [] ⟨nt.level, fn, nt.offset⟩ name :=
                  fun name hname => ⟨(hnew name hname).1, (hnew name hname).2.trans hid'⟩
                rw [hreturns] at hregisters
                cases returned with
                | none =>
                    refine ⟨new ++ [], by rw [List.append_nil]; exact hnames, ?_⟩
                    refine namesFrom_cons hof hregisters (fun hends => ?_) fun h => absurd rfl h
                    cases hreturns.mpr hends
                | some goOn =>
                    obtain ⟨hlevel, hnext⟩ := call_returned fn hlt hcall
                    have hends := hreturns.mp rfl
                    rw [hnext]
                    cases goOn with
                    | false =>
                        refine ⟨new ++ [], by rw [List.append_nil]; exact hnames, ?_⟩
                        exact namesFrom_cons hof hregisters (fun _ => namesFrom_nil _) fun _ => hends
                    | true =>
                        obtain ⟨later, hlaterNames, hlater⟩ := @ih nt'.nextLevel _ hid'
                        rw [NameAdd.nextLevel_level, NameAdd.nextLevel_offset, hlevel] at hlater
                        refine ⟨new ++ later, ?_, namesFrom_cons hof hregisters (fun _ => hlater)
                          fun _ => hends⟩
                        rw [← List.append_assoc, ← hnames]
                        exact hlaterNames

theorem level_le_of_mem_headersFrom {levels level off : Nat} {h : NameHeader}
    (hmem : h ∈ headersFrom inp levels level off) : level ≤ h.level := by
  induction levels generalizing level off with
  | zero => cases hmem
  | succ levels ih =>
      rw [headersFrom] at hmem
      split at hmem
      · cases hmem
      · split at hmem
        · exact Nat.le_of_succ_le (ih hmem)
        · split at hmem
          · cases hmem
          · rcases List.mem_cons.mp hmem with rfl | hmem
            · exact le_rfl
            · split at hmem
              · cases hmem
              · exact Nat.le_of_succ_le (ih hmem)

theorem pairwise_level_headersFrom (levels level off : Nat) :
    (headersFrom inp levels level off).Pairwise fun h h' => h.level < h'.level := by
  induction levels generalizing level off with
  | zero => exact List.Pairwise.nil
  | succ levels ih =>
      rw [headersFrom]
      split
      · exact List.Pairwise.nil
      · split
        · exact ih (level + 1) off
        · split
          · exact List.Pairwise.nil
          · refine List.Pairwise.cons (fun h hmem => ?_) ?_
            · split at hmem
              · cases hmem
              · exact level_le_of_mem_headersFrom hmem
            · split
              · exact List.Pairwise.nil
              · exact ih (level + 1) _

theorem filter_level_le {ends : Int → Prop} {hs : List NameHeader} {h : NameHeader}
    (hafter : RegistersAfter env inp ends hs h (headers inp)) :
    (headers inp).filter (·.level ≤ h.level) = hs ++ [h] := by
  obtain ⟨rest, hrest⟩ := hafter.isPrefix
  have hsorted : (headers inp).Pairwise fun h h' => h.level < h'.level :=
    pairwise_level_headersFrom stackSize 1 0
  rw [← hrest, List.pairwise_append] at hsorted
  obtain ⟨hinner, _, hbehind⟩ := hsorted
  rw [← hrest, List.filter_append]
  have hkept : (hs ++ [h]).filter (·.level ≤ h.level) = hs ++ [h] := by
    rw [List.filter_eq_self]
    intro h' hmem
    rw [decide_eq_true_eq]
    rcases List.mem_append.mp hmem with hmem | hmem
    · exact ((List.pairwise_append.mp hinner).2.2 h' hmem h (List.mem_singleton_self h)).le
    · rw [List.mem_singleton.mp hmem]
  have hdropped : rest.filter (·.level ≤ h.level) = [] := by
    rw [List.filter_eq_nil_iff]
    intro h' hmem
    have hlt := hbehind h (List.mem_append_right hs (List.mem_singleton_self h)) h' hmem
    rw [decide_eq_true_eq]
    exact Nat.not_le_of_lt hlt
  rw [hkept, hdropped, List.append_nil]

theorem filledInCall_iff {ends : Int → Prop} {hs : List NameHeader} {h : NameHeader}
    {name : AddedName} (hafter : RegistersAfter env inp ends hs h (headers inp))
    (hof : NameOf env.mode inp uninit none hs h name) :
    name.FilledInCall env.mode inp uninit ↔
      ∃ fill ∈ lastFill env.mode inp uninit none (hs ++ [h]), fill.Complete inp := by
  obtain ⟨hlevel, hid⟩ := hof
  unfold AddedName.FilledInCall
  rw [hlevel, filter_level_le hafter]
  constructor
  · rintro ⟨fill, hfill, hcomplete, _⟩
    exact ⟨fill, hfill, hcomplete⟩
  · rintro ⟨fill, hfill, hcomplete⟩
    refine ⟨fill, hfill, hcomplete, ?_⟩
    rw [hid, Option.mem_def.mp hfill]
    rfl

theorem registersAfter_iff_rounds {hs all : List NameHeader} {h : NameHeader} :
    RegistersAfter env inp (fun start => ¬Circular inp.packet start) hs h all ↔
      ∃ rounds, RegistersAfter env inp (EnoughRounds inp rounds) hs h all := by
  constructor
  · intro hafter
    have hends : ∀ start ∈ (hs ++ [h]).flatMap fun h' => h'.fn.encodedNames inp h'.off,
        Ends (chain inp.packet start) start := by
      intro start hstart
      obtain ⟨h', hmem, hstart⟩ := List.mem_flatMap.mp hstart
      exact (ends_chain_iff inp.packet start).mpr (hafter.ends h' hmem start hstart)
    obtain ⟨rounds, hrounds⟩ := exists_enoughRounds_forall hends
    refine ⟨rounds, hafter.isPrefix, fun h' hmem start hstart => ?_, hafter.registers⟩
    exact hrounds start (List.mem_flatMap.mpr ⟨h', hmem, hstart⟩)
  · rintro ⟨rounds, hafter⟩
    refine ⟨hafter.isPrefix, fun h' hmem start hstart => ?_, hafter.registers⟩
    have henough := hafter.ends h' hmem start hstart
    exact (ends_chain_iff inp.packet start).mp
      ((exists_enoughRounds_iff inp start).mp ⟨rounds, henough⟩)

end Runs

/-- The names of a packet are those of the headers that are come to. -/
theorem getPacketNames_names (env : NamesEnv) (inp : NameInput) (uninit : NodeId) (rounds : Nat) :
    NamesFrom env inp uninit rounds none (headers inp)
      (getPacketNames env inp uninit rounds).2.names := by
  obtain ⟨new, hnames, hfrom⟩ := @decodeNext_names env inp uninit rounds stackSize
    (NameAdd.start uninit) none rfl
  rw [getPacketNames, hnames]
  exact hfrom

/-- **Names of addresses that were read.** -/
theorem getPacketNames_filled_iff (env : NamesEnv) (inp : NameInput) (uninit : NodeId) :
    (∀ rounds, ∀ name ∈ (getPacketNames env inp uninit rounds).2.names,
        name.FilledInCall env.mode inp uninit) ↔ NamesFilled env inp uninit := by
  constructor
  · intro hfilled hs h hafter
    obtain ⟨rounds, hrounds⟩ := registersAfter_iff_rounds.mp hafter
    obtain ⟨name, hname, hof⟩ := (getPacketNames_names env inp uninit rounds).2 hs h hrounds
    exact (filledInCall_iff hafter hof).mp (hfilled rounds name hname)
  · intro hfilled rounds name hname
    obtain ⟨hs, h, hrounds, hof⟩ := (getPacketNames_names env inp uninit rounds).1 name hname
    exact (filledInCall_iff hrounds hof).mpr
      (hfilled hs h (registersAfter_iff_rounds.mpr ⟨rounds, hrounds⟩))

/-- A SAP response over IPX in a Linux cooked capture, where no header has an address that is copied. -/
def cookedSapResponse : RawPacket :=
  .sized 60 fun i =>
    if i = 14 then 0x81 else if i = 15 then 0x37 else if i = 16 ∨ i = 17 then 0xFF
    else if i = 21 then 4 else if i = 32 then 0x04 else if i = 33 then 0x52
    else if i = 47 then 2 else if i = 50 then 0x41 else 0

theorem not_all_names_filled :
    ¬∀ (env : DecodeEnv) (names : NamesEnv) (packet : RawPacket) (conversations : Conversations)
      (pphLkentry : Option Linktype) (calls : Nat) (d : DecodeState) (dir : PacketDirection)
      (uninit : NodeId) (rounds : Nat), names.mode = env.mode →
      getPacketProt env calls (packet.decodeStart conversations pphLkentry) = .finished d →
      ∀ name ∈ (getPacketNames names (d.nameInput env packet dir) uninit rounds).2.names,
        name.FilledInCall names.mode (d.nameInput env packet dir) uninit := by
  intro h
  have hcopied := fun name hname => (h (.bare (linktypeAt 2) .ip)
    ⟨.ip, false, fun _ => none, fun _ => [], fun _ => none, ⟨fun _ => 0, []⟩⟩ cookedSapResponse
    Conversations.empty none 0 _ .outbound NodeId.clear 0 rfl rfl name hname).copied
  revert hcopied
  decide +kernel

end EtherApe
