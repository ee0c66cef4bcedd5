import EtherApe.DecodeProto.Addresses
import EtherApe.Names.Levels

/-!
# Names of link addresses

The protocol decoder knows for each medium where its header has the addresses. The name decoder has one
function for all of them, with the places of Ethernet, and it takes a higher level for one more link header
if a service or a conversation is called so.
-/

namespace EtherApe

open CInt DecodeState

/-! ### Ids of a header -/

def macId (src : Nat → UInt8) : NodeId := ⟨.link6, NodeId.clear.addr.setEth src⟩

theorem macId_eq_iff {src src' : Nat → UInt8} : macId src = macId src' ↔ ∀ j < 6, src j = src' j := by
  constructor
  · intro h j hj
    have hbyte := congrFun (congrArg NodeId.addr h) ⟨j, by omega⟩
    simpa [macId, NodeAddr.setEth, Octets.write, hj] using hbyte
  · intro h
    unfold macId
    congr 1
    funext k
    show (if 0 ≤ k.val ∧ k.val < 0 + 6 then src (k.val - 0) else _) =
      if 0 ≤ k.val ∧ k.val < 0 + 6 then src' (k.val - 0) else _
    split
    next hk => exact h _ (by omega)
    · rfl

def macAt (w : Window) (i : Nat) : NodeId := macId fun j => w.get (i + j)

/-- The name decoder has an address in the link header of the name. -/
def LinkNamed (name : String) : Prop := protFunctionsTable.lookup name = some .getLink6Name

/-- The name of a header with its addresses at an offset. If the name decoder has nothing for the name, the
places are those of Ethernet and there are no more names. -/
structure MacsStored (w : Window) (offset : Nat) (before : List String) (name : String)
    (d : DecodeState) : Prop where
  recorded : Recorded (before ++ [name]) (macAt w (offset + 6)) (macAt w offset) d
  long : 14 ≤ w.len
  named : LinkNamed name ∨ protFunctionsTable.lookup name = none ∧ offset = 0 ∧
    d.added.map Prod.fst = before ++ [name]

/-- The link decoder has stored nothing, or the addresses of its header. -/
def MacsRead (w : Window) (offset : Nat) (before : List String) (d : DecodeState) : Prop :=
  d.srcNodeId = NodeId.clear ∨ ∃ name, MacsStored w offset before name d

section Decoding

variable {env : DecodeEnv} {d : DecodeState} {names : List String}

theorem recorded_setLink6NodeIds (hsrc : d.srcNodeId = NodeId.clear) (hdst : d.dstNodeId = NodeId.clear)
    (hnames : names <+: d.added.map Prod.fst) (dstofs srcofs : Nat) :
    Recorded names (macAt d.window srcofs) (macAt d.window dstofs) (setLink6NodeIds dstofs srcofs d) := by
  refine ⟨hnames, ?_, ?_⟩
  · unfold macAt macId
    rw [← hsrc]
    rfl
  · unfold macAt macId
    rw [← hdst]
    rfl

theorem Recorded.decodeProtoAdd {src dst : NodeId} (h : Recorded names src dst d)
    (hnames : d.added.map Prod.fst = names) (name : String) :
    Recorded (names ++ [name]) src dst (d.decodeProtoAdd name) := by
  refine ⟨?_, h.src, h.dst⟩
  rw [decodeProtoAdd_added, List.map_append, hnames]
  exact List.prefix_rfl

section Link6

variable (hmode : env.mode = .link6) (hsrc : d.srcNodeId = NodeId.clear)
  (hdst : d.dstNodeId = NodeId.clear) (hnames : d.added.map Prod.fst = names)

include hmode hsrc hdst hnames

theorem getEthTypeAt_macsRead (hlen : 14 ≤ d.window.len) (sizeOffset ethsize : Nat) :
    MacsRead d.window 0 names (getEthTypeAt env sizeOffset ethsize d) := by
  have hfields := linkPreserved_recorded hmode names (macAt d.window 6) (macAt d.window 0)
  have hlink (name : String) := linkPreserved_recorded hmode (names ++ [name]) (macAt d.window 6)
    (macAt d.window 0)
  unfold getEthTypeAt
  dsimp only
  split
  · set d₁ := ((d.matchBytes (sizeOffset + 2) [0xff, 0xff]).2.matchBytes 0
      [0x01, 0x00, 0x0C, 0x00, 0x00]).2 with hd₁
    have hwindow : d₁.window = d.window := by simp [hd₁]
    have hsrc₁ : d₁.srcNodeId = NodeId.clear := by simp [hd₁, hsrc]
    have hdst₁ : d₁.dstNodeId = NodeId.clear := by simp [hd₁, hdst]
    have hnames₁ : d₁.added.map Prod.fst = names := by simp [hd₁, hnames]
    clear_value d₁
    have hmacs := @recorded_setLink6NodeIds d₁ names hsrc₁ hdst₁ (by rw [hnames₁]) 0 6
    rw [hwindow] at hmacs
    have hadded (name : String) := (hfields.addOffset (n := sizeOffset + 2) hmacs).decodeProtoAdd
      hnames₁ name
    split
    · exact Or.inl hsrc₁
    · split
      · refine Or.inr ⟨"802.3-RAW", hadded _, hlen, Or.inr ⟨rfl, rfl, ?_⟩⟩
        rw [decodeProtoAdd_added, List.map_append]
        exact congrArg (· ++ ["802.3-RAW"]) hnames₁
      · exact Or.inr ⟨"802.3", (hlink _).getLlc (hadded _), hlen, Or.inl rfl⟩
  · have hmacs := @recorded_setLink6NodeIds d names hsrc hdst (by rw [hnames]) 0 6
    have hadded := (hfields.addOffset (n := sizeOffset + 2) hmacs).decodeProtoAdd hnames "ETH_II"
    exact Or.inr ⟨"ETH_II", (hlink _).getEthII hadded, hlen, Or.inl rfl⟩

end Link6

variable (hmode : env.mode = .link6) (hsrc : d.srcNodeId = NodeId.clear)
  (hdst : d.dstNodeId = NodeId.clear) (hnames : d.added = [])

include hmode hsrc hdst hnames

theorem getEthType_macsRead :
    MacsRead d.window 0 [] (getEthType env d) ∨ MacsRead d.window 0 ["802.1Q"] (getEthType env d) := by
  unfold getEthType
  dsimp only [pntohs]
  split
  · exact Or.inl (Or.inl hsrc)
  next hlong =>
    split
    · right
      have htag {d' : DecodeState} (hd' : d'.window = d.window ∧ d'.srcNodeId = NodeId.clear ∧
          d'.dstNodeId = NodeId.clear ∧ d'.added.map Prod.fst = ["802.1Q"]) (ethsize : Nat) :
          MacsRead d.window 0 ["802.1Q"] (getEthTypeAt env 16 ethsize (d'.touch 16 2)) := by
        obtain ⟨hwindow', hsrc', hdst', hnames'⟩ := hd'
        rw [← hwindow']
        refine getEthTypeAt_macsRead (d := d'.touch 16 2) hmode hsrc' hdst' hnames' ?_ 16 ethsize
        rw [touch_window, hwindow']
        omega
      apply htag
      split
      all_goals
        refine ⟨rfl, hsrc, hdst, ?_⟩
        show (d.added ++ [("802.1Q", d.window)]).map Prod.fst = _
        rw [hnames]
        rfl
    · left
      refine getEthTypeAt_macsRead (d := d.touch 12 2) hmode hsrc hdst ?_ ?_ 12 _
      · show d.added.map Prod.fst = []
        rw [hnames]
        rfl
      · rw [touch_window]
        omega

theorem getFddiType_macsRead : MacsRead d.window 1 [] (getFddiType env d) := by
  have hlink := linkPreserved_recorded hmode ["FDDI"] (macAt d.window 7) (macAt d.window 1)
  have hmacs : Recorded ["FDDI"] (macAt d.window 7) (macAt d.window 1)
      (setLink6NodeIds 1 7 ((d.decodeProtoAdd "FDDI").decodeProtoAdd "LLC")) := by
    apply recorded_setLink6NodeIds (d := (d.decodeProtoAdd "FDDI").decodeProtoAdd "LLC") hsrc hdst
    show _ <+: ((d.added ++ [("FDDI", d.window)]) ++ [("LLC", d.window)]).map Prod.fst
    rw [hnames]
    exact ⟨["LLC"], rfl⟩
  unfold getFddiType
  dsimp only
  split
  · exact Or.inl hsrc
  next hlong =>
    refine Or.inr ⟨"FDDI", ?_, Nat.le_of_not_lt hlong, Or.inl rfl⟩
    split
    · exact hmacs
    · split
      · exact hlink.getIp (hlink.addOffset (hlink.matchBytes hmacs))
      · exact hlink.matchBytes hmacs

theorem getIeee8025Type_macsRead : MacsRead d.window 2 [] (getIeee8025Type env d) := by
  have hlink := linkPreserved_recorded hmode ["Token Ring"] (macAt d.window 8) (macAt d.window 2)
  have hmacs : Recorded ["Token Ring"] (macAt d.window 8) (macAt d.window 2)
      (setLink6NodeIds 2 8 (d.decodeProtoAdd "Token Ring")) := by
    apply recorded_setLink6NodeIds (d := d.decodeProtoAdd "Token Ring") hsrc hdst
    show _ <+: (d.added ++ [("Token Ring", d.window)]).map Prod.fst
    rw [hnames]
    exact List.prefix_rfl
  unfold getIeee8025Type
  dsimp only
  split
  · exact Or.inl hsrc
  next hlong =>
    refine Or.inr ⟨"Token Ring", ?_, Nat.le_of_succ_le (Nat.le_of_not_lt hlong), Or.inl rfl⟩
    split
    · exact hmacs
    · split
      · exact hlink.getIp (hlink.addOffset (hlink.matchBytes (hlink.decodeProtoAdd hmacs)))
      · exact hlink.matchBytes (hlink.decodeProtoAdd hmacs)

end Decoding

def macOffset : GetFun → Nat
  | .getFddiType => 1
  | .getIeee8025Type => 2
  | _ => 0

/-- The media with addresses in the link header. -/
def macMedia : List GetFun := [.getEthType, .getFddiType, .getIeee8025Type]

theorem MacsRead.copyTopmost {w : Window} {offset : Nat} {before : List String} {d : DecodeState}
    (h : MacsRead w offset before d) : MacsRead w offset before (copyTopmost d) := by
  obtain ⟨pr, hpr⟩ := copyTopmost_eq d
  rw [hpr]
  rcases h with hclear | ⟨name, hrecorded, hlong, hnamed⟩
  · exact Or.inl hclear
  · exact Or.inr ⟨name, ⟨hrecorded.names, hrecorded.src, hrecorded.dst⟩, hlong, hnamed⟩

section Packets

variable {env : DecodeEnv} {calls : Nat} {packet : RawPacket} {conversations : Conversations}
  {pphLkentry : Option Linktype} {d : DecodeState}

theorem getPacketProt_macsRead (hmode : env.mode = .link6)
    (hmedium : env.lkentry.val.getFun ∈ macMedia)
    (hd : getPacketProt env calls (packet.decodeStart conversations pphLkentry) = .finished d) :
    ∃ before, (before = [] ∨ before = ["802.1Q"]) ∧
      MacsRead (Window.whole (fun i => packet.p i) packet.packetSize)
        (macOffset env.lkentry.val.getFun) before d := by
  set start := packet.decodeStart conversations pphLkentry with hstart
  unfold getPacketProt at hd
  have hmedia : env.lkentry.val.getFun = .getEthType ∨ env.lkentry.val.getFun = .getFddiType ∨
      env.lkentry.val.getFun = .getIeee8025Type := by
    simpa [macMedia] using hmedium
  rcases hmedia with hfun | hfun | hfun
  · rw [hfun] at hd ⊢
    cases hd
    rcases @getEthType_macsRead env start hmode rfl rfl rfl with hmacs | hmacs
    · exact ⟨_, Or.inl rfl, hmacs.copyTopmost⟩
    · exact ⟨_, Or.inr rfl, hmacs.copyTopmost⟩
  · rw [hfun] at hd ⊢
    cases hd
    exact ⟨_, Or.inl rfl, (@getFddiType_macsRead env start hmode rfl rfl rfl).copyTopmost⟩
  · rw [hfun] at hd ⊢
    cases hd
    exact ⟨_, Or.inl rfl, (@getIeee8025Type_macsRead env start hmode rfl rfl rfl).copyTopmost⟩

theorem MacsStored.decoder {w : Window} {offset : Nat} {before : List String} {name : String}
    (h : MacsStored w offset before name d)
    (hd : getPacketProt env calls (packet.decodeStart conversations pphLkentry) = .finished d)
    (hbefore : before.length < stackSize) (hnamed : LinkNamed name) :
    d.pr.decoder (before.length + 1) = some .getLink6Name := by
  have hlt : before.length < (before ++ [name]).length := by simp
  rw [PacketProtos.decoder, token_firstNames hd h.recorded.names hlt hbefore,
    List.getElem_concat_length rfl]
  exact hnamed

/-- A header that the name decoder has nothing for leaves no level to the decoder of link headers. -/
theorem MacsStored.not_decoder {w : Window} {offset : Nat} {before : List String} {name : String}
    (h : MacsStored w offset before name d) (hbefore : before = [] ∨ before = ["802.1Q"])
    (hd : getPacketProt env calls (packet.decodeStart conversations pphLkentry) = .finished d)
    (hnone : protFunctionsTable.lookup name = none)
    (hadded : d.added.map Prod.fst = before ++ [name]) {level : Nat} (hpos : 0 < level) :
    d.pr.decoder level ≠ some .getLink6Name := by
  intro hdecoder
  obtain ⟨token, htoken, hlookup⟩ := Option.bind_eq_some_iff.mp hdecoder
  have hmem := List.mem_of_getElem? (mem_added_of_token hd hpos htoken)
  rw [hadded, List.mem_append, List.mem_singleton] at hmem
  rcases hmem with hmem | rfl
  · rcases hbefore with rfl | rfl
    · exact absurd hmem List.not_mem_nil
    · rw [List.mem_singleton.mp hmem] at hlookup
      cases hlookup
  · rw [hnone] at hlookup
    cases hlookup

def linkDisp (dir : PacketDirection) : Nat := if dir = .inbound then 0 else 6

/-- A byte of the address at a link header. The address is empty where the packet ends before it does. -/
def linkByte (inp : NameInput) (off j : Nat) : UInt8 :=
  if off + linkDisp inp.dir + 6 ≤ inp.packet.packetSize then
    inp.packet.p (off + linkDisp inp.dir + j : Nat)
  else 0

theorem fill_link_nodeId {inp : NameInput} {off : Nat} (hlt : off < inp.packet.packetSize) :
    Fill.nodeId inp ⟨.link6, off, if inp.dir = .inbound then 0 else 6, 0, 0⟩ =
      macId (linkByte inp off) := by
  have hsize := inp.packet.packetSize_lt
  have hdisp : (if inp.dir = .inbound then 0 else 6 : Int) = linkDisp inp.dir := by
    unfold linkDisp
    split_ifs
    all_goals rfl
  have hle : linkDisp inp.dir ≤ 6 := by
    unfold linkDisp
    split_ifs
    all_goals decide
  have hfits : fillFits inp off (linkDisp inp.dir) 0 (fillSize .link6 0) ↔
      off + linkDisp inp.dir + 6 ≤ inp.packet.packetSize := by
    show fillFits inp off (linkDisp inp.dir) 0 6 ↔ _
    unfold fillFits unsigned
    omega
  rw [hdisp]
  unfold linkByte
  by_cases hcaptured : off + linkDisp inp.dir + 6 ≤ inp.packet.packetSize
  · rw [Fill.nodeId_of_fits (hfits.mpr hcaptured)]
    simp only [if_pos hcaptured]
    push_cast
    rfl
  · simp only [if_neg hcaptured]
    refine (if_neg fun h => hcaptured (hfits.mp h)).trans ?_
    unfold macId
    congr 1
    funext k
    unfold NodeAddr.setEth Octets.write
    split_ifs
    all_goals rfl

/-! ### Names of link levels -/

/-- The name is registered for a level that is called like a link header. -/
def AddedName.OfLink (name : AddedName) (tokens : PacketProtos) : Prop :=
  tokens.decoder name.level = some .getLink6Name

instance (name : AddedName) (tokens : PacketProtos) : Decidable (name.OfLink tokens) :=
  inferInstanceAs (Decidable (_ = _))

/-- The decoder of a link header is called at `h`, behind encoded names that end. -/
structure LinkHeaderAt (inp : NameInput) (h : NameHeader) : Prop where
  isLink : h.fn = .getLink6Name
  reached : ∃ hs, hs ++ [h] <+: headers inp ∧
    ∀ h' ∈ hs, ∀ start ∈ h'.fn.encodedNames inp h'.off, ¬Circular inp.packet start

theorem LinkHeaderAt.mem {inp : NameInput} {h : NameHeader} (hat : LinkHeaderAt inp h) :
    h ∈ headers inp := by
  obtain ⟨hs, hbefore, _⟩ := hat.reached
  exact hbefore.subset (List.mem_append_right hs (List.mem_singleton_self h))

/-- The names of link levels are registered for a MAC just when the headers there have it. -/
theorem linkNames_iff {env : NamesEnv} {inp : NameInput} {uninit : NodeId} {mac : Nat → UInt8} :
    (∀ rounds, ∀ name ∈ (getPacketNames env inp uninit rounds).2.names, name.OfLink inp.tokens →
        name.nodeId = macId mac) ↔
      ∀ h, LinkHeaderAt inp h → ∀ j < 6, linkByte inp h.off j = mac j := by
  have hid {hs : List NameHeader} {h : NameHeader} (hmem : h ∈ headers inp) (hfn : h.fn = .getLink6Name) :
      idAfter inp uninit (lastFill env.mode inp uninit none (hs ++ [h])) = macId (linkByte inp h.off) := by
    have hfill := @lastFill_of_fill inp uninit env.mode hs h _ (by rw [hfn]; rfl)
    rw [hfill, idAfter_some, fill_link_nodeId (mem_headersFrom hmem).2]
  constructor
  · intro hall h hat
    obtain ⟨hs, hbefore, hends⟩ := hat.reached
    have hmem := hat.mem
    have hafter : RegistersAfter env inp (fun start => ¬Circular inp.packet start) hs h (headers inp) := by
      refine ⟨hbefore, fun h' hmem' start hstart => ?_, by rw [hat.isLink]; exact trivial⟩
      rcases List.mem_append.mp hmem' with hmem' | hmem'
      · exact hends h' hmem' start hstart
      · rw [List.mem_singleton.mp hmem', hat.isLink] at hstart
        exact absurd hstart List.not_mem_nil
    obtain ⟨rounds, hrounds⟩ := registersAfter_iff_rounds.mp hafter
    obtain ⟨name, hname, hof⟩ := (getPacketNames_names env inp uninit rounds).2 hs h hrounds
    have hlevel : name.OfLink inp.tokens := by
      rw [AddedName.OfLink, hof.1, (mem_headersFrom hmem).1, hat.isLink]
    rw [← macId_eq_iff, ← hid hmem hat.isLink, ← hof.2]
    exact hall rounds name hname hlevel
  · intro hall rounds name hname hlink
    obtain ⟨hs, h, hrounds, hof⟩ := (getPacketNames_names env inp uninit rounds).1 name hname
    have hafter := registersAfter_iff_rounds.mpr ⟨rounds, hrounds⟩
    have hmem : h ∈ headers inp :=
      hafter.isPrefix.subset (List.mem_append_right hs (List.mem_singleton_self h))
    have hfn : h.fn = .getLink6Name := by
      rw [AddedName.OfLink, hof.1, (mem_headersFrom hmem).1] at hlink
      exact Option.some.inj hlink
    rw [hof.2, hid hmem hfn, macId_eq_iff]
    refine hall h ⟨hfn, hs, hafter.isPrefix, fun h' hmem' => ?_⟩
    exact hafter.ends h' (List.mem_append_left [h] hmem')

/-- **Where the link addresses are.** The name decoder finds the address of the medium at the place of
Ethernet, and once more at each higher level that is called like a link header. -/
structure LinkFound (medium : GetFun) (inp : NameInput) : Prop where
  first : ∀ j < 6, inp.packet.p (linkDisp inp.dir + j : Nat) =
    inp.packet.p (macOffset medium + linkDisp inp.dir + j : Nat)
  above : ∀ h, LinkHeaderAt inp h → 0 < h.off → ∀ j < 6, linkByte inp h.off j =
    inp.packet.p (macOffset medium + linkDisp inp.dir + j : Nat)

/-- In Ethernet it finds the address if no higher level is called like a link header. -/
theorem linkFound_of_ethernet {medium : GetFun} {inp : NameInput} (hmedium : macOffset medium = 0)
    (hone : ∀ h ∈ headers inp, h.fn = .getLink6Name → h.off = 0) : LinkFound medium inp := by
  refine ⟨fun j _ => ?_, fun h hat hpos => ?_⟩
  · rw [hmedium, Nat.zero_add]
  · rw [hone h hat.mem hat.isLink] at hpos
    exact absurd hpos (Nat.lt_irrefl 0)

theorem MacsStored.endpoint {offset : Nat} {before : List String} {name : String}
    (h : MacsStored (Window.whole (fun i => packet.p i) packet.packetSize) offset before name d)
    (dir : PacketDirection) :
    d.endpoint dir = macId fun j => packet.p (offset + linkDisp dir + j : Nat) := by
  have hwindow : d.endpoint dir =
      macAt (Window.whole (fun i => packet.p i) packet.packetSize) (offset + linkDisp dir) := by
    unfold DecodeState.endpoint linkDisp
    split_ifs
    · exact h.recorded.dst
    · exact h.recorded.src
  rw [hwindow, macAt, macId_eq_iff]
  intro j _
  simp only [Window.get, Window.whole, Nat.zero_add]

theorem linkByte_zero {inp : NameInput} (hlong : 14 ≤ inp.packet.packetSize) (j : Nat) :
    linkByte inp 0 j = inp.packet.p (linkDisp inp.dir + j : Nat) := by
  have hcaptured : 0 + linkDisp inp.dir + 6 ≤ inp.packet.packetSize := by
    unfold linkDisp
    split_ifs
    all_goals omega
  rw [linkByte, if_pos hcaptured, Nat.zero_add]

/-- The name decoder begins with the link header, behind a tag that it has nothing for. -/
theorem MacsStored.headerAt {w : Window} {offset : Nat} {before : List String} {name : String}
    (h : MacsStored w offset before name d) (hbefore : before = [] ∨ before = ["802.1Q"])
    (hd : getPacketProt env calls (packet.decodeStart conversations pphLkentry) = .finished d)
    (hnamed : LinkNamed name) (hlong : 14 ≤ packet.packetSize) (dir : PacketDirection) :
    LinkHeaderAt (d.nameInput env packet dir) ⟨before.length + 1, .getLink6Name, 0⟩ := by
  have hsize : before.length < stackSize := by
    rcases hbefore with rfl | rfl
    all_goals decide
  have hdecoder := h.decoder hd hsize hnamed
  have hpos : 0 < (d.nameInput env packet dir).packet.packetSize := Nat.lt_of_lt_of_le (by decide) hlong
  refine ⟨rfl, [], ?_, fun h' hmem => absurd hmem List.not_mem_nil⟩
  rcases hbefore with rfl | rfl
  · exact @headersFrom_isPrefix _ 4 1 0 _ hdecoder hpos
  · have htag : (d.nameInput env packet dir).tokens.token 1 = some "802.1Q" :=
      token_firstNames hd h.recorded.names (i := 0) (Nat.succ_pos _) (by decide)
    show _ <+: headersFrom _ (3 + 1 + 1) 1 0
    rw [headersFrom_of_no_decoder htag rfl]
    exact @headersFrom_isPrefix _ 3 2 0 _ hdecoder hpos

/-- **Names of link addresses.** -/
theorem getLink6Name_endpoint_iff
    (hd : getPacketProt env calls (packet.decodeStart conversations pphLkentry) = .finished d)
    (hmedium : env.lkentry.val.getFun ∈ macMedia) (hmode : env.mode = .link6)
    (hstored : d.srcNodeId.nodeType = .link6) (names : NamesEnv) (dir : PacketDirection)
    (uninit : NodeId) :
    let inp := d.nameInput env packet dir
    (∀ rounds, ∀ name ∈ (getPacketNames names inp uninit rounds).2.names,
        name.OfLink d.pr → name.nodeId = d.endpoint dir) ↔
      LinkFound env.lkentry.val.getFun inp := by
  intro inp
  obtain ⟨before, hbefore, hmacs⟩ := getPacketProt_macsRead hmode hmedium hd
  set offset := macOffset env.lkentry.val.getFun with hoffset
  rcases hmacs with hclear | ⟨name, hstored⟩
  · rw [hclear] at hstored
    cases hstored
  · have hlong : 14 ≤ inp.packet.packetSize := hstored.long
    rw [hstored.endpoint]
    refine (@linkNames_iff names inp uninit fun j => packet.p (offset + linkDisp dir + j : Nat)).trans ?_
    rcases hstored.named with hnamed | ⟨hnone, hethernet, hadded⟩
    · have hheader := hstored.headerAt hbefore hd hnamed hlong dir
      constructor
      · intro hall
        refine ⟨fun j hj => ?_, fun h hat _ => hall h hat⟩
        exact (linkByte_zero hlong j).symm.trans (hall _ hheader j hj)
      · intro hfound h hat j hj
        rcases Nat.eq_zero_or_pos h.off with hzero | hpos
        · rw [hzero, linkByte_zero hlong]
          exact hfound.first j hj
        · exact hfound.above h hat hpos j hj
    · have hnot {h : NameHeader} (hat : LinkHeaderAt inp h) : False := by
        have hpos : 1 ≤ h.level := level_le_of_mem_headersFrom hat.mem
        have hdecoder := (mem_headersFrom hat.mem).1
        rw [hat.isLink] at hdecoder
        exact hstored.not_decoder hbefore hd hnone hadded hpos hdecoder
      refine iff_of_true (fun h hat => (hnot hat).elim) ⟨fun j _ => ?_, fun h hat => (hnot hat).elim⟩
      rw [← hoffset, hethernet, Nat.zero_add]

end Packets

/-- The frame of an ARP packet, whose bytes are zero otherwise. -/
def arpPacket : RawPacket := .sized 60 fun i => arpFrame i.toNat

theorem getLink6Name_endpoint_arpPacket :
    ∃ d, getPacketProt (DecodeEnv.bare linktypeEthernet .link6) 0
        (arpPacket.decodeStart Conversations.empty none) = .finished d ∧
      ∀ rounds, ∀ name ∈ (getPacketNames (NamesEnv.bare .link6) (d.nameInput
          (DecodeEnv.bare linktypeEthernet .link6) arpPacket .inbound)
          NodeId.clear rounds).2.names,
        name.OfLink d.pr → name.nodeId = d.endpoint .inbound := by
  refine ⟨_, rfl, ?_⟩
  refine (@getLink6Name_endpoint_iff (DecodeEnv.bare linktypeEthernet .link6) 0 arpPacket
    Conversations.empty none _ rfl List.mem_cons_self rfl rfl (NamesEnv.bare .link6) .inbound
    NodeId.clear).mpr ?_
  exact linkFound_of_ethernet rfl (by decide +kernel)

/-- The frame control of FDDI and two addresses. -/
def fddiFrame : RawPacket := .sized 60 fun i => [0x50, 2, 0, 0, 0, 0, 1, 2, 0, 0, 0, 0, 2].getD i.toNat 0

theorem not_all_link_names_endpoints :
    ¬∀ (env : DecodeEnv) (names : NamesEnv) (packet : RawPacket) (conversations : Conversations)
      (pphLkentry : Option Linktype) (calls : Nat) (d : DecodeState) (dir : PacketDirection)
      (uninit : NodeId) (rounds : Nat), env.lkentry.val.getFun ∈ macMedia → env.mode = .link6 →
      getPacketProt env calls (packet.decodeStart conversations pphLkentry) = .finished d →
      d.srcNodeId.nodeType = .link6 →
      ∀ name ∈ (getPacketNames names (d.nameInput env packet dir) uninit rounds).2.names,
        name.OfLink d.pr → name.nodeId = d.endpoint dir := by
  intro h
  have hmedium : (DecodeEnv.bare (linktypeAt 5) .link6).lkentry.val.getFun ∈ macMedia := by
    decide
  have hall := h (DecodeEnv.bare (linktypeAt 5) .link6) (NamesEnv.bare .link6) fddiFrame
    Conversations.empty none 0 _ .inbound NodeId.clear 0 hmedium rfl rfl rfl
  revert hall
  decide +kernel

end EtherApe
