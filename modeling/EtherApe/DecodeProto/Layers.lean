import EtherApe.DecodeProto.NodeTypes
import EtherApe.DecodeProto.Stack

/-!
# What the link layer hands to IP

The link decoders differ in the headers they strip, the names they give and the node ids they set. What
of all this `get_ip` finds is a function of the captured bytes alone, written down here for each framing
without the state that the decoders thread. Every decoder of the link type table either calls `get_ip` on
a state with just that handed to it, or does not come to IP at all.
-/

namespace EtherApe

open DecodeState

/-- Where `get_ip` is called: after which names, with which node ids, and at which window. -/
structure Handover where
  names : List String
  srcNodeId : NodeId
  dstNodeId : NodeId
  window : Window

namespace Handover

/-! ### Framings -/

def start (bytes : Nat → UInt8) (caplen : Nat) : Handover :=
  ⟨[], NodeId.clear, NodeId.clear, Window.whole bytes caplen⟩

def addName (o : Handover) (name : String) : Handover := { o with names := o.names ++ [name] }

def skip (o : Handover) (n : Nat) : Handover := { o with window := o.window.advance n }

/-- Takes the MACs at the given offsets for the node ids. -/
def addMacs (o : Handover) (dstofs srcofs : Nat) : Handover :=
  { o with
    dstNodeId := ⟨.link6, o.dstNodeId.addr.setEth fun j => o.window.get (dstofs + j)⟩
    srcNodeId := ⟨.link6, o.srcNodeId.addr.setEth fun j => o.window.get (srcofs + j)⟩ }

def ethII (o : Handover) (etype : Nat) : Option Handover :=
  if etype = ethertypeIp ∨ etype = ethertypeIpv6 then some o else none

/-- SNAP gives no name, and any other LLC header its own. -/
def llc (o : Handover) : Option Handover :=
  if o.window.len < 4 then none
  else if (o.window.get 0).toNat = sapSnap ∧ (o.window.get 1).toNat = sapSnap then
    (o.skip 8).ethII (o.window.u16 6)
  else if xdlcIsInformation (o.window.get 2).toNat ∧ (o.window.get 0).toNat = sapIp then
    some ((o.addName "LLC").skip 3)
  else none

def ethTypeAt (o : Handover) (sizeOffset ethsize : Nat) : Option Handover :=
  if ethsize ≤ 1500 then
    if o.window.hasBytes 0 [0x01, 0x00, 0x0C, 0x00, 0x00] ∨
        o.window.hasBytes (sizeOffset + 2) [0xff, 0xff] then none
    else (((o.addMacs 0 6).skip (sizeOffset + 2)).addName "802.3").llc
  else (((o.addMacs 0 6).skip (sizeOffset + 2)).addName "ETH_II").ethII ethsize

def ethType (o : Handover) : Option Handover :=
  if o.window.len < 20 then none
  else if o.window.u16 12 = ethertypeVlan then
    (o.addName "802.1Q").ethTypeAt 16 (o.window.u16 16)
  else o.ethTypeAt 12 (o.window.u16 12)

def fddi (o : Handover) : Option Handover :=
  if o.window.len < 21 then none
  else if o.window.hasBytes 19 [0x08, 0x00] then
    some ((((o.addName "FDDI").addName "LLC").addMacs 1 7).skip 21)
  else none

def tokenRing (o : Handover) : Option Handover :=
  if o.window.len < 22 then none
  else if o.window.hasBytes 20 [0x08, 0x00] then
    some ((((o.addName "Token Ring").addMacs 2 8).addName "LLC").skip 22)
  else none

def loop (o : Handover) (label : String) : Option Handover := some ((o.addName label).skip 4)

def linuxSll (o : Handover) : Option Handover :=
  ((o.addName "LINUX-SLL").skip 16).ethII (o.window.u16 14)

/-- Only data frames that are not encrypted and have both addresses come to LLC. -/
def wlanAddrs (o : Handover) (type subtype fromtods wep : Nat) : Option Handover :=
  if o.window.len < wlanDstofs fromtods + 6 ∨ o.window.len < wlanSrcofs fromtods + 6 ∨
      type ≠ 2 ∨ wep ≠ 0 then none
  else
    let data := (o.addMacs (wlanDstofs fromtods) (wlanSrcofs fromtods)).skip
      (if fromtods ≠ 3 then 24 else 30)
    (if subtype = 8 then data.skip 2 else data).llc

def wlan (o : Handover) : Option Handover :=
  if o.window.len < 10 then none
  else
    (o.addName "IEE802.11").wlanAddrs ((o.window.get 0).toNat / 4 % 4) ((o.window.get 0).toNat / 16)
      ((o.window.get 1).toNat % 4) ((o.window.get 1).toNat / 64 % 2)

def radiotap (o : Handover) : Option Handover :=
  if o.window.len < 32 then none else (o.skip (o.window.u16le 2)).wlan

/-- What a decoder of the link type table hands over; `label` is the name of a loopback header. -/
def call (label : String) (ppi : Handover → Option Handover) (o : Handover) :
    GetFun → Option Handover
  | .getEthType => o.ethType
  | .getIp => some o
  | .getLinuxSll => o.linuxSll
  | .getLoop => o.loop label
  | .getFddiType => o.fddi
  | .getIeee8025Type => o.tokenRing
  | .getWlan => o.wlan
  | .getRadiotap => o.radiotap
  | .getPpi => ppi o

/-- PPI headers give no names. -/
def ppi (label : String) : Nat → Handover → Option Handover
  | 0, _ => none
  | calls + 1, o =>
      if o.window.len < 64 then none
      else
        match findLinktype (o.window.u32le 4) with
        | some entry => call label (ppi label calls) (o.skip (o.window.u16le 2)) entry.val.getFun
        | none => none

end Handover

/-- The name that `get_loop` gives, which depends on the capture device only. -/
def loopLabel (env : DecodeEnv) : String :=
  if env.lkentry.val.dltLinktype = dltLoop then "LOOP" else "NULL"

/-- What is handed to `get_ip` of a captured packet, after at most `calls` calls of `get_ppi`. -/
def packetHandover (env : DecodeEnv) (calls : Nat) (bytes : Nat → UInt8) (caplen : Nat) :
    Option Handover :=
  (Handover.start bytes caplen).call (loopLabel env) (Handover.ppi (loopLabel env) calls)
    env.lkentry.val.getFun

/-! ### Decoders below IP -/

/-- An id as it is below IP: not set, or a MAC in an otherwise empty union. -/
def NodeId.OfLink (id : NodeId) : Prop :=
  id = NodeId.clear ∨ id.nodeType = .link6 ∧ ∀ i : Fin 22, 6 ≤ i.val → id.addr i = 0

/-- A name that is not one of IP. -/
def BelowIp (name : String) : Prop := name ≠ "IP" ∧ name ≠ "IPV6"

instance (name : String) : Decidable (BelowIp name) := inferInstanceAs (Decidable (_ ∧ _))

theorem NodeId.OfLink.setEth {id : NodeId} (h : id.OfLink) (src : Nat → UInt8) :
    NodeId.OfLink ⟨.link6, id.addr.setEth src⟩ := by
  refine Or.inr ⟨rfl, fun i hi => ?_⟩
  have hzero : id.addr i = 0 := by
    cases h with
    | inl hclear => rw [hclear]; rfl
    | inr hlink => exact hlink.2 i hi
  rw [← hzero]
  exact if_neg fun hin => absurd hin.2 (by omega)

/-- IP was not come to: no conversation has changed, and no name is one of IP. -/
structure Below (t : Conversations) (d : DecodeState) : Prop where
  conversations : d.conversations = t
  src : d.srcNodeId.OfLink
  dst : d.dstNodeId.OfLink
  names : ∀ entry ∈ d.added, BelowIp entry.1
  shape : StackShape d

/-- The state below IP is that of the handover. -/
structure At (t : Conversations) (o : Handover) (d : DecodeState) : Prop extends Below t d where
  window_eq : d.window = o.window
  src_eq : d.srcNodeId = o.srcNodeId
  dst_eq : d.dstNodeId = o.dstNodeId
  names_eq : d.added.map Prod.fst = o.names

/-- The decoder calls `get_ip` on what is handed over, or does not come to IP. -/
inductive Hands (env : DecodeEnv) (t : Conversations) : Option Handover → DecodeState → Prop
  | ip {o : Handover} {d : DecodeState} (h : At t o d) : Hands env t (some o) (getIp env d)
  | below {d : DecodeState} (h : Below t d) : Hands env t none d

theorem Hands.of_some {env : DecodeEnv} {t : Conversations} {o : Handover} {d : DecodeState}
    (h : Hands env t (some o) d) : ∃ d', At t o d' ∧ d = getIp env d' := by
  cases h with
  | ip h => exact ⟨_, h, rfl⟩

section Below

variable {t : Conversations} {d : DecodeState}

namespace Below

theorem touch (h : Below t d) (i n : Nat) : Below t (d.touch i n) :=
  ⟨h.conversations, h.src, h.dst, h.names, preserved_stackShape.touch h.shape⟩

theorem addOffset (h : Below t d) (n : Nat) : Below t (d.addOffset n) :=
  ⟨h.conversations, h.src, h.dst, h.names, preserved_stackShape.addOffset h.shape⟩

theorem setPphLkentry (h : Below t d) (entry : Option Linktype) : Below t (d.setPphLkentry entry) :=
  ⟨h.conversations, h.src, h.dst, h.names, preserved_stackShape.setPphLkentry h.shape⟩

theorem matchBytes (h : Below t d) (i : Nat) (bs : List UInt8) : Below t (d.matchBytes i bs).2 := by
  have hshape : StackShape (d.matchBytes i bs).2 := preserved_stackShape.names.matchBytes h.shape
  obtain ⟨reads, heq⟩ := matchBytes_snd d i bs
  rw [heq] at hshape ⊢
  exact ⟨h.conversations, h.src, h.dst, h.names, hshape⟩

theorem decodeProtoAdd (h : Below t d) {name : String} (hname : BelowIp name) :
    Below t (d.decodeProtoAdd name) := by
  refine ⟨h.conversations, h.src, h.dst, fun entry hentry => ?_, h.shape.decodeProtoAdd name⟩
  rw [decodeProtoAdd_added, List.mem_append, List.mem_singleton] at hentry
  cases hentry with
  | inl hold => exact h.names entry hold
  | inr hnew => exact hnew ▸ hname

theorem decodeProtoAddCase (h : Below t d) (label : Option String)
    (hlabel : ∀ name, label = some name → BelowIp name) : Below t (d.decodeProtoAddCase label) := by
  cases label with
  | none => exact h
  | some name => exact h.decodeProtoAdd (hlabel name rfl)

theorem setLink6NodeIds (h : Below t d) (dstofs srcofs : Nat) :
    Below t (setLink6NodeIds dstofs srcofs d) :=
  ⟨h.conversations, h.src.setEth _, h.dst.setEth _, h.names,
    preserved_stackShape.network.setLink6NodeIds h.shape⟩

theorem setDstNodeId (h : Below t d) (src : Nat → UInt8) :
    Below t (d.setDstNodeId ⟨.link6, d.dstNodeId.addr.setEth src⟩) :=
  ⟨h.conversations, h.src, h.dst.setEth _, h.names, preserved_stackShape.setDstNodeId h.shape⟩

theorem setSrcNodeId (h : Below t d) (src : Nat → UInt8) :
    Below t (d.setSrcNodeId ⟨.link6, d.srcNodeId.addr.setEth src⟩) :=
  ⟨h.conversations, h.src.setEth _, h.dst, h.names, preserved_stackShape.setSrcNodeId h.shape⟩

theorem getIpx (h : Below t d) : Below t (getIpx d) := by
  unfold EtherApe.getIpx
  dsimp only [readU16, pntohs, readByte]
  split
  · exact h
  · split
    · exact h.touch 0 2
    · have hread := ((((((h.touch 0 2).decodeProtoAdd (by decide : BelowIp "IPX")).touch 16 2).touch
        28 2).touch 5 1).touch 2 2)
      have htype := hread.decodeProtoAddCase (ipxTypeLabels.lookup
        (((((d.touch 0 2).decodeProtoAdd "IPX").touch 16 2).touch 28 2).window.get 5).toNat)
        fun name hname => (by decide : ∀ p ∈ ipxTypeLabels, BelowIp p.2) _ (mem_of_lookup hname)
      split
      · exact htype
      · exact htype.decodeProtoAddCase _ fun name hname => by
          obtain ⟨group, hgroup, rfl⟩ := Option.map_eq_some_iff.mp hname
          have hlabels : ∀ group ∈ ipxSocketLabels, BelowIp group.2 := by decide
          exact hlabels group (List.mem_of_find?_eq_some hgroup)

theorem getNetbios (h : Below t d) : Below t (getNetbios d) := by
  unfold EtherApe.getNetbios
  dsimp only [readU16]
  split
  · exact h
  · split
    · exact (h.touch 0 2).decodeProtoAdd (by decide)
    · exact h.touch 0 2

end Below

end Below

namespace At

variable {t : Conversations} {o : Handover} {d : DecodeState} {env : DecodeEnv}

theorem touch (h : At t o d) (i n : Nat) : At t o (d.touch i n) :=
  ⟨h.toBelow.touch i n, h.window_eq, h.src_eq, h.dst_eq, h.names_eq⟩

theorem setPphLkentry (h : At t o d) (entry : Option Linktype) : At t o (d.setPphLkentry entry) :=
  ⟨h.toBelow.setPphLkentry entry, h.window_eq, h.src_eq, h.dst_eq, h.names_eq⟩

theorem matchBytes (h : At t o d) (i : Nat) (bs : List UInt8) : At t o (d.matchBytes i bs).2 := by
  have hbelow := h.toBelow.matchBytes i bs
  obtain ⟨reads, heq⟩ := matchBytes_snd d i bs
  rw [heq] at hbelow ⊢
  exact ⟨hbelow, h.window_eq, h.src_eq, h.dst_eq, h.names_eq⟩

theorem skip (h : At t o d) (n : Nat) : At t (o.skip n) (d.addOffset n) := by
  refine ⟨h.toBelow.addOffset n, ?_, h.src_eq, h.dst_eq, h.names_eq⟩
  rw [addOffset_window, h.window_eq, Handover.skip]

theorem addName (h : At t o d) {name : String} (hname : BelowIp name) :
    At t (o.addName name) (d.decodeProtoAdd name) := by
  refine ⟨h.toBelow.decodeProtoAdd hname, h.window_eq, h.src_eq, h.dst_eq, ?_⟩
  rw [decodeProtoAdd_added, List.map_append, h.names_eq]
  rfl

theorem addMacs (h : At t o d) (dstofs srcofs : Nat) :
    At t (o.addMacs dstofs srcofs) (setLink6NodeIds dstofs srcofs d) := by
  refine ⟨h.toBelow.setLink6NodeIds dstofs srcofs, h.window_eq, ?_, ?_, h.names_eq⟩
  · rw [Handover.addMacs, ← h.window_eq, ← h.src_eq]
    rfl
  · rw [Handover.addMacs, ← h.window_eq, ← h.dst_eq]
    rfl

/-! ### The decoders of the link layer -/

theorem getEthII (h : At t o d) (etype : Nat) :
    Hands env t (o.ethII etype) (getEthII env etype d) := by
  have hlabels : ∀ p ∈ etypeLabels, p.1 = ethertypeIp ∨ p.1 = ethertypeIpv6 ∨ BelowIp p.2 := by
    decide
  unfold EtherApe.getEthII Handover.ethII
  split
  · exact .ip h
  next hip =>
    split
    · exact .below h.toBelow.getIpx
    · refine .below (h.toBelow.decodeProtoAddCase _ fun name hname => ?_)
      obtain ⟨hv4, hv6⟩ := not_or.mp hip
      exact ((hlabels _ (mem_of_lookup hname)).resolve_left hv4).resolve_left hv6

theorem getLlc (h : At t o d) : Hands env t o.llc (getLlc env d) := by
  have hsaps : At t o ((d.touch 0 1).touch 1 1) := (h.touch 0 1).touch 1 1
  have hcontrol : At t (o.addName "LLC") ((((d.touch 0 1).touch 1 1).decodeProtoAdd "LLC").touch 2 1) :=
    (hsaps.addName (by decide)).touch 2 1
  unfold EtherApe.getLlc Handover.llc
  simp only [readByte, pntohs, touch_window, decodeProtoAdd_window, ← h.window_eq]
  split
  · exact .below h.toBelow
  · split
    · exact ((hsaps.touch 6 2).skip 8).getEthII _
    · unfold getLlcSap
      by_cases hinfo : xdlcIsInformation (d.window.get 2).toNat
      · rw [if_neg (not_not_intro hinfo)]
        by_cases hip : (d.window.get 0).toNat = sapIp
        · rw [if_pos hip, if_pos ⟨hinfo, hip⟩]
          exact .ip (hcontrol.skip 3)
        · rw [if_neg hip, if_neg fun hboth => hip hboth.2]
          refine .below ?_
          have hrest := (hcontrol.skip 3).toBelow
          split
          · exact hrest.getIpx
          · split
            · exact (hrest.decodeProtoAdd (by decide)).getNetbios
            · refine hrest.decodeProtoAddCase _ fun name hname => ?_
              exact (by decide : ∀ p ∈ sapLabels, BelowIp p.2) _ (mem_of_lookup hname)
      · rw [if_pos hinfo, if_neg fun hboth => hinfo hboth.1]
        exact .below hcontrol.toBelow

theorem getEthTypeAt (h : At t o d) (sizeOffset ethsize : Nat) :
    Hands env t (o.ethTypeAt sizeOffset ethsize) (getEthTypeAt env sizeOffset ethsize d) := by
  unfold EtherApe.getEthTypeAt Handover.ethTypeAt
  dsimp only
  split
  · have hmatch := (h.matchBytes (sizeOffset + 2) [0xff, 0xff]).matchBytes 0
      [0x01, 0x00, 0x0C, 0x00, 0x00]
    have hmacs := (hmatch.addMacs 0 6).skip (sizeOffset + 2)
    rw [matchBytes_fst, matchBytes_fst, matchBytes_window, ← h.window_eq]
    by_cases hisl : d.window.hasBytes 0 [0x01, 0x00, 0x0C, 0x00, 0x00] = true
    · rw [if_pos hisl, if_pos (Or.inl hisl)]
      exact .below (hmatch.toBelow.decodeProtoAdd (by decide))
    · rw [if_neg hisl]
      by_cases hraw : d.window.hasBytes (sizeOffset + 2) [0xff, 0xff] = true
      · rw [if_pos hraw, if_pos (Or.inr hraw)]
        exact .below (hmacs.toBelow.decodeProtoAdd (by decide))
      · rw [if_neg hraw, if_neg fun heither => heither.elim hisl hraw]
        exact (hmacs.addName (by decide)).getLlc
  · exact (((h.addMacs 0 6).skip (sizeOffset + 2)).addName (by decide)).getEthII ethsize

theorem getEthType (h : At t o d) : Hands env t o.ethType (getEthType env d) := by
  unfold EtherApe.getEthType Handover.ethType
  dsimp only [pntohs, touch_window, decodeProtoAdd_window]
  rw [← h.window_eq]
  split
  · exact .below h.toBelow
  · split
    · have htag := (h.touch 12 2).addName (by decide : BelowIp "802.1Q")
      split
      · exact ((htag.touch 14 2).touch 16 2).getEthTypeAt 16 _
      · exact (htag.touch 16 2).getEthTypeAt 16 _
    · exact (h.touch 12 2).getEthTypeAt 12 _

theorem getFddiType (h : At t o d) : Hands env t o.fddi (getFddiType env d) := by
  have hname := h.addName (by decide : BelowIp "FDDI")
  have hmacs := (hname.addName (by decide : BelowIp "LLC")).addMacs 1 7
  have hmatch := hmacs.matchBytes 19 [0x08, 0x00]
  unfold EtherApe.getFddiType Handover.fddi
  simp only [matchBytes_fst, setLink6NodeIds_window, decodeProtoAdd_window, ← h.window_eq]
  by_cases hshort : d.window.len < 14
  · rw [if_pos hshort, if_pos (hshort.trans (by decide))]
    exact .below hname.toBelow
  · rw [if_neg hshort]
    split
    · exact .below hmacs.toBelow
    · split
      · exact .ip (hmatch.skip 21)
      · exact .below hmatch.toBelow

theorem getIeee8025Type (h : At t o d) : Hands env t o.tokenRing (getIeee8025Type env d) := by
  have hname := h.addName (by decide : BelowIp "Token Ring")
  have hmacs := hname.addMacs 2 8
  have hmatch := (hmacs.addName (by decide : BelowIp "LLC")).matchBytes 20 [0x08, 0x00]
  unfold EtherApe.getIeee8025Type Handover.tokenRing
  simp only [matchBytes_fst, setLink6NodeIds_window, decodeProtoAdd_window, ← h.window_eq]
  by_cases hshort : d.window.len < 15
  · rw [if_pos hshort, if_pos (hshort.trans (by decide))]
    exact .below hname.toBelow
  · rw [if_neg hshort]
    split
    · exact .below hmacs.toBelow
    · split
      · exact .ip (hmatch.skip 22)
      · exact .below hmatch.toBelow

theorem getLoop (h : At t o d) : Hands env t (o.loop (loopLabel env)) (getLoop env d) := by
  have hname : BelowIp (loopLabel env) := by
    unfold loopLabel
    split
    · decide
    · decide
  exact .ip ((h.addName hname).skip 4)

theorem getLinuxSll (h : At t o d) : Hands env t o.linuxSll (getLinuxSll env d) := by
  rw [Handover.linuxSll, ← h.window_eq]
  exact (((h.addName (by decide)).touch 14 2).skip 16).getEthII _

theorem getWlanFrame (h : At t o d) (env : DecodeEnv) (type subtype wep : Nat) :
    Hands env t (if type = 2 ∧ wep = 0 then (if subtype = 8 then o.skip 2 else o).llc else none)
      (getWlanFrame env type subtype wep d) := by
  unfold EtherApe.getWlanFrame
  by_cases hdata : type = 2
  · rw [if_pos hdata]
    by_cases hwep : wep = 0
    · rw [if_pos hwep, if_pos ⟨hdata, hwep⟩]
      split
      · exact (h.skip 2).getLlc
      · exact h.getLlc
    · rw [if_neg hwep, if_neg fun hboth => hwep hboth.2]
      exact .below (h.toBelow.decodeProtoAdd (by decide))
  · rw [if_neg hdata, if_neg fun hboth => hdata hboth.1]
    split
    · refine .below (h.toBelow.decodeProtoAdd ?_)
      cases hlookup : wlanMgmtLabels.lookup subtype with
      | none => exact (by decide : BelowIp "WLAN-MGMT-UNKN")
      | some name =>
          exact (by decide : ∀ p ∈ wlanMgmtLabels, BelowIp p.2) _ (mem_of_lookup hlookup)
    · exact .below h.toBelow

theorem getWlanAddrs (h : At t o d) (type subtype fromtods wep : Nat) :
    Hands env t (o.wlanAddrs type subtype fromtods wep)
      (getWlanAddrs env type subtype fromtods wep d) := by
  have hctrl : BelowIp ((wlanCtrlLabels.lookup subtype).getD "WLAN-CTRL-UNKN") := by
    cases hlookup : wlanCtrlLabels.lookup subtype with
    | none => exact (by decide : BelowIp "WLAN-CTRL-UNKN")
    | some name =>
        exact (by decide : ∀ p ∈ wlanCtrlLabels, BelowIp p.2) _ (mem_of_lookup hlookup)
  have hdst := (h.toBelow.touch (wlanDstofs fromtods) 6).setDstNodeId
    fun j => d.window.get (wlanDstofs fromtods + j)
  unfold EtherApe.getWlanAddrs Handover.wlanAddrs getWlanCtrl
  simp only [readBytes, touch_window, setDstNodeId_window, ← h.window_eq]
  by_cases hdstShort : d.window.len < wlanDstofs fromtods + 6
  · rw [if_pos hdstShort, if_pos (Or.inl hdstShort)]
    exact .below h.toBelow
  · rw [if_neg hdstShort]
    by_cases hcontrol : type = 1
    · rw [if_pos hcontrol, if_pos (Or.inr (Or.inr (Or.inl (by omega))))]
      refine .below ?_
      split
      · split
        · exact hdst
        · exact ((((hdst.touch _ 6).setSrcNodeId _).addOffset 16).decodeProtoAdd hctrl)
      · exact (hdst.addOffset 10).decodeProtoAdd hctrl
    · rw [if_neg hcontrol]
      by_cases hsrcShort : d.window.len < wlanSrcofs fromtods + 6
      · rw [if_pos hsrcShort, if_pos (Or.inr (Or.inl hsrcShort))]
        exact .below hdst
      · rw [if_neg hsrcShort]
        have hframe := ((h.addMacs (wlanDstofs fromtods) (wlanSrcofs fromtods)).skip
          (if fromtods ≠ 3 then 24 else 30)).getWlanFrame env type subtype wep
        by_cases hdata : type = 2 ∧ wep = 0
        · rw [if_pos hdata] at hframe
          rw [if_neg (by tauto)]
          exact hframe
        · rw [if_neg hdata] at hframe
          rw [if_pos (by tauto)]
          exact hframe

theorem getWlan (h : At t o d) : Hands env t o.wlan (getWlan env d) := by
  have hname := h.addName (by decide : BelowIp "IEE802.11")
  unfold EtherApe.getWlan Handover.wlan
  simp only [readByte, touch_window, decodeProtoAdd_window, ← h.window_eq]
  split
  · exact .below hname.toBelow
  · exact ((((hname.touch 0 1).touch 0 1).touch 1 1).touch 1 1).getWlanAddrs _ _ _ _

theorem getRadiotap (h : At t o d) : Hands env t o.radiotap (getRadiotap env d) := by
  unfold EtherApe.getRadiotap Handover.radiotap
  simp only [readU16, ← h.window_eq]
  split
  · exact .below (h.toBelow.decodeProtoAdd (by decide))
  · exact ((h.touch 2 2).skip _).getWlan

/-! ### Dispatch -/

theorem call (h : At t o d) (f : GetFun) {ppi : DecodeState → Outcome}
    {ppi' : Handover → Option Handover}
    (hppi : ∀ o d, At t o d → ∀ d', ppi d = .finished d' → Hands env t (ppi' o) d')
    {d' : DecodeState} (hcall : f.call env ppi d = .finished d') :
    Hands env t (o.call (loopLabel env) ppi' f) d' := by
  cases f with
  | getPpi => exact hppi o d h d' hcall
  | getEthType =>
      cases hcall
      exact h.getEthType
  | getIp =>
      cases hcall
      exact .ip h
  | getLinuxSll =>
      cases hcall
      exact h.getLinuxSll
  | getLoop =>
      cases hcall
      exact h.getLoop
  | getFddiType =>
      cases hcall
      exact h.getFddiType
  | getIeee8025Type =>
      cases hcall
      exact h.getIeee8025Type
  | getWlan =>
      cases hcall
      exact h.getWlan
  | getRadiotap =>
      cases hcall
      exact h.getRadiotap

theorem getPpi (h : At t o d) {calls : Nat} {d' : DecodeState}
    (hppi : getPpi env calls d = .finished d') :
    Hands env t (o.ppi (loopLabel env) calls) d' := by
  induction calls generalizing o d d' with
  | zero => exact Outcome.noConfusion hppi
  | succ calls ih =>
      rw [getPpi_succ] at hppi
      unfold Handover.ppi
      rw [← h.window_eq]
      split at hppi
      next hshort =>
        cases hppi
        rw [if_pos hshort]
        exact .below (h.toBelow.decodeProtoAdd (by decide))
      next hlen =>
        rw [if_neg hlen]
        have hpayload : ∀ entry, At t (o.skip (d.window.u16le 2)) (ppiPayload d entry) :=
          fun entry => (((h.touch 2 2).touch 4 4).skip _).setPphLkentry entry
        cases hfind : findLinktype (d.window.u32le 4) with
        | some entry =>
            simp only [hfind] at hppi
            exact (hpayload _).call _ (fun _ _ hd _ => ih hd) hppi
        | none =>
            simp only [hfind] at hppi
            cases hppi
            exact .below (hpayload none).toBelow

end At

theorem at_start (bytes : Nat → UInt8) (caplen : Nat) (t : Conversations)
    (pphLkentry : Option Linktype) :
    At t (Handover.start bytes caplen) (decodeProtoStart bytes caplen t pphLkentry) :=
  ⟨⟨rfl, Or.inl rfl, Or.inl rfl, by simp [decodeProtoStart],
    stackShape_start bytes caplen t pphLkentry⟩, rfl, rfl, rfl, rfl⟩

/-- A decoded packet went through `get_ip` on what is handed over, or did not come to IP. -/
theorem getPacketProt_hands {env : DecodeEnv} {calls : Nat} {bytes : Nat → UInt8} {caplen : Nat}
    {t : Conversations} {pphLkentry : Option Linktype} {d : DecodeState}
    (h : getPacketProt env calls (decodeProtoStart bytes caplen t pphLkentry) = .finished d) :
    ∃ d', d = copyTopmost d' ∧ Hands env t (packetHandover env calls bytes caplen) d' := by
  unfold getPacketProt at h
  cases hcall : env.lkentry.val.getFun.call env (getPpi env calls)
      (decodeProtoStart bytes caplen t pphLkentry) with
  | unfinished d' =>
      rw [hcall] at h
      cases h
  | finished d' =>
      rw [hcall] at h
      cases h
      exact ⟨d', rfl, (at_start bytes caplen t pphLkentry).call _
        (fun _ _ hd _ => hd.getPpi) hcall⟩

end EtherApe
