import EtherApe.DecodeProto.Ppi
import EtherApe.DecodeProto.Preserved

/-!
# Types of the node ids

The link layer gives both node ids of a packet one type, the network layer raises it if the mode asks
for addresses, and the transport layer raises it again if the mode asks for ports. A WLAN header may
supply a destination alone.
-/

namespace EtherApe

open DecodeState

/-- The mode that `init_capture` leaves before any packet is received: without a choice of the user
it is `IP`. -/
def initCaptureMode : ApeMode → ApeMode
  | .apemodeDefault => .ip
  | mode => mode

/-- The decoder has entered `get_tcp` or `get_udp`, each of which begins by adding its name. -/
def DecodeState.EnteredTransport (d : DecodeState) : Prop :=
  ∃ entry ∈ d.added, entry.1 = "TCP" ∨ entry.1 = "UDP"

/-- The WLAN header at a window has a destination address and supplies no source: it is a control
frame other than RTS, or the capture ends before the source. -/
def WlanDestinationOnly (w : Window) : Prop :=
  let fromtods := (w.get 1).toNat % 4
  10 ≤ w.len ∧ wlanDstofs fromtods + 6 ≤ w.len ∧
    (((w.get 0).toNat / 4 % 4 = 1 ∧ (w.get 0).toNat / 16 ≠ 11) ∨ w.len < wlanSrcofs fromtods + 6)

/-! ### Below the transport layer -/

/-- A name that no transport decoder begins with. -/
def NetworkName (name : String) : Prop := name ≠ "TCP" ∧ name ≠ "UDP"

instance (name : String) : Decidable (NetworkName name) := inferInstanceAs (Decidable (_ ∧ _))

/-- No transport decoder was entered, no assertion failed, and both ids have type `t`. -/
structure Typed (t : ApeMode) (d : DecodeState) : Prop where
  src : d.srcNodeId.nodeType = t
  dst : d.dstNodeId.nodeType = t
  crashed : d.crashed = false
  below : ¬d.EnteredTransport

theorem not_enteredTransport_decodeProtoAdd {d : DecodeState} {name : String}
    (hname : NetworkName name) (h : ¬d.EnteredTransport) :
    ¬(d.decodeProtoAdd name).EnteredTransport := by
  rintro ⟨entry, hentry, htransport⟩
  rw [decodeProtoAdd_added, List.mem_append, List.mem_singleton] at hentry
  cases hentry with
  | inl hold => exact h ⟨entry, hold, htransport⟩
  | inr hnew =>
      rw [hnew] at htransport
      exact htransport.elim hname.1 hname.2

theorem lookup_networkName {labels : List (Nat × String)} (h : ∀ p ∈ labels, NetworkName p.2)
    {key : Nat} {name : String} (hname : labels.lookup key = some name) : NetworkName name :=
  h _ (mem_of_lookup hname)

theorem networkName_ipProtoLabel (ipType : Nat) : NetworkName (ipProtoLabel ipType) := by
  unfold ipProtoLabel
  cases hlookup : ipProtoLabels.lookup ipType with
  | none => exact (by decide : NetworkName "IP_UNKNOWN")
  | some name => exact lookup_networkName (by decide) hlookup

theorem networkName_ipxSocketLabel {dsocket ssocket : Nat} {name : String}
    (h : ipxSocketLabel dsocket ssocket = some name) : NetworkName name := by
  obtain ⟨group, hgroup, rfl⟩ := Option.map_eq_some_iff.mp h
  have hlabels : ∀ group ∈ ipxSocketLabels, NetworkName group.2 := by decide
  exact hlabels group (List.mem_of_find?_eq_some hgroup)

namespace Typed

variable {t : ApeMode} {d : DecodeState}

theorem touch (h : Typed t d) (i n : Nat) : Typed t (d.touch i n) :=
  ⟨h.src, h.dst, h.crashed, h.below⟩

theorem addOffset (h : Typed t d) (n : Nat) : Typed t (d.addOffset n) :=
  ⟨h.src, h.dst, h.crashed, h.below⟩

theorem setPphLkentry (h : Typed t d) (entry : Option Linktype) : Typed t (d.setPphLkentry entry) :=
  ⟨h.src, h.dst, h.crashed, h.below⟩

theorem setGlobalAddresses (h : Typed t d) (src dst : Address) :
    Typed t (d.setGlobalAddresses src dst) :=
  ⟨h.src, h.dst, h.crashed, h.below⟩

theorem decodeProtoAdd (h : Typed t d) {name : String} (hname : NetworkName name) :
    Typed t (d.decodeProtoAdd name) :=
  ⟨h.src, h.dst, h.crashed, not_enteredTransport_decodeProtoAdd hname h.below⟩

theorem decodeProtoAddCase (h : Typed t d) {label : Option String}
    (hlabel : ∀ name, label = some name → NetworkName name) : Typed t (d.decodeProtoAddCase label) := by
  cases label with
  | none => exact h
  | some name => exact h.decodeProtoAdd (hlabel name rfl)

theorem matchBytes (h : Typed t d) (i : Nat) (bs : List UInt8) : Typed t (d.matchBytes i bs).2 := by
  obtain ⟨reads, heq⟩ := matchBytes_snd d i bs
  rw [heq]
  exact ⟨h.src, h.dst, h.crashed, h.below⟩

theorem setLink6NodeIds (h : Typed t d) (dstofs srcofs : Nat) :
    Typed .link6 (setLink6NodeIds dstofs srcofs d) :=
  ⟨rfl, rfl, h.crashed, h.below⟩

end Typed

/-! ### In the transport layer -/

/-- A transport decoder was entered, no assertion failed, and both ids have type `t`. -/
structure Transported (t : ApeMode) (d : DecodeState) : Prop where
  src : d.srcNodeId.nodeType = t
  dst : d.dstNodeId.nodeType = t
  crashed : d.crashed = false
  entered : d.EnteredTransport

theorem payloadPreserved_transported (t : ApeMode) : PayloadPreserved (Transported t) where
  decodeProtoAdd h := by
    obtain ⟨entry, hentry, htransport⟩ := h.entered
    refine ⟨h.src, h.dst, h.crashed, entry, ?_, htransport⟩
    rw [decodeProtoAdd_added]
    exact List.mem_append_left _ hentry
  setConversations h := ⟨h.src, h.dst, h.crashed, h.entered⟩
  touch h := ⟨h.src, h.dst, h.crashed, h.entered⟩

section Transport

variable {env : DecodeEnv} {t : ApeMode} {d : DecodeState}

theorem enteredTransport_decodeProtoAdd {name : String} (hname : name = "TCP" ∨ name = "UDP") :
    (d.decodeProtoAdd name).EnteredTransport := by
  refine ⟨(name, d.window), ?_, hname⟩
  rw [decodeProtoAdd_added]
  exact List.mem_append_right _ (List.mem_singleton_self _)

theorem Typed.enter (h : Typed t d) {name : String} (hname : name = "TCP" ∨ name = "UDP") :
    Transported t (d.decodeProtoAdd name) :=
  ⟨h.src, h.dst, h.crashed, enteredTransport_decodeProtoAdd hname⟩

theorem Transported.setTcpNodeIds (h : Transported t d) (hip : env.mode = .tcp → t = .ip) :
    Transported (if env.mode = .tcp then .tcp else t) (setTcpNodeIds env d) := by
  unfold EtherApe.setTcpNodeIds
  by_cases hmode : env.mode = .tcp
  · rw [if_pos hmode, if_pos hmode]
    refine ⟨rfl, rfl, ?_, h.entered⟩
    have hsrc : d.srcNodeId.nodeType = .ip := h.src.trans (hip hmode)
    have hdst : d.dstNodeId.nodeType = .ip := h.dst.trans (hip hmode)
    simp [gAssert, setDstNodeId, setSrcNodeId, h.crashed, hsrc, hdst]
  · rw [if_neg hmode, if_neg hmode]
    exact h

theorem Typed.getTcp (h : Typed t d) (hip : env.mode = .tcp → t = .ip) :
    Transported (if env.mode = .tcp then .tcp else t) (getTcp env d) := by
  have hentered : Transported t (((((d.decodeProtoAdd "TCP").touch 0 2).touch 2 2)).setGlobalPorts
      (d.window.u16 0) (d.window.u16 2)) :=
    let hadd := h.enter (Or.inl rfl)
    ⟨hadd.src, hadd.dst, hadd.crashed, hadd.entered⟩
  have hids := hentered.setTcpNodeIds hip
  apply (payloadPreserved_transported _).getTcpPayload
  exact ⟨hids.src, hids.dst, hids.crashed, hids.entered⟩

theorem Typed.getUdp (h : Typed t d) (hip : env.mode = .tcp → t = .ip) :
    Transported (if env.mode = .tcp then .tcp else t) (getUdp env d) := by
  have hentered : Transported t (((((d.decodeProtoAdd "UDP").touch 0 2).touch 2 2)).setGlobalPorts
      (d.window.u16 0) (d.window.u16 2)) :=
    let hadd := h.enter (Or.inr rfl)
    ⟨hadd.src, hadd.dst, hadd.crashed, hadd.entered⟩
  have hids := hentered.setTcpNodeIds hip
  apply (payloadPreserved_transported _).getUdpPayload
  exact ⟨hids.src, hids.dst, hids.crashed, hids.entered⟩

end Transport

/-! ### Decoded packets -/

/-- The types that decoding a packet may leave in a mode. -/
inductive TypesSettled (mode : ApeMode) (d : DecodeState) : Prop
  | network (t : ApeMode) (htcp : t ≠ .tcp) (hle : t.value ≤ (initCaptureMode mode).value)
      (h : Typed t d)
  | transport (t : ApeMode) (htcp : t = .tcp ↔ mode = .tcp)
      (hle : t.value ≤ (initCaptureMode mode).value) (h : Transported t d)
  | destination (hsrc : d.srcNodeId.nodeType = .apemodeDefault) (hdst : d.dstNodeId.nodeType = .link6)
      (hcrashed : d.crashed = false) (hbelow : ¬d.EnteredTransport) (w : Window)
      (hwlan : ("IEE802.11", w) ∈ d.added) (honly : WlanDestinationOnly w)

theorem zero_le_initCaptureMode (mode : ApeMode) : 0 ≤ (initCaptureMode mode).value := by
  cases mode <;> decide

theorem one_le_initCaptureMode {mode : ApeMode} (h : mode ≠ .link6) :
    1 ≤ (initCaptureMode mode).value := by
  cases mode with
  | link6 => exact absurd rfl h
  | apemodeDefault => decide
  | ip => decide
  | tcp => decide

/-- A type that the link layer leaves. -/
def LinkType (t : ApeMode) : Prop := t = .apemodeDefault ∨ t = .link6

theorem LinkType.le {t : ApeMode} (ht : LinkType t) (mode : ApeMode) :
    t.value ≤ (initCaptureMode mode).value := by
  have hmode := zero_le_initCaptureMode mode
  cases ht with
  | inl h =>
      rw [h]
      exact le_trans (by decide) hmode
  | inr h =>
      rw [h]
      exact hmode

theorem LinkType.ne_tcp {t : ApeMode} (ht : LinkType t) : t ≠ .tcp := by
  cases ht with
  | inl h => simp [h]
  | inr h => simp [h]

section Settled

variable {env : DecodeEnv} {t : ApeMode} {d : DecodeState}

theorem Typed.settled (h : Typed t d) (ht : LinkType t) : TypesSettled env.mode d :=
  .network t ht.ne_tcp (ht.le env.mode) h

theorem Typed.getIpProto (h : Typed t d) (htcp : t ≠ .tcp)
    (hle : t.value ≤ (initCaptureMode env.mode).value) (hip : env.mode = .tcp → t = .ip)
    (ipType fragmentOffset : Nat) : TypesSettled env.mode (getIpProto env ipType fragmentOffset d) := by
  have haddrs := h.setGlobalAddresses d.srcNodeId.addr.ip d.dstNodeId.addr.ip
  have hraised : ((if env.mode = .tcp then .tcp else t) = ApeMode.tcp ↔ env.mode = .tcp) ∧
      (if env.mode = .tcp then .tcp else t).value ≤ (initCaptureMode env.mode).value := by
    by_cases hmode : env.mode = .tcp
    · rw [if_pos hmode, hmode]
      decide
    · rw [if_neg hmode]
      exact ⟨iff_of_false htcp hmode, hle⟩
  unfold EtherApe.getIpProto
  dsimp only
  split
  · split
    · exact .network t htcp hle (haddrs.decodeProtoAdd (by decide))
    · exact .transport _ hraised.1 hraised.2 (haddrs.getTcp hip)
  · split
    · split
      · exact .network t htcp hle (haddrs.decodeProtoAdd (by decide))
      · exact .transport _ hraised.1 hraised.2 (haddrs.getUdp hip)
    · exact .network t htcp hle (haddrs.decodeProtoAdd (networkName_ipProtoLabel ipType))

theorem Typed.getIpProto_ip (h : Typed .ip d) (hmode : env.mode ≠ .link6)
    (ipType fragmentOffset : Nat) :
    TypesSettled env.mode (EtherApe.getIpProto env ipType fragmentOffset d) :=
  h.getIpProto (by decide) (one_le_initCaptureMode hmode) (fun _ => rfl) ipType fragmentOffset

theorem Typed.getIpProto_link (h : Typed t d) (ht : LinkType t) (hmode : env.mode = .link6)
    (ipType fragmentOffset : Nat) :
    TypesSettled env.mode (EtherApe.getIpProto env ipType fragmentOffset d) := by
  refine h.getIpProto ht.ne_tcp (ht.le env.mode) ?_ ipType fragmentOffset
  intro htcp
  rw [hmode] at htcp
  exact absurd htcp (by decide)

theorem Typed.getIpv4 (h : Typed t d) (ht : LinkType t) (ipHl : Nat) :
    TypesSettled env.mode (getIpv4 env ipHl d) := by
  have hheader : Typed t (((d.decodeProtoAdd "IP").touch 9 1).touch 6 2) :=
    ((h.decodeProtoAdd (by decide)).touch 9 1).touch 6 2
  unfold EtherApe.getIpv4
  dsimp only [readByte, pntohs, readBytes]
  split
  next hmode =>
    apply Typed.getIpProto_ip _ hmode
    apply Typed.addOffset
    exact ⟨rfl, rfl, hheader.crashed, hheader.below⟩
  next hmode => exact (hheader.addOffset ipHl).getIpProto_link ht (not_not.mp hmode) _ _

theorem Typed.getIpv6 (h : Typed t d) (ht : LinkType t) : TypesSettled env.mode (getIpv6 env d) := by
  have hheader : Typed t ((d.decodeProtoAdd "IPV6").touch 6 1) :=
    (h.decodeProtoAdd (by decide)).touch 6 1
  unfold EtherApe.getIpv6
  dsimp only [readByte, readBytes]
  split
  next hmode =>
    apply Typed.getIpProto_ip _ hmode
    apply Typed.addOffset
    exact ⟨rfl, rfl, hheader.crashed, hheader.below⟩
  next hmode => exact (hheader.addOffset 40).getIpProto_link ht (not_not.mp hmode) _ _

theorem Typed.getIp (h : Typed t d) (ht : LinkType t) : TypesSettled env.mode (getIp env d) := by
  unfold EtherApe.getIp
  dsimp only [readByte]
  split
  · exact h.settled ht
  · split
    · split
      · exact ((h.touch 0 1).touch 0 1).settled ht
      · exact ((h.touch 0 1).touch 0 1).getIpv4 ht _
    · split
      · split
        · exact (h.touch 0 1).settled ht
        · exact (h.touch 0 1).getIpv6 ht
      · exact (h.touch 0 1).settled ht

theorem Typed.getIpx (h : Typed t d) : Typed t (getIpx d) := by
  unfold EtherApe.getIpx
  dsimp only [readU16, pntohs, readByte]
  split
  · exact h
  · split
    · exact h.touch 0 2
    · have hread : Typed t ((((((d.touch 0 2).decodeProtoAdd "IPX").touch 16 2).touch 28 2).touch
          5 1).touch 2 2) :=
        (((((h.touch 0 2).decodeProtoAdd (by decide)).touch 16 2).touch 28 2).touch 5 1).touch 2 2
      have htypes : ∀ key name, ipxTypeLabels.lookup key = some name → NetworkName name :=
        fun _ _ => lookup_networkName (by decide)
      split
      · exact hread.decodeProtoAddCase (htypes _)
      · exact (hread.decodeProtoAddCase (htypes _)).decodeProtoAddCase fun name =>
          networkName_ipxSocketLabel

theorem Typed.getNetbios (h : Typed t d) : Typed t (getNetbios d) := by
  unfold EtherApe.getNetbios
  dsimp only [readU16]
  split
  · exact h
  · split
    · exact (h.touch 0 2).decodeProtoAdd (by decide)
    · exact h.touch 0 2

theorem Typed.getEthII (h : Typed t d) (ht : LinkType t) (etype : Nat) :
    TypesSettled env.mode (getEthII env etype d) := by
  unfold EtherApe.getEthII
  split
  · exact h.getIp ht
  · split
    · exact h.getIpx.settled ht
    · refine (h.decodeProtoAddCase fun name => ?_).settled ht
      exact lookup_networkName (by decide : ∀ p ∈ etypeLabels, NetworkName p.2)

theorem Typed.getLlc (h : Typed t d) (ht : LinkType t) : TypesSettled env.mode (getLlc env d) := by
  unfold EtherApe.getLlc
  dsimp only [readByte, pntohs]
  split
  · exact h.settled ht
  · have hsaps : Typed t ((d.touch 0 1).touch 1 1) := (h.touch 0 1).touch 1 1
    split
    · exact ((hsaps.touch 6 2).addOffset 8).getEthII ht _
    · have hcontrol : Typed t ((((d.touch 0 1).touch 1 1).decodeProtoAdd "LLC").touch 2 1) :=
        (hsaps.decodeProtoAdd (by decide)).touch 2 1
      split
      · exact hcontrol.settled ht
      · unfold getLlcSap
        split
        · exact (hcontrol.addOffset 3).getIp ht
        · split
          · exact (hcontrol.addOffset 3).getIpx.settled ht
          · split
            · exact ((hcontrol.addOffset 3).decodeProtoAdd (by decide)).getNetbios.settled ht
            · refine ((hcontrol.addOffset 3).decodeProtoAddCase fun name => ?_).settled ht
              exact lookup_networkName (by decide : ∀ p ∈ sapLabels, NetworkName p.2)

theorem Typed.getEthTypeAt (h : Typed t d) (ht : LinkType t) (sizeOffset ethsize : Nat) :
    TypesSettled env.mode (getEthTypeAt env sizeOffset ethsize d) := by
  unfold EtherApe.getEthTypeAt
  dsimp only
  split
  · have hmatch := (h.matchBytes (sizeOffset + 2) [0xff, 0xff]).matchBytes 0
      [0x01, 0x00, 0x0C, 0x00, 0x00]
    split
    · exact (hmatch.decodeProtoAdd (by decide)).settled ht
    · have hmacs := (hmatch.setLink6NodeIds 0 6).addOffset (sizeOffset + 2)
      split
      · exact (hmacs.decodeProtoAdd (by decide)).settled (Or.inr rfl)
      · exact (hmacs.decodeProtoAdd (by decide)).getLlc (Or.inr rfl)
  · have hmacs := (h.setLink6NodeIds 0 6).addOffset (sizeOffset + 2)
    exact (hmacs.decodeProtoAdd (by decide)).getEthII (Or.inr rfl) ethsize

theorem Typed.getEthType (h : Typed t d) (ht : LinkType t) :
    TypesSettled env.mode (getEthType env d) := by
  unfold EtherApe.getEthType
  dsimp only [pntohs]
  split
  · exact h.settled ht
  · split
    · have htag : Typed t ((d.touch 12 2).decodeProtoAdd "802.1Q") :=
        (h.touch 12 2).decodeProtoAdd (by decide)
      split
      · exact ((htag.touch 14 2).touch 16 2).getEthTypeAt ht 16 _
      · exact (htag.touch 16 2).getEthTypeAt ht 16 _
    · exact (h.touch 12 2).getEthTypeAt ht 12 _

theorem Typed.getFddiType (h : Typed t d) (ht : LinkType t) :
    TypesSettled env.mode (getFddiType env d) := by
  have hname := h.decodeProtoAdd (by decide : NetworkName "FDDI")
  unfold EtherApe.getFddiType
  dsimp only
  split
  · exact hname.settled ht
  · have hmacs := (hname.decodeProtoAdd (by decide : NetworkName "LLC")).setLink6NodeIds 1 7
    split
    · exact hmacs.settled (Or.inr rfl)
    · have hmatch := hmacs.matchBytes 19 [0x08, 0x00]
      split
      · exact (hmatch.addOffset 21).getIp (Or.inr rfl)
      · exact hmatch.settled (Or.inr rfl)

theorem Typed.getIeee8025Type (h : Typed t d) (ht : LinkType t) :
    TypesSettled env.mode (getIeee8025Type env d) := by
  have hname := h.decodeProtoAdd (by decide : NetworkName "Token Ring")
  unfold EtherApe.getIeee8025Type
  dsimp only
  split
  · exact hname.settled ht
  · have hmacs := hname.setLink6NodeIds 2 8
    split
    · exact hmacs.settled (Or.inr rfl)
    · have hmatch := (hmacs.decodeProtoAdd (by decide : NetworkName "LLC")).matchBytes 20
        [0x08, 0x00]
      split
      · exact (hmatch.addOffset 22).getIp (Or.inr rfl)
      · exact hmatch.settled (Or.inr rfl)

theorem Typed.getLoop (h : Typed t d) (ht : LinkType t) : TypesSettled env.mode (getLoop env d) := by
  have hname : NetworkName (if env.lkentry.val.dltLinktype = dltLoop then "LOOP" else "NULL") := by
    split
    · decide
    · decide
  exact ((h.decodeProtoAdd hname).addOffset 4).getIp ht

theorem Typed.getLinuxSll (h : Typed t d) (ht : LinkType t) :
    TypesSettled env.mode (getLinuxSll env d) :=
  (((h.decodeProtoAdd (by decide)).touch 14 2).addOffset 16).getEthII ht _

theorem Typed.getWlanFrame (h : Typed .link6 d) (type subtype wep : Nat) :
    TypesSettled env.mode (getWlanFrame env type subtype wep d) := by
  have hmgmt : NetworkName ((wlanMgmtLabels.lookup subtype).getD "WLAN-MGMT-UNKN") := by
    cases hlookup : wlanMgmtLabels.lookup subtype with
    | none => exact (by decide : NetworkName "WLAN-MGMT-UNKN")
    | some name => exact lookup_networkName (by decide) hlookup
  unfold EtherApe.getWlanFrame
  split
  · split
    · split
      · exact (h.addOffset 2).getLlc (Or.inr rfl)
      · exact h.getLlc (Or.inr rfl)
    · exact (h.decodeProtoAdd (by decide)).settled (Or.inr rfl)
  · split
    · exact (h.decodeProtoAdd hmgmt).settled (Or.inr rfl)
    · exact h.settled (Or.inr rfl)

theorem Typed.getWlanAddrs (h : Typed .apemodeDefault d) (hlen : 10 ≤ d.window.len)
    (hname : ("IEE802.11", d.window) ∈ d.added) (wep : Nat) :
    TypesSettled env.mode (getWlanAddrs env ((d.window.get 0).toNat / 4 % 4)
      ((d.window.get 0).toNat / 16) ((d.window.get 1).toNat % 4) wep d) := by
  have hctrl : ∀ subtype,
      NetworkName ((wlanCtrlLabels.lookup subtype).getD "WLAN-CTRL-UNKN") := by
    intro subtype
    cases hlookup : wlanCtrlLabels.lookup subtype with
    | none => exact (by decide : NetworkName "WLAN-CTRL-UNKN")
    | some name => exact lookup_networkName (by decide) hlookup
  unfold EtherApe.getWlanAddrs getWlanCtrl
  dsimp only [readBytes, touch_window, setDstNodeId_window]
  split
  · exact h.settled (Or.inl rfl)
  next hdst =>
    have hdst' := not_lt.mp hdst
    split
    next hcontrol =>
      split
      · split
        next hshort =>
          exact .destination h.src rfl h.crashed h.below d.window hname
            ⟨hlen, hdst', Or.inr hshort⟩
        next =>
          refine Typed.settled (t := .link6) ?_ (Or.inr rfl)
          apply Typed.decodeProtoAdd _ (hctrl _)
          exact ⟨rfl, rfl, h.crashed, h.below⟩
      next hsubtype =>
        refine .destination h.src rfl h.crashed ?_ d.window ?_
          ⟨hlen, hdst', Or.inl ⟨hcontrol, hsubtype⟩⟩
        · exact not_enteredTransport_decodeProtoAdd (hctrl _) h.below
        · exact List.mem_append_left _ hname
    next =>
      split
      next hshort =>
        exact .destination h.src rfl h.crashed h.below d.window hname
          ⟨hlen, hdst', Or.inr hshort⟩
      next =>
        apply Typed.getWlanFrame
        exact ⟨rfl, rfl, h.crashed, h.below⟩

theorem Typed.getWlan (h : Typed .apemodeDefault d) : TypesSettled env.mode (getWlan env d) := by
  have hname : Typed .apemodeDefault (d.decodeProtoAdd "IEE802.11") :=
    h.decodeProtoAdd (by decide)
  unfold EtherApe.getWlan
  dsimp only [readByte]
  split
  · exact hname.settled (Or.inl rfl)
  next hlen =>
    apply Typed.getWlanAddrs ((((hname.touch 0 1).touch 0 1).touch 1 1).touch 1 1) (not_lt.mp hlen)
    exact List.mem_append_right _ (List.mem_singleton_self _)

theorem Typed.getRadiotap (h : Typed .apemodeDefault d) :
    TypesSettled env.mode (getRadiotap env d) := by
  unfold EtherApe.getRadiotap
  dsimp only [readU16]
  split
  · exact (h.decodeProtoAdd (by decide)).settled (Or.inl rfl)
  · exact ((h.touch 2 2).addOffset _).getWlan

theorem Typed.call (h : Typed .apemodeDefault d) (f : GetFun) {ppi : DecodeState → Outcome}
    (hppi : ∀ d, Typed .apemodeDefault d → ∀ d', ppi d = .finished d' → TypesSettled env.mode d')
    {d' : DecodeState} (hcall : f.call env ppi d = .finished d') : TypesSettled env.mode d' := by
  have ht : LinkType .apemodeDefault := Or.inl rfl
  cases f with
  | getPpi => exact hppi d h d' hcall
  | getEthType =>
      cases hcall
      exact h.getEthType ht
  | getIp =>
      cases hcall
      exact h.getIp ht
  | getLinuxSll =>
      cases hcall
      exact h.getLinuxSll ht
  | getLoop =>
      cases hcall
      exact h.getLoop ht
  | getFddiType =>
      cases hcall
      exact h.getFddiType ht
  | getIeee8025Type =>
      cases hcall
      exact h.getIeee8025Type ht
  | getWlan =>
      cases hcall
      exact h.getWlan
  | getRadiotap =>
      cases hcall
      exact h.getRadiotap

theorem Typed.getPpi (h : Typed .apemodeDefault d) {calls : Nat} {d' : DecodeState}
    (hppi : getPpi env calls d = .finished d') : TypesSettled env.mode d' := by
  induction calls generalizing d d' with
  | zero => exact Outcome.noConfusion hppi
  | succ calls ih =>
      rw [getPpi_succ] at hppi
      split at hppi
      · cases hppi
        exact (h.decodeProtoAdd (by decide)).settled (Or.inl rfl)
      · have hpayload : ∀ entry, Typed .apemodeDefault (ppiPayload d entry) := fun entry =>
          (((h.touch 2 2).touch 4 4).addOffset _).setPphLkentry entry
        split at hppi
        · exact (hpayload _).call _ (fun _ hd _ => ih hd) hppi
        · cases hppi
          exact (hpayload none).settled (Or.inl rfl)

end Settled

theorem copyTopmost_eq (d : DecodeState) : ∃ pr, copyTopmost d = { d with pr := pr } := by
  unfold copyTopmost
  split
  · exact ⟨_, rfl⟩
  · exact ⟨d.pr, rfl⟩

theorem TypesSettled.copyTopmost {mode : ApeMode} {d : DecodeState} (h : TypesSettled mode d) :
    TypesSettled mode (copyTopmost d) := by
  obtain ⟨pr, heq⟩ := copyTopmost_eq d
  rw [heq]
  cases h with
  | network t htcp hle h => exact .network t htcp hle ⟨h.src, h.dst, h.crashed, h.below⟩
  | transport t htcp hle h => exact .transport t htcp hle ⟨h.src, h.dst, h.crashed, h.entered⟩
  | destination hsrc hdst hcrashed hbelow w hwlan honly =>
      exact .destination hsrc hdst hcrashed hbelow w hwlan honly

theorem typesSettled_getPacketProt {env : DecodeEnv} {calls : Nat} {d d' : DecodeState}
    (hd : Typed .apemodeDefault d) (h : getPacketProt env calls d = .finished d') :
    TypesSettled env.mode d' := by
  unfold getPacketProt at h
  cases hcall : env.lkentry.val.getFun.call env (getPpi env calls) d with
  | finished e =>
      rw [hcall] at h
      obtain rfl : EtherApe.copyTopmost e = d' := Outcome.finished.inj h
      exact (hd.call _ (fun _ hd _ => hd.getPpi) hcall).copyTopmost
  | unfinished e =>
      rw [hcall] at h
      exact Outcome.noConfusion h

/-- The types that the ids of a decoded packet have, and that no assertion fails on the way. -/
theorem getPacketProt_nodeTypes {env : DecodeEnv} {calls : Nat} {bytes : Nat → UInt8} {caplen : Nat}
    {conversations : Conversations} {pphLkentry : Option Linktype} {d : DecodeState}
    (h : getPacketProt env calls (decodeProtoStart bytes caplen conversations pphLkentry) =
      .finished d) :
    d.crashed = false ∧
    (d.srcNodeId.nodeType.value ≤ (initCaptureMode env.mode).value ∧
      d.dstNodeId.nodeType.value ≤ (initCaptureMode env.mode).value) ∧
    ((d.srcNodeId.nodeType = .tcp ∧ d.dstNodeId.nodeType = .tcp) ↔
      env.mode = .tcp ∧ d.EnteredTransport) ∧
    (d.srcNodeId.nodeType ≠ d.dstNodeId.nodeType →
      d.srcNodeId.nodeType = .apemodeDefault ∧ d.dstNodeId.nodeType = .link6 ∧
      ∃ w, ("IEE802.11", w) ∈ d.added ∧ WlanDestinationOnly w) := by
  have hstart : Typed .apemodeDefault (decodeProtoStart bytes caplen conversations pphLkentry) := by
    refine ⟨rfl, rfl, rfl, ?_⟩
    rintro ⟨entry, hentry, _⟩
    exact absurd hentry List.not_mem_nil
  cases typesSettled_getPacketProt hstart h with
  | network t htcp hle h =>
      rw [h.src, h.dst]
      refine ⟨h.crashed, ⟨hle, hle⟩, ?_, fun hne => absurd rfl hne⟩
      exact iff_of_false (fun ht => htcp ht.1) fun hentered => h.below hentered.2
  | transport t htcp hle h =>
      rw [h.src, h.dst]
      refine ⟨h.crashed, ⟨hle, hle⟩, ?_, fun hne => absurd rfl hne⟩
      rw [and_self, htcp]
      exact (and_iff_left h.entered).symm
  | destination hsrc hdst hcrashed hbelow w hwlan honly =>
      have hle : ApeMode.value .apemodeDefault ≤ 0 := by decide
      have hmode := zero_le_initCaptureMode env.mode
      rw [hsrc, hdst]
      refine ⟨hcrashed, ⟨hle.trans hmode, hmode⟩, ?_, fun _ => ⟨rfl, rfl, w, hwlan, honly⟩⟩
      exact iff_of_false (fun ht => absurd ht.1 (by decide)) fun hentered => hbelow hentered.2

/-- A frame that acknowledges another on a wireless network names its receiver alone. -/
def ackFrame (i : Nat) : UInt8 := if i = 0 then 0xD4 else if i = 4 then 0x02 else 0

theorem getPacketProt_nodeTypes_ackFrame :
    ∃ d, getPacketProt (DecodeEnv.bare (linktypeAt 7) .tcp) 0
        (decodeProtoStart ackFrame 14 Conversations.empty none) = .finished d ∧
      d.srcNodeId.nodeType ≠ d.dstNodeId.nodeType ∧
      ∃ w, ("IEE802.11", w) ∈ d.added ∧ WlanDestinationOnly w := by
  have htypes := @getPacketProt_nodeTypes (DecodeEnv.bare (linktypeAt 7) .tcp) 0 ackFrame 14
    Conversations.empty none _ rfl
  have hne : (copyTopmost (getWlan (DecodeEnv.bare (linktypeAt 7) .tcp)
      (decodeProtoStart ackFrame 14 Conversations.empty none))).srcNodeId.nodeType ≠
      (copyTopmost (getWlan (DecodeEnv.bare (linktypeAt 7) .tcp)
      (decodeProtoStart ackFrame 14 Conversations.empty none))).dstNodeId.nodeType := by
    decide +kernel
  exact ⟨_, rfl, hne, (htypes.2.2.2 hne).2.2⟩

end EtherApe
