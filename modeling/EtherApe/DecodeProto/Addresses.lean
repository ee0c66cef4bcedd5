import EtherApe.DecodeProto.Segments

/-!
# Names and addresses of an IP packet

What `get_ip` leaves, whatever comes above it: the names of the IP header and of the protocol in it, on
top of those from below, and without ports the node ids with the addresses of the header.
-/

namespace EtherApe

open DecodeState

def DecodeState.handover (d : DecodeState) : Handover :=
  ⟨d.added.map Prod.fst, d.srcNodeId, d.dstNodeId, d.window⟩

def Handover.ipLabel (o : Handover) : String :=
  if (o.window.get 0).toNat / 16 = 4 then "IP" else "IPV6"

def IpPayload.label (p : IpPayload) : String :=
  if p.ipType = ipProtoTcp then if p.fragmentOffset ≠ 0 then "TCP_FRAGMENT" else "TCP"
  else if p.ipType = ipProtoUdp then if p.fragmentOffset ≠ 0 then "UDP_FRAGMENT" else "UDP"
  else ipProtoLabel p.ipType

section Getting

variable {env : DecodeEnv} {d : DecodeState}

theorem At.handover {t : Conversations} {o : Handover} (h : At t o d) : d.handover = o := by
  rw [DecodeState.handover, h.names_eq, h.src_eq, h.dst_eq, h.window_eq]

/-! ### Names -/

theorem decodeProtoAdd_names (name : String) :
    (d.decodeProtoAdd name).added.map Prod.fst = d.added.map Prod.fst ++ [name] := by
  rw [decodeProtoAdd_added, List.map_append]
  rfl

theorem getIpProto_names {names : List String} {p : IpPayload} (hnames : d.added.map Prod.fst = names) :
    names ++ [p.label] <+: (getIpProto env p.ipType p.fragmentOffset d).added.map Prod.fst := by
  set d' := d.setGlobalAddresses d.srcNodeId.addr.ip d.dstNodeId.addr.ip
  have hadd (name : String) : names ++ [name] <+: (d'.decodeProtoAdd name).added.map Prod.fst := by
    have hnames' : d'.added.map Prod.fst = names := hnames
    rw [decodeProtoAdd_added, List.map_append, hnames']
    exact List.prefix_rfl
  unfold getIpProto IpPayload.label
  dsimp only
  by_cases htcp : p.ipType = ipProtoTcp
  · rw [if_pos htcp, if_pos htcp]
    by_cases hfragment : p.fragmentOffset ≠ 0
    · rw [if_pos hfragment, if_pos hfragment]
      exact hadd "TCP_FRAGMENT"
    · rw [if_neg hfragment, if_neg hfragment]
      exact ( preserved_prefix _).getTcp_of_added (hadd "TCP")
  · rw [if_neg htcp, if_neg htcp]
    by_cases hudp : p.ipType = ipProtoUdp
    · rw [if_pos hudp, if_pos hudp]
      by_cases hfragment : p.fragmentOffset ≠ 0
      · rw [if_pos hfragment, if_pos hfragment]
        exact hadd "UDP_FRAGMENT"
      · rw [if_neg hfragment, if_neg hfragment]
        exact ( preserved_prefix _).getUdp_of_added (hadd "UDP")
    · rw [if_neg hudp, if_neg hudp]
      exact hadd _

/-- What `get_ip` finds behind an IP header goes to the switch on the protocol, with the name of the header
on top of those from below. -/
theorem getIp_eq_getIpProto {p : IpPayload} (hp : d.handover.ip env.mode = some p) :
    ∃ d', d'.added.map Prod.fst = d.added.map Prod.fst ++ [d.handover.ipLabel] ∧
      getIp env d = getIpProto env p.ipType p.fragmentOffset d' := by
  unfold Handover.ip at hp
  unfold getIp
  dsimp only [readByte]
  rw [show d.handover.window = d.window from rfl] at hp
  split at hp
  · cases hp
  next hlong =>
    rw [if_neg hlong]
    by_cases hv4 : (d.window.get 0).toNat / 16 = 4
    · rw [if_pos hv4] at hp ⊢
      split at hp
      · cases hp
      next hhl =>
        rw [touch_window, if_neg hhl]
        obtain rfl := Option.some.inj hp
        rw [Handover.ipLabel, if_pos (show (d.handover.window.get 0).toNat / 16 = 4 from hv4)]
        unfold getIpv4
        dsimp only [readByte, pntohs, readBytes]
        split
        · refine ⟨_, ?_, rfl⟩
          exact decodeProtoAdd_names "IP"
        · refine ⟨_, ?_, rfl⟩
          exact decodeProtoAdd_names "IP"
    · rw [if_neg hv4] at hp ⊢
      split at hp
      next hv6 =>
        rw [if_pos hv6]
        split at hp
        · cases hp
        next hv6len =>
          rw [touch_window, if_neg hv6len]
          obtain rfl := Option.some.inj hp
          rw [Handover.ipLabel, if_neg (show ¬(d.handover.window.get 0).toNat / 16 = 4 from hv4)]
          unfold getIpv6
          dsimp only [readByte, readBytes]
          split
          · refine ⟨_, ?_, rfl⟩
            exact decodeProtoAdd_names "IPV6"
          · refine ⟨_, ?_, rfl⟩
            exact decodeProtoAdd_names "IPV6"
      · cases hp

theorem getIp_names {p : IpPayload} (hp : d.handover.ip env.mode = some p) :
    d.added.map Prod.fst ++ [d.handover.ipLabel, p.label] <+:
      (getIp env d).added.map Prod.fst := by
  obtain ⟨d', hadded, hip⟩ := getIp_eq_getIpProto hp
  rw [hip, List.append_cons]
  exact getIpProto_names hadded

theorem getIp_added_of_none (h : d.handover.ip env.mode = none) : (getIp env d).added = d.added := by
  unfold Handover.ip at h
  rw [show d.handover.window = d.window from rfl] at h
  unfold getIp
  dsimp only [readByte]
  split at h
  next hshort => rw [if_pos hshort]
  next hlong =>
    rw [if_neg hlong]
    split at h
    next hv4 =>
      rw [if_pos hv4]
      split at h
      next hhl =>
        rw [touch_window, if_pos hhl]
        rfl
      · cases h
    next hv4 =>
      rw [if_neg hv4]
      split at h
      next hv6 =>
        rw [if_pos hv6]
        split at h
        next hv6len =>
          rw [touch_window, if_pos hv6len]
          rfl
        · cases h
      next hv6 =>
        rw [if_neg hv6]
        rfl

/-! ### Node ids -/

theorem getIpProto_nodeIds (hmode : env.mode ≠ .tcp) (ipType fragmentOffset : Nat) :
    (getIpProto env ipType fragmentOffset d).srcNodeId = d.srcNodeId ∧
      (getIpProto env ipType fragmentOffset d).dstNodeId = d.dstNodeId := by
  set d' := d.setGlobalAddresses d.srcNodeId.addr.ip d.dstNodeId.addr.ip
  have hheader (name : String) : (transportHeader env name d').srcNodeId = d.srcNodeId ∧
      (transportHeader env name d').dstNodeId = d.dstNodeId := by
    unfold transportHeader setTcpNodeIds
    rw [if_neg hmode]
    exact ⟨rfl, rfl⟩
  unfold getIpProto
  dsimp only
  split
  · split
    · exact ⟨rfl, rfl⟩
    · rw [getTcp_eq]
      exact (payloadPreserved_nodeIds _ _).getTcpPayload (hheader "TCP")
  · split
    · split
      · exact ⟨rfl, rfl⟩
      · rw [getUdp_eq]
        exact (payloadPreserved_nodeIds _ _).getUdpPayload (hheader "UDP")
    · exact ⟨rfl, rfl⟩

theorem getIp_nodeIds (hmode : env.mode ≠ .tcp) :
    (getIp env d).srcNodeId = ((d.handover.ip env.mode).map IpPayload.srcNodeId).getD d.srcNodeId ∧
      (getIp env d).dstNodeId =
        ((d.handover.ip env.mode).map IpPayload.dstNodeId).getD d.dstNodeId := by
  unfold getIp Handover.ip
  dsimp only [readByte]
  rw [show d.handover.window = d.window from rfl, touch_window]
  split
  · exact ⟨rfl, rfl⟩
  · split
    · split
      · exact ⟨rfl, rfl⟩
      · unfold getIpv4 Handover.ipv4
        dsimp only [readByte, pntohs, readBytes]
        by_cases hlink : env.mode ≠ .link6
        · rw [if_pos hlink, if_pos hlink, if_pos hlink]
          exact getIpProto_nodeIds hmode _ _
        · rw [if_neg hlink, if_neg hlink, if_neg hlink]
          exact getIpProto_nodeIds hmode _ _
    · split
      · split
        · exact ⟨rfl, rfl⟩
        · unfold getIpv6 Handover.ipv6
          dsimp only [readByte, readBytes]
          by_cases hlink : env.mode ≠ .link6
          · rw [if_pos hlink, if_pos hlink, if_pos hlink]
            exact getIpProto_nodeIds hmode _ _
          · rw [if_neg hlink, if_neg hlink, if_neg hlink]
            exact getIpProto_nodeIds hmode _ _
      · exact ⟨rfl, rfl⟩

theorem getIp_nodeIds_link6 (hmode : env.mode = .link6) :
    (getIp env d).srcNodeId = d.srcNodeId ∧ (getIp env d).dstNodeId = d.dstNodeId := by
  obtain ⟨hsrc, hdst⟩ := @getIp_nodeIds env d (by rw [hmode]; decide)
  have hlink : ¬env.mode ≠ .link6 := not_not.mpr hmode
  rw [hsrc, hdst]
  unfold Handover.ip Handover.ipv4 Handover.ipv6
  rw [if_neg hlink, if_neg hlink, if_neg hlink, if_neg hlink]
  split_ifs
  all_goals exact ⟨rfl, rfl⟩

/-- Names below others and the ids of the link layer. -/
structure Recorded (names : List String) (src dst : NodeId) (d : DecodeState) : Prop where
  names : names <+: d.added.map Prod.fst
  src : d.srcNodeId = src
  dst : d.dstNodeId = dst

theorem linkPreserved_recorded (hmode : env.mode = .link6) (names : List String) (src dst : NodeId) :
    LinkPreserved env (Recorded names src dst) where
  decodeProtoAdd h := ⟨( preserved_prefix names).decodeProtoAdd h.names, h.src, h.dst⟩
  touch h := ⟨h.names, h.src, h.dst⟩
  addOffset h := ⟨h.names, h.src, h.dst⟩
  getIp h := by
    obtain ⟨hsrc, hdst⟩ := getIp_nodeIds_link6 hmode
    exact ⟨( preserved_prefix names).network.getIp h.names, hsrc.trans h.src, hdst.trans h.dst⟩

end Getting

end EtherApe
