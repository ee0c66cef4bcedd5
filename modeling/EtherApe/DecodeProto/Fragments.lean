import EtherApe.DecodeProto.Services

/-!
# Fragments

A fragment behind the first one has no transport header. `get_ip` tells them apart by the fragment
offset, of which it looks at twelve bits; the field has thirteen.
-/

namespace EtherApe

open DecodeState

/-- The window is at an IPv4 header whose fixed part is captured. -/
structure IsIpv4 (w : Window) : Prop where
  captured : 20 ≤ w.len
  version : (w.get 0).toNat / 16 = 4
  headerLength : 20 ≤ (w.get 0).toNat % 16 * 4

def ipv4FragmentOffset (w : Window) : Nat := w.u16 6 % 0x2000

namespace Transport

def ipProto : Transport → Nat
  | tcp => ipProtoTcp
  | udp => ipProtoUdp

def fragmentLabel : Transport → String
  | tcp => "TCP_FRAGMENT"
  | udp => "UDP_FRAGMENT"

end Transport

/-- The packet is labelled a fragment, and nothing is taken from behind its IP header. -/
structure SetAside (env : DecodeEnv) (t : Transport) (d d' : DecodeState) : Prop where
  added : d'.added.map Prod.fst = d.added.map Prod.fst ++ ["IP", t.fragmentLabel]
  srcPort : d'.globalSrcPort = d.globalSrcPort
  dstPort : d'.globalDstPort = d.globalDstPort
  conversations : d'.conversations = d.conversations
  linkIds : env.mode = .link6 → d'.srcNodeId = d.srcNodeId ∧ d'.dstNodeId = d.dstNodeId
  ipIds : env.mode ≠ .link6 → d'.srcNodeId.nodeType = .ip ∧ d'.dstNodeId.nodeType = .ip

/-- The state behind an IPv4 header, with the ids that the mode asks for. -/
structure BehindIpv4 (env : DecodeEnv) (d d' : DecodeState) : Prop where
  added : d'.added.map Prod.fst = d.added.map Prod.fst ++ ["IP"]
  srcPort : d'.globalSrcPort = d.globalSrcPort
  dstPort : d'.globalDstPort = d.globalDstPort
  conversations : d'.conversations = d.conversations
  linkIds : env.mode = .link6 → d'.srcNodeId = d.srcNodeId ∧ d'.dstNodeId = d.dstNodeId
  ipIds : env.mode ≠ .link6 → d'.srcNodeId.nodeType = .ip ∧ d'.dstNodeId.nodeType = .ip

section Ipv4

variable {env : DecodeEnv} {d d' : DecodeState} {t : Transport}

theorem getIp_of_ipv4 (h : IsIpv4 d.window) :
    ∃ d', getIp env d = getIpProto env (d.window.get 9).toNat (d.window.u16 6 % 0x1000) d' ∧
      BehindIpv4 env d d' := by
  have hadded : (d.added ++ [("IP", d.window)]).map Prod.fst = d.added.map Prod.fst ++ ["IP"] := by
    rw [List.map_append]
    rfl
  unfold getIp
  simp only [readByte, touch_window]
  rw [if_neg (not_lt.mpr h.captured), if_pos h.version, if_neg (not_lt.mpr h.headerLength)]
  unfold getIpv4
  by_cases hmode : env.mode = .link6
  · refine ⟨_, if_neg (not_ne_iff.mpr hmode), hadded, rfl, rfl, rfl, fun _ => ⟨rfl, rfl⟩, ?_⟩
    intro hother
    exact absurd hmode hother
  · refine ⟨_, if_pos hmode, hadded, rfl, rfl, rfl, ?_, fun _ => ⟨rfl, rfl⟩⟩
    intro hlink
    exact absurd hlink hmode

theorem BehindIpv4.setAside (h : BehindIpv4 env d d') (src dst : Address) :
    SetAside env t d ((d'.setGlobalAddresses src dst).decodeProtoAdd t.fragmentLabel) := by
  refine ⟨?_, h.srcPort, h.dstPort, h.conversations, h.linkIds, h.ipIds⟩
  rw [decodeProtoAdd_added, List.map_append, setGlobalAddresses_added, h.added, List.append_assoc]
  rfl

theorem decode_isPrefix : d.added.map Prod.fst ++ [t.name] <+: (t.decode env d).added.map Prod.fst := by
  have hnames := preserved_prefix (d.added.map Prod.fst ++ [t.name])
  have hbehind : d.added.map Prod.fst ++ [t.name] <+: (t.behind env d).added.map Prod.fst := by
    rw [Transport.behind_added]
  cases t with
  | tcp =>
      show _ <+: (getTcp env d).added.map Prod.fst
      rw [getTcp_eq]
      exact hnames.getTcpPayload hbehind
  | udp =>
      show _ <+: (getUdp env d).added.map Prod.fst
      rw [getUdp_eq]
      exact hnames.getUdpPayload hbehind

theorem getIpProto_transport (fragmentOffset : Nat) :
    getIpProto env t.ipProto fragmentOffset d =
      if fragmentOffset ≠ 0 then
        (d.setGlobalAddresses d.srcNodeId.addr.ip d.dstNodeId.addr.ip).decodeProtoAdd t.fragmentLabel
      else t.decode env (d.setGlobalAddresses d.srcNodeId.addr.ip d.dstNodeId.addr.ip) := by
  cases t with
  | tcp => rfl
  | udp => rfl

end Ipv4

/-- **Fragments.** A fragment is set aside unless its offset is the one that the mask leaves out. -/
theorem fragment_setAside_iff {env : DecodeEnv} {d : DecodeState} {t : Transport}
    (h : IsIpv4 d.window) (hproto : (d.window.get 9).toNat = t.ipProto)
    (hfragment : ipv4FragmentOffset d.window ≠ 0) :
    SetAside env t d (getIp env d) ↔ ipv4FragmentOffset d.window ≠ 0x1000 := by
  obtain ⟨d', hgetIp, hbehind⟩ := @getIp_of_ipv4 env d h
  rw [hgetIp, hproto, getIpProto_transport]
  unfold ipv4FragmentOffset at hfragment ⊢
  by_cases hmasked : d.window.u16 6 % 0x1000 ≠ 0
  · rw [if_pos hmasked]
    refine iff_of_true (hbehind.setAside _ _) ?_
    omega
  · rw [if_neg hmasked]
    refine iff_of_false (fun haside => ?_) (by omega)
    have hprefix := @decode_isPrefix env
      (d'.setGlobalAddresses d'.srcNodeId.addr.ip d'.dstNodeId.addr.ip) t
    rw [haside.added, setGlobalAddresses_added, hbehind.added, List.append_assoc,
      List.prefix_append_right_inj] at hprefix
    cases t with
    | tcp => exact absurd hprefix (by decide)
    | udp => exact absurd hprefix (by decide)

/-- An IPv4 header of TCP with the given bytes of flags and fragment offset. -/
def fragmentBytes (hi lo : UInt8) (i : Nat) : UInt8 :=
  if i = 0 then 0x45 else if i = 6 then hi else if i = 7 then lo else if i = 9 then 6 else 0

theorem fragment_setAside_iff_second :
    SetAside (DecodeEnv.bare linktypeRawIp .ip) .tcp
      (decodeProtoStart (fragmentBytes 0x20 0xB9) 60 Conversations.empty none)
      (getIp (DecodeEnv.bare linktypeRawIp .ip)
        (decodeProtoStart (fragmentBytes 0x20 0xB9) 60 Conversations.empty none)) :=
  (fragment_setAside_iff ⟨by decide, by decide, by decide⟩ (by decide) (by decide)).mpr (by decide)

theorem not_all_fragments_setAside :
    ¬∀ (env : DecodeEnv) (d : DecodeState) (t : Transport), IsIpv4 d.window →
      (d.window.get 9).toNat = t.ipProto → ipv4FragmentOffset d.window ≠ 0 →
      SetAside env t d (getIp env d) := by
  intro h
  have haside := h (DecodeEnv.bare linktypeRawIp .ip)
    (decodeProtoStart (fragmentBytes 0x10 0) 60 Conversations.empty none) .tcp
    ⟨by decide, by decide, by decide⟩ (by decide) (by decide)
  have hadded := haside.added
  revert hadded
  decide +kernel

end EtherApe
