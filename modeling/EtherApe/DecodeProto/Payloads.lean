import EtherApe.DecodeProto.Addresses
import EtherApe.DecodeProto.Services

/-!
# Names above a TCP header

The payload of a segment has one name, which a service or a conversation gives it and which may be any, or
it is an RPC message with the name of its program, or a message of NetBIOS.
-/

namespace EtherApe

open DecodeState

/-- The names that come above the one of a TCP header. -/
inductive AboveTcp : List String → Prop
  | single (name : String) : AboveTcp [name]
  | rpc (prog : String) : AboveTcp ["ONC-RPC", prog]
  | smb : AboveTcp ["NETBIOS-SSN", "SMB"]

section Payloads

variable {env : DecodeEnv} {d : DecodeState}

theorem addRpcNames_names (prog : String) :
    (addRpcNames d prog).added.map Prod.fst = d.added.map Prod.fst ++ ["ONC-RPC", prog] := by
  unfold addRpcNames
  rw [decodeProtoAdd_added, decodeProtoAdd_added, List.map_append, List.map_append, List.append_assoc]
  rfl

theorem addRpcConversation_added (prog : String) : (addRpcConversation prog d).added = d.added := by
  unfold addRpcConversation
  cases d.conversations.findConversation d.globalSrcAddress d.globalSrcAddress d.globalSrcPort 0
  all_goals rfl

theorem getRpc_names {isUdp : Bool} (h : (getRpc isUdp d).1 = true) :
    ∃ prog, (getRpc isUdp d).2.added.map Prod.fst = d.added.map Prod.fst ++ ["ONC-RPC", prog] := by
  cases hcall : rpcCall isUdp d.window with
  | some prog =>
      obtain ⟨reads, hrpc⟩ := getRpc_call hcall
      refine ⟨prog, ?_⟩
      rw [hrpc, addRpcNames_names, withReads_added, addRpcConversation_added]
  | none =>
      by_cases hreply : IsRpcReply isUdp d.window
      · obtain ⟨reads, hrpc⟩ := getRpc_reply hreply
        rw [hrpc] at h ⊢
        cases hfound : d.conversations.findConversation d.globalDstAddress d.globalDstAddress
            d.globalDstPort 0 with
        | none =>
            rw [hfound] at h
            cases h
        | some prog => exact ⟨prog, addRpcNames_names prog⟩
      · obtain ⟨reads, hrpc⟩ := getRpc_other hcall hreply
        rw [hrpc] at h
        cases h

theorem getFtp_added : (getFtp env d).added = d.added ++ [("FTP", d.window)] := by
  obtain ⟨reads, hmatch⟩ := matchBytes_snd (d.decodeProtoAdd "FTP") 0 [50, 50, 55]
  unfold getFtp
  dsimp only [readBytes]
  rw [hmatch]
  split
  · rfl
  · split
    · rfl
    · split <;> rfl

theorem getTcpPayload_names (srcPort dstPort : Nat) :
    ∃ names, AboveTcp names ∧ (getTcpPayload env srcPort dstPort d).added.map Prod.fst =
      d.added.map Prod.fst ++ names := by
  unfold getTcpPayload
  split
  next str _ => exact ⟨_, .single str, decodeProtoAdd_names str⟩
  · dsimp only
    split
    next hrpc =>
      obtain ⟨prog, hnames⟩ := getRpc_names hrpc
      exact ⟨_, .rpc prog, hnames⟩
    next hrpc =>
      obtain ⟨reads, hreads⟩ := getRpc_reads (Bool.eq_false_of_not_eq_true hrpc)
      rw [hreads]
      split
      · unfold getNetbiosSsn
        dsimp only [readByte]
        split
        · refine ⟨_, .smb, ?_⟩
          rw [decodeProtoAdd_names, touch_added, decodeProtoAdd_names, List.append_assoc]
          rfl
        · exact ⟨_, .single "NETBIOS-SSN", decodeProtoAdd_names (d := d.withReads reads) "NETBIOS-SSN"⟩
      · split
        · refine ⟨_, .single "FTP", ?_⟩
          rw [getFtp_added, List.map_append]
          rfl
        · rw [addService_eq]
          exact ⟨_, .single _, decodeProtoAdd_names (d := d.withReads reads) _⟩

theorem getIp_tcp_names {p : IpPayload} (hp : d.handover.ip env.mode = some p)
    (htcp : p.ipType = ipProtoTcp) (hfragment : p.fragmentOffset = 0) :
    ∃ names, AboveTcp names ∧ (getIp env d).added.map Prod.fst =
      d.added.map Prod.fst ++ [d.handover.ipLabel, "TCP"] ++ names := by
  obtain ⟨d', hadded, hip⟩ := getIp_eq_getIpProto hp
  rw [hip, htcp, hfragment]
  unfold getIpProto
  dsimp only
  rw [if_pos rfl, if_neg (not_not.mpr rfl), getTcp_eq]
  obtain ⟨names, habove, hnames⟩ := @getTcpPayload_names env
    (((transportHeader env "TCP" (d'.setGlobalAddresses d'.srcNodeId.addr.ip d'.dstNodeId.addr.ip)).touch
      12 1).addOffset ((d'.window.get 12).toNat / 16 * 4)) (d'.window.u16 0) (d'.window.u16 2)
  refine ⟨names, habove, hnames.trans ?_⟩
  rw [addOffset_added, touch_added, transportHeader_added, List.map_append]
  show d'.added.map Prod.fst ++ ["TCP"] ++ names = _
  rw [hadded, List.append_assoc (d.added.map Prod.fst)]
  rfl

end Payloads

end EtherApe
