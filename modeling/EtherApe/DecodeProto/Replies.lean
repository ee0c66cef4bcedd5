import EtherApe.Conversations.Flows
import EtherApe.DecodeProto.Stack

/-!
# The labels of RPC replies

A call names its program, a reply does not. The decoder stores a conversation of the caller with
itself, between its port and any port, and looks the reply up by the address and port it goes to. Since
one of the two ports is always zero, the lookup finds the conversation of any port of that host, and so
does the lookup that decides whether a call is stored: a reply gets the program of the first call that
was heard from its host, whatever ports the two went through.
-/

namespace EtherApe

open DecodeState

/-! ### Messages -/

/-- Where the message starts; on TCP it has its length in front. -/
def rpcStart (isUdp : Bool) : Nat := if isUdp then 0 else 4

/-- The program of a version 2 call, if it is known. -/
def rpcCall (isUdp : Bool) (w : Window) : Option String :=
  if w.len < 24 then none
  else if w.u32 (rpcStart isUdp + 4) = 0 ∧ w.u32 (rpcStart isUdp + 8) = 2 then
    rpcProgramLabel (w.u32 (rpcStart isUdp + 12))
  else none

def IsRpcReply (isUdp : Bool) (w : Window) : Prop :=
  24 ≤ w.len ∧ w.u32 (rpcStart isUdp + 4) = 1

instance (isUdp : Bool) (w : Window) : Decidable (IsRpcReply isUdp w) :=
  inferInstanceAs (Decidable (_ ∧ _))

/-- The server port of a passive reply of an FTP server. -/
def ftpPassive (env : DecodeEnv) (w : Window) : Option Nat :=
  if w.len < 3 then none
  else if w.hasBytes 0 [50, 50, 55] then
    ftpServerPort env ((List.range w.len).map fun j => w.get (0 + j))
  else none

variable {d : DecodeState} {isUdp : Bool} {env : DecodeEnv} {prog : String}

/-- The state after some more reads. -/
@[simps -fullyApplied]
def DecodeState.withReads (d : DecodeState) (reads : List Access) : DecodeState := { d with reads := reads }

def addRpcNames (d : DecodeState) (prog : String) : DecodeState :=
  (d.decodeProtoAdd "ONC-RPC").decodeProtoAdd prog

/-- The number that is read gets a name of its own, so that no proof looks into it. -/
theorem exists_pntohl (d : DecodeState) (reads : List Access) (i : Nat) :
    ∃ x reads', d.window.u32 i = x ∧ (d.withReads reads).pntohl i = (x, d.withReads reads') :=
  ⟨_, reads ++ d.window.accesses i 4, rfl, rfl⟩

theorem addRpcConversation_withReads (d : DecodeState) (reads : List Access) :
    addRpcConversation prog (d.withReads reads) = (addRpcConversation prog d).withReads reads := by
  unfold addRpcConversation
  rw [withReads_conversations, withReads_globalSrcAddress, withReads_globalSrcPort]
  cases d.conversations.findConversation d.globalSrcAddress d.globalSrcAddress d.globalSrcPort 0 <;>
    rfl

theorem getRpc_of_len (isUdp : Bool) (hlen : 24 ≤ d.window.len) : ∃ reads, getRpc isUdp d =
    if d.window.u32 (rpcStart isUdp + 4) = 1 then getRpcReply (d.withReads reads)
    else if d.window.u32 (rpcStart isUdp + 4) = 0 then
      getRpcCall (rpcStart isUdp) (d.withReads reads)
    else (false, d.withReads reads) := by
  obtain ⟨msgType, reads, htype, hread⟩ := exists_pntohl d d.reads (rpcStart isUdp + 4)
  refine ⟨reads, ?_⟩
  change d.pntohl (rpcStart isUdp + 4) = _ at hread
  rw [htype, getRpc, if_neg (not_lt.mpr hlen), ← rpcStart]
  dsimp only
  rw [hread]

theorem getRpcCall_eq (rpcstart : Nat) (reads : List Access) :
    ∃ reads', getRpcCall rpcstart (d.withReads reads) =
      if d.window.u32 (rpcstart + 8) ≠ 2 then (false, d.withReads reads')
      else
        match rpcProgramLabel (d.window.u32 (rpcstart + 12)) with
        | none => (false, d.withReads reads')
        | some prog => (true, addRpcNames ((addRpcConversation prog d).withReads reads') prog) := by
  obtain ⟨rpcver, reads₁, hver, hread₁⟩ := exists_pntohl d reads (rpcstart + 8)
  obtain ⟨msgProgram, reads₂, hprogram, hread₂⟩ := exists_pntohl d reads₁ (rpcstart + 12)
  rw [hver, hprogram]
  unfold getRpcCall
  split
  next x d₁ heq =>
    rw [hread₁] at heq
    cases heq
    by_cases hver : rpcver ≠ 2
    · exact ⟨reads₁, by rw [if_pos hver, if_pos hver]⟩
    · refine ⟨reads₂, ?_⟩
      rw [if_neg hver, if_neg hver]
      split
      next y d₂ heq =>
        rw [hread₂] at heq
        cases heq
        cases rpcProgramLabel msgProgram with
        | none => rfl
        | some prog =>
            dsimp only
            rw [addRpcConversation_withReads, addRpcNames]

theorem getRpc_call (h : rpcCall isUdp d.window = some prog) : ∃ reads, getRpc isUdp d =
    (true, addRpcNames ((addRpcConversation prog d).withReads reads) prog) := by
  unfold rpcCall at h
  split at h
  · cases h
  next hlen =>
    split at h
    next hcall =>
      obtain ⟨reads, hrpc⟩ := getRpc_of_len isUdp (not_lt.mp hlen)
      obtain ⟨reads', hgetcall⟩ := getRpcCall_eq (d := d) (rpcStart isUdp) reads
      refine ⟨reads', ?_⟩
      rw [hrpc, if_neg (by omega), if_pos hcall.1, hgetcall, if_neg (not_ne_iff.mpr hcall.2), h]
    · cases h

theorem getRpc_reply (h : IsRpcReply isUdp d.window) : ∃ reads, getRpc isUdp d =
    match d.conversations.findConversation d.globalDstAddress d.globalDstAddress d.globalDstPort 0 with
    | none => (false, d.withReads reads)
    | some prog => (true, addRpcNames (d.withReads reads) prog) := by
  obtain ⟨reads, hrpc⟩ := getRpc_of_len isUdp h.1
  refine ⟨reads, ?_⟩
  rw [hrpc, if_pos h.2, getRpcReply, withReads_conversations, withReads_globalDstAddress,
    withReads_globalDstPort]
  rfl

theorem getRpc_other (hcall : rpcCall isUdp d.window = none) (hreply : ¬IsRpcReply isUdp d.window) :
    ∃ reads, getRpc isUdp d = (false, d.withReads reads) := by
  by_cases hlen : d.window.len < 24
  · exact ⟨d.reads, if_pos hlen⟩
  · obtain ⟨reads, hrpc⟩ := getRpc_of_len isUdp (not_lt.mp hlen)
    rw [hrpc, if_neg fun htype => hreply ⟨not_lt.mp hlen, htype⟩]
    split
    next hzero =>
      obtain ⟨reads', hgetcall⟩ := getRpcCall_eq (d := d) (rpcStart isUdp) reads
      unfold rpcCall at hcall
      rw [if_neg hlen] at hcall
      rw [hgetcall]
      split
      · exact ⟨reads', rfl⟩
      next hver =>
        rw [if_pos ⟨hzero, not_ne_iff.mp hver⟩] at hcall
        rw [hcall]
        exact ⟨reads', rfl⟩
    · exact ⟨reads, rfl⟩

theorem addRpcConversation_eq : (addRpcConversation prog d).conversations =
    d.conversations.addConversation d.globalSrcAddress d.globalSrcAddress d.globalSrcPort 0 prog := by
  unfold addRpcConversation
  split
  next hfound => rw [Conversations.addConversation, hfound]
  next => rfl

theorem getFtp_conversations : (getFtp env d).conversations =
    match ftpPassive env d.window with
    | none => d.conversations
    | some port => d.conversations.addConversation d.globalSrcAddress d.globalDstAddress port 0
        "FTP-PASSIVE" := by
  unfold getFtp ftpPassive
  simp only [decodeProtoAdd_window]
  split
  · rfl
  · obtain ⟨reads, hmatch⟩ := matchBytes_snd (d.decodeProtoAdd "FTP") 0 [50, 50, 55]
    have hfst := matchBytes_fst (d.decodeProtoAdd "FTP") 0 [50, 50, 55]
    simp only [decodeProtoAdd_window] at hfst
    simp only [hfst, hmatch, readBytes, decodeProtoAdd_window]
    cases d.window.hasBytes 0 [50, 50, 55] with
    | false => rfl
    | true =>
        simp only [not_true_eq_false, if_false, if_true]
        cases ftpServerPort env ((List.range d.window.len).map fun j => d.window.get (0 + j)) <;> rfl

/-! ### Packets -/

/-- A packet as it is behind its transport header, with the state the decoder has come to. -/
structure TransportPacket where
  isUdp : Bool
  env : DecodeEnv
  state : DecodeState
  shape : StackShape state

namespace TransportPacket

variable (k : TransportPacket) (t : Conversations)

/-- Decodes the payload with the conversations known so far. -/
def decode : DecodeState :=
  let d := k.state.setConversations t
  if k.isUdp then getUdpPayload k.env d.globalSrcPort d.globalDstPort d
  else getTcpPayload k.env d.globalSrcPort d.globalDstPort d

/-- The conversation between the ends of the packet, which `get_tcp` looks for first. -/
def known : Option String :=
  t.findConversation k.state.globalSrcAddress k.state.globalDstAddress k.state.globalSrcPort
    k.state.globalDstPort

/-- The program that the packet calls. -/
def call : Option String := rpcCall k.isUdp k.state.window

def IsReply : Prop := IsRpcReply k.isUdp k.state.window

instance : Decidable k.IsReply := inferInstanceAs (Decidable (IsRpcReply _ _))

/-- The program that a reply is taken to come from. -/
def replyLabel : Option String :=
  t.findConversation k.state.globalDstAddress k.state.globalDstAddress k.state.globalDstPort 0

/-- The conversation of the caller with itself. -/
def callConversation (prog : String) : Conversation :=
  ⟨k.state.globalSrcAddress, k.state.globalSrcAddress, k.state.globalSrcPort, 0, prog⟩

/-- Whether a TCP packet comes to `get_ftp` after it was no RPC packet. -/
def ReachesFtp : Prop :=
  k.state.globalSrcPort ≠ tcpNetbiosSsn ∧ k.state.globalDstPort ≠ tcpNetbiosSsn ∧
    (k.state.globalSrcPort = tcpFtp ∨ k.state.globalDstPort = tcpFtp)

instance : Decidable k.ReachesFtp := inferInstanceAs (Decidable (_ ∧ _))

/-- The conversation that the packet asks to store, if it asks for one. -/
def stores : Option Conversation :=
  if k.isUdp then k.call.map k.callConversation
  else if (k.known t).isSome then none
  else
    match k.call with
    | some prog => some (k.callConversation prog)
    | none =>
        if k.IsReply ∧ (k.replyLabel t).isSome ∨ ¬k.ReachesFtp then none
        else (ftpPassive k.env k.state.window).map fun port =>
          ⟨k.state.globalSrcAddress, k.state.globalDstAddress, port, 0, "FTP-PASSIVE"⟩

end TransportPacket

def Conversations.store (t : Conversations) : Option Conversation → Conversations
  | none => t
  | some c => t.addConversation c.srcAddress c.dstAddress c.srcPort c.dstPort c.data

theorem addService_conversations {groupUnk : Bool} {servicesFind : Nat → Option PortService}
    {unknown transport : String} {srcPort dstPort : Nat} :
    (addService groupUnk servicesFind unknown transport srcPort dstPort d).conversations =
      d.conversations := by
  unfold addService
  dsimp only
  split
  · split
    · rfl
    · split <;> rfl
  · split <;> rfl

theorem getNetbiosSsn_conversations : (getNetbiosSsn d).conversations = d.conversations := by
  unfold getNetbiosSsn
  dsimp only [readByte]
  split <;> rfl

theorem getNetbiosDgm_conversations : (getNetbiosDgm d).conversations = d.conversations := by
  unfold getNetbiosDgm
  dsimp only [readByte]
  split <;> rfl

/-- What `get_udp` does with a packet that is no RPC packet. -/
def udpService (env : DecodeEnv) (srcPort dstPort : Nat) (d : DecodeState) : DecodeState :=
  if srcPort = udpNetbiosNs ∨ dstPort = udpNetbiosNs then getNetbiosDgm d
  else addService env.groupUnk env.servicesUdpFind "UDP-UNKNOWN" "UDP" srcPort dstPort d

/-- What `get_tcp` does with a packet of no known conversation that is no RPC packet. -/
def tcpService (env : DecodeEnv) (srcPort dstPort : Nat) (d : DecodeState) : DecodeState :=
  if srcPort = tcpNetbiosSsn ∨ dstPort = tcpNetbiosSsn then getNetbiosSsn d
  else if srcPort = tcpFtp ∨ dstPort = tcpFtp then getFtp env d
  else addService env.groupUnk env.servicesTcpFind "TCP-UNKNOwN" "TCP" srcPort dstPort d

theorem udpService_conversations {srcPort dstPort : Nat} :
    (udpService env srcPort dstPort d).conversations = d.conversations := by
  unfold udpService
  split
  · exact getNetbiosDgm_conversations
  · exact addService_conversations

theorem tcpService_conversations {srcPort dstPort : Nat} :
    (tcpService env srcPort dstPort d).conversations =
      if srcPort ≠ tcpNetbiosSsn ∧ dstPort ≠ tcpNetbiosSsn ∧
          (srcPort = tcpFtp ∨ dstPort = tcpFtp) then
        d.conversations.store ((ftpPassive env d.window).map fun port =>
          ⟨d.globalSrcAddress, d.globalDstAddress, port, 0, "FTP-PASSIVE"⟩)
      else d.conversations := by
  unfold tcpService
  by_cases hssn : srcPort = tcpNetbiosSsn ∨ dstPort = tcpNetbiosSsn
  · rw [if_pos hssn, if_neg (by tauto), getNetbiosSsn_conversations]
  · rw [if_neg hssn]
    obtain ⟨hsrc, hdst⟩ := not_or.mp hssn
    by_cases hftp : srcPort = tcpFtp ∨ dstPort = tcpFtp
    · rw [if_pos hftp, if_pos ⟨hsrc, hdst, hftp⟩, getFtp_conversations]
      cases ftpPassive env d.window <;> rfl
    · rw [if_neg hftp, if_neg (by tauto), addService_conversations]

namespace TransportPacket

/-- How a packet is decoded, with `d` the state before. -/
inductive Decodes (k : TransportPacket) (t : Conversations) (d : DecodeState) : DecodeState → Prop
  | known (str : String) (htcp : k.isUdp = false) (hknown : k.known t = some str) :
      Decodes k t d (d.decodeProtoAdd str)
  | call (prog : String) (reads : List Access) (hnew : k.isUdp = true ∨ k.known t = none)
      (hcall : k.call = some prog) :
      Decodes k t d (addRpcNames ((addRpcConversation prog d).withReads reads) prog)
  | reply (prog : String) (reads : List Access) (hnew : k.isUdp = true ∨ k.known t = none)
      (hreply : k.IsReply) (hlabel : k.replyLabel t = some prog) :
      Decodes k t d (addRpcNames (d.withReads reads) prog)
  | udp (reads : List Access) (hudp : k.isUdp = true) (hcall : k.call = none)
      (hreply : k.IsReply → k.replyLabel t = none) :
      Decodes k t d (udpService k.env d.globalSrcPort d.globalDstPort (d.withReads reads))
  | tcp (reads : List Access) (htcp : k.isUdp = false) (hknown : k.known t = none)
      (hcall : k.call = none) (hreply : k.IsReply → k.replyLabel t = none) :
      Decodes k t d (tcpService k.env d.globalSrcPort d.globalDstPort (d.withReads reads))

variable {k : TransportPacket} {t : Conversations}

theorem call_of_reply (h : k.IsReply) : k.call = none := by
  obtain ⟨hlen, htype⟩ := h
  simp [call, rpcCall, not_lt.mpr hlen, htype]

theorem decodes : k.Decodes t (k.state.setConversations t) (k.decode t) := by
  generalize hd : k.state.setConversations t = d
  have hconversations : d.conversations = t := by rw [← hd, setConversations_conversations]
  -- What `get_rpc` says, and what is left to do when it is no RPC packet.
  have hrest : ∀ rest : DecodeState → DecodeState, (k.isUdp = true ∨ k.known t = none) →
      (∀ reads, k.call = none → (k.IsReply → k.replyLabel t = none) →
        k.Decodes t d (rest (d.withReads reads))) →
      k.Decodes t d (if (getRpc k.isUdp d).1 then (getRpc k.isUdp d).2
        else rest (getRpc k.isUdp d).2) := by
    intro rest hnew hdecodes
    cases hcall : k.call with
    | some prog =>
        obtain ⟨reads, hrpc⟩ := getRpc_call (d := d) (by rw [← hd]; exact hcall)
        rw [hrpc]
        exact .call prog reads hnew hcall
    | none =>
        by_cases hreply : k.IsReply
        · obtain ⟨reads, hrpc⟩ := getRpc_reply (d := d) (by rw [← hd]; exact hreply)
          have hlabel : d.conversations.findConversation d.globalDstAddress d.globalDstAddress
              d.globalDstPort 0 = k.replyLabel t := by rw [← hd]; rfl
          rw [hlabel] at hrpc
          cases hfound : k.replyLabel t with
          | none =>
              rw [hrpc, hfound]
              exact hdecodes reads hcall fun _ => hfound
          | some prog =>
              rw [hrpc, hfound]
              exact .reply prog reads hnew hreply hfound
        · obtain ⟨reads, hrpc⟩ := getRpc_other (d := d) (by rw [← hd]; exact hcall)
            (by rw [← hd]; exact hreply)
          rw [hrpc]
          exact hdecodes reads hcall fun h => absurd h hreply
  unfold decode
  rw [hd]
  cases hudp : k.isUdp with
  | true =>
      have hdecodes := hrest (udpService k.env d.globalSrcPort d.globalDstPort) (Or.inl hudp)
        fun reads => .udp reads hudp
      rw [hudp] at hdecodes
      exact hdecodes
  | false =>
      have hlookup : d.conversations.findConversation d.globalSrcAddress d.globalDstAddress
          d.globalSrcPort d.globalDstPort = k.known t := by rw [← hd]; rfl
      simp only [Bool.false_eq_true, if_false, getTcpPayload, hlookup]
      cases hknown : k.known t with
      | some str => exact .known str hudp hknown
      | none =>
          have hdecodes := hrest (tcpService k.env d.globalSrcPort d.globalDstPort) (Or.inr hknown)
            fun reads => .tcp reads hudp hknown
          rw [hudp] at hdecodes
          exact hdecodes

/-- Decoding a packet stores what it asks to store. -/
theorem decode_conversations : (k.decode t).conversations = t.store (k.stores t) := by
  have hdecodes := k.decodes (t := t)
  generalize k.decode t = d' at hdecodes
  cases hdecodes with
  | known str htcp hknown => simp [stores, htcp, hknown, Conversations.store]
  | call prog reads hnew hcall =>
      have hstores : k.stores t = some (k.callConversation prog) := by
        rcases hnew with hudp | hknown
        · simp [stores, hudp, hcall]
        · cases hudp : k.isUdp <;> simp [stores, hudp, hknown, hcall]
      rw [hstores]
      exact addRpcConversation_eq
  | reply prog reads hnew hreply hlabel =>
      have hstores : k.stores t = none := by
        cases hudp : k.isUdp <;> simp [stores, hudp, call_of_reply hreply, hreply, hlabel]
      rw [hstores]
      rfl
  | udp reads hudp hcall hreply =>
      rw [udpService_conversations]
      simp [stores, hudp, hcall, Conversations.store]
  | tcp reads htcp hknown hcall hreply =>
      have hanswer : ¬(k.IsReply ∧ (k.replyLabel t).isSome) := by
        rintro ⟨h, hsome⟩
        rw [hreply h] at hsome
        cases hsome
      rw [tcpService_conversations]
      by_cases hftp : k.ReachesFtp
      · refine (if_pos hftp).trans ?_
        simp [stores, htcp, hknown, hcall, hanswer, hftp]
      · refine (if_neg hftp).trans ?_
        simp [stores, htcp, hknown, hcall, hftp, Conversations.store]

end TransportPacket

/-! ### Labels -/

/-- The packet is named `ONC-RPC`, and the program above it. -/
def Labelled (d d' : DecodeState) (prog : String) : Prop :=
  ∃ i j : Level, i.val = d.curLevel ∧ j.val = d.curLevel + 1 ∧
    d'.pr.protonames i = some "ONC-RPC" ∧ d'.pr.protonames j = some prog

theorem labelled_addRpcNames {d' : DecodeState} {s : String} (hlevel : d'.curLevel = d.curLevel) :
    Labelled d (addRpcNames d' s) prog ↔ d.curLevel < stackSize ∧ s = prog := by
  constructor
  · rintro ⟨i, j, hi, hj, _, hprog⟩
    have hroom : d.curLevel < stackSize := by
      have := j.isLt
      omega
    refine ⟨hroom, ?_⟩
    simpa [addRpcNames, hlevel, hroom, hroom.le, hj, Nat.succ_le_of_lt hroom] using hprog
  · rintro ⟨hroom, rfl⟩
    refine ⟨⟨d.curLevel, by omega⟩, ⟨d.curLevel + 1, by omega⟩, rfl, rfl, ?_, ?_⟩
    · simp [addRpcNames, hlevel, hroom.le, Nat.succ_le_of_lt hroom]
    · simp [addRpcNames, hlevel, hroom.le, Nat.succ_le_of_lt hroom]

theorem not_labelled_of_pr {d' : DecodeState} (h : StackShape d)
    (hpr : d'.pr = d.pr ∨ ∃ name, d'.pr = (d.decodeProtoAdd name).pr) : ¬Labelled d d' prog := by
  rintro ⟨i, j, hi, hj, _, hprog⟩
  have hnone : d.pr.protonames j = none := by
    rw [← Option.not_isSome_iff_eq_none, h.named j (by omega)]
    omega
  have hsame : d'.pr.protonames j = d.pr.protonames j := by
    rcases hpr with hpr | ⟨name, hpr⟩
    · rw [hpr]
    · rw [hpr, decodeProtoAdd_pr]
      split
      · exact if_neg (by omega)
      · rfl
  rw [hsame, hnone] at hprog
  cases hprog

theorem not_labelled_of_name {d' : DecodeState} (name : String) (hname : name ≠ "ONC-RPC")
    (hpr : d'.pr = (d.decodeProtoAdd name).pr ∨
      ∃ name', d'.pr = ((d.decodeProtoAdd name).decodeProtoAdd name').pr) :
    ¬Labelled d d' prog := by
  rintro ⟨i, j, hi, hj, hrpc, _⟩
  have hroom : d.curLevel ≤ stackSize := by
    have := i.isLt
    omega
  have hfirst : d'.pr.protonames i = some name := by
    rcases hpr with hpr | ⟨name', hpr⟩
    · rw [hpr]
      simp [hroom, hi]
    · rw [hpr]
      simp only [decodeProtoAdd_pr, decodeProtoAdd_curLevel, if_pos hroom]
      split
      · simp [hi]
      · simp [hi]
  rw [hfirst] at hrpc
  exact hname (Option.some.inj hrpc)

theorem addService_pr {groupUnk : Bool} {servicesFind : Nat → Option PortService}
    {unknown transport : String} {srcPort dstPort : Nat} :
    (addService groupUnk servicesFind unknown transport srcPort dstPort d).pr = d.pr ∨
      ∃ name, (addService groupUnk servicesFind unknown transport srcPort dstPort d).pr =
        (d.decodeProtoAdd name).pr := by
  unfold addService
  dsimp only
  split
  · split
    · exact Or.inr ⟨_, rfl⟩
    · split <;> exact Or.inr ⟨_, rfl⟩
  · split
    · exact Or.inr ⟨_, rfl⟩
    · exact Or.inl rfl

theorem getFtp_pr : (getFtp env d).pr = (d.decodeProtoAdd "FTP").pr := by
  obtain ⟨reads, hmatch⟩ := matchBytes_snd (d.decodeProtoAdd "FTP") 0 [50, 50, 55]
  unfold getFtp
  dsimp only [readBytes]
  rw [hmatch]
  split
  · rfl
  · split
    · rfl
    · split <;> rfl

theorem not_labelled_udpService {srcPort dstPort : Nat} {reads : List Access} (h : StackShape d) :
    ¬Labelled d (udpService env srcPort dstPort (d.withReads reads)) prog := by
  unfold udpService
  split
  · refine not_labelled_of_name "NETBIOS-DGM" (by decide) ?_
    unfold getNetbiosDgm
    dsimp only [readByte]
    split
    · exact Or.inr ⟨_, rfl⟩
    · exact Or.inl rfl
  · exact not_labelled_of_pr h addService_pr

theorem not_labelled_tcpService {srcPort dstPort : Nat} {reads : List Access} (h : StackShape d) :
    ¬Labelled d (tcpService env srcPort dstPort (d.withReads reads)) prog := by
  unfold tcpService
  split
  · refine not_labelled_of_name "NETBIOS-SSN" (by decide) ?_
    unfold getNetbiosSsn
    dsimp only [readByte]
    split
    · exact Or.inr ⟨_, rfl⟩
    · exact Or.inl rfl
  · split
    · exact not_labelled_of_pr h (Or.inr ⟨_, getFtp_pr⟩)
    · exact not_labelled_of_pr h addService_pr

namespace TransportPacket

variable {k : TransportPacket} {t : Conversations}

/-- Which replies are labelled, and how. -/
theorem reply_labelled_iff (h : k.IsReply) : Labelled k.state (k.decode t) prog ↔
    k.state.curLevel < stackSize ∧ (k.isUdp = true ∨ k.known t = none) ∧
      k.replyLabel t = some prog := by
  have hshape : StackShape (k.state.setConversations t) :=
    ⟨k.shape.pos, k.shape.le, k.shape.named, k.shape.topmost⟩
  change Labelled (k.state.setConversations t) (k.decode t) prog ↔ _
  have hdecodes := k.decodes (t := t)
  generalize k.decode t = d' at hdecodes
  cases hdecodes with
  | known str htcp hknown =>
      refine iff_of_false (not_labelled_of_pr hshape (Or.inr ⟨str, rfl⟩)) ?_
      simp [htcp, hknown]
  | call prog' reads hnew hcall =>
      rw [call_of_reply h] at hcall
      cases hcall
  | reply prog' reads hnew _ hlabel =>
      refine (labelled_addRpcNames rfl).trans ?_
      simp [hnew, hlabel]
  | udp reads hudp _ hreply =>
      refine iff_of_false (not_labelled_udpService hshape) ?_
      simp [hreply h]
  | tcp reads htcp _ _ hreply =>
      refine iff_of_false (not_labelled_tcpService hshape) ?_
      simp [hreply h]

end TransportPacket

/-! ### Runs -/

/-- Packets decoded one after the other from no known conversation on, with the table before each. -/
inductive TransportRun : List (Conversations × TransportPacket) → Conversations → Prop
  | start : TransportRun [] Conversations.empty
  | packet {past : List (Conversations × TransportPacket)} {t : Conversations}
      (h : TransportRun past t) (k : TransportPacket) :
      TransportRun (past ++ [(t, k)]) (k.decode t).conversations

/-- What a packet would store for a host: the program of a call of it, or a passive reply of it to
itself. A call on TCP is not heard when a known conversation has both of its ends. -/
def TransportPacket.heard (k : TransportPacket) (t : Conversations) (host : Address) :
    Option String :=
  (k.stores t).bind fun c => if c.srcAddress = host ∧ c.dstAddress = host then some c.data else none

/-- What was heard first from a host. -/
def firstHeard (past : List (Conversations × TransportPacket)) (host : Address) : Option String :=
  past.findSome? fun x => x.2.heard x.1 host

/-- The program of the first call from a host and port. -/
def firstCall (past : List (Conversations × TransportPacket)) (host : Address) (port : Nat) :
    Option String :=
  past.findSome? fun x =>
    if x.2.state.globalSrcAddress = host ∧ x.2.state.globalSrcPort = port then x.2.call else none

variable {k : TransportPacket} {t : Conversations} {past : List (Conversations × TransportPacket)}

theorem TransportPacket.stores_dstPort {c : Conversation} (h : k.stores t = some c) :
    c.dstPort = 0 := by
  unfold TransportPacket.stores at h
  split at h
  · obtain ⟨prog, _, rfl⟩ := Option.map_eq_some_iff.mp h
    rfl
  · split at h
    · cases h
    · split at h
      · obtain rfl := Option.some.inj h
        rfl
      · split at h
        · cases h
        · obtain ⟨port, _, rfl⟩ := Option.map_eq_some_iff.mp h
          rfl

theorem TransportRun.dstPort (h : TransportRun past t) : ∀ c ∈ t.items, c.dstPort = 0 := by
  induction h with
  | start => simp [Conversations.empty]
  | @packet past t _ k ih =>
      rw [TransportPacket.decode_conversations]
      cases hstores : k.stores t with
      | none => exact ih
      | some c =>
          simp only [Conversations.store, Conversations.addConversation]
          split
          · exact ih
          · exact List.forall_mem_cons.mpr ⟨TransportPacket.stores_dstPort hstores, ih⟩

theorem convMatches_host {host : Address} {port : Nat} {c : Conversation} (hc : c.dstPort = 0) :
    Conversations.convMatches host host port 0 c ↔ c.srcAddress = host ∧ c.dstAddress = host := by
  simp only [Conversations.convMatches, Address.isAddrEq_iff, Conversations.portMatches, hc]
  constructor
  · rintro (⟨rfl, hdst, _⟩ | ⟨rfl, hsrc, _⟩)
    · exact ⟨rfl, hdst.symm⟩
    · exact ⟨hsrc.symm, rfl⟩
  · rintro ⟨rfl, hdst⟩
    exact Or.inr ⟨hdst.symm, rfl, Or.inr (Or.inl trivial), Or.inl trivial⟩

/-- A packet adds what is heard from a host, if nothing was heard from it before. -/
theorem findConversation_decode (ht : ∀ c ∈ t.items, c.dstPort = 0) (host : Address) (port : Nat) :
    (k.decode t).conversations.findConversation host host port 0 =
      (t.findConversation host host port 0).or (k.heard t host) := by
  rw [TransportPacket.decode_conversations, TransportPacket.heard]
  cases hstores : k.stores t with
  | none => simp [Conversations.store]
  | some c =>
      have hc := TransportPacket.stores_dstPort hstores
      simp only [Conversations.store, Option.bind_some]
      unfold Conversations.addConversation
      by_cases hhost : c.srcAddress = host ∧ c.dstAddress = host
      · rw [if_pos hhost]
        obtain ⟨hsrc, hdst⟩ := hhost
        -- A lookup with the port of the new conversation finds the same as one with any other.
        have hsame : t.findConversation c.srcAddress c.dstAddress c.srcPort c.dstPort =
            t.findConversation host host port 0 := by
          rw [hsrc, hdst, hc, Conversations.findConversation, Conversations.findConversation,
            Conversations.findConversationPtr, Conversations.findConversationPtr]
          congr 1
          refine List.find?_congr fun c' hc' => decide_eq_decide.mpr ?_
          rw [convMatches_host (ht c' hc'), convMatches_host (ht c' hc')]
        rw [hsame]
        cases hfound : t.findConversation host host port 0 with
        | some s => exact hfound
        | none =>
            have hmatch : Conversations.convMatches host host port 0 c :=
              (convMatches_host hc).mpr ⟨hsrc, hdst⟩
            simp [Conversations.findConversation, Conversations.findConversationPtr, hmatch]
      · rw [if_neg hhost, Option.or_none]
        split
        · rfl
        · have hmatch : ¬Conversations.convMatches host host port 0 c :=
            fun hmatch => hhost ((convMatches_host hc).mp hmatch)
          simp [Conversations.findConversation, Conversations.findConversationPtr, hmatch]

/-- The lookup for a host finds what was heard first from it, whatever the port. -/
theorem TransportRun.findConversation_eq (h : TransportRun past t) (host : Address) (port : Nat) :
    t.findConversation host host port 0 = firstHeard past host := by
  induction h with
  | start => rfl
  | packet h k ih =>
      rw [findConversation_decode h.dstPort, ih, firstHeard, firstHeard, List.findSome?_append]
      congr 1
      simp

theorem TransportRun.of_append {before after : List (Conversations × TransportPacket)}
    {t' : Conversations} (h : TransportRun (before ++ (t, k) :: after) t') :
    TransportRun before t := by
  generalize hpast : before ++ (t, k) :: after = past at h
  induction h generalizing after with
  | start => simp at hpast
  | @packet past t₀ h k₀ ih =>
      rcases List.eq_nil_or_concat after with rfl | ⟨after, x, rfl⟩
      · obtain ⟨rfl, hlast⟩ := List.append_inj' hpast rfl
        obtain ⟨rfl, rfl⟩ := Prod.mk.inj (List.cons.inj hlast).1
        exact h
      · rw [List.concat_eq_append, ← List.cons_append, ← List.append_assoc] at hpast
        exact ih (List.append_inj' hpast rfl).1

/-- A reply is labelled with the program of the first call from the host and port it goes to. -/
def LabelsReply (past : List (Conversations × TransportPacket)) (t : Conversations)
    (k : TransportPacket) : Prop :=
  k.IsReply → ∀ prog, firstCall past k.state.globalDstAddress k.state.globalDstPort = some prog →
    Labelled k.state (k.decode t) prog

/-- The program of that call was what was heard first from the host, no known conversation has both
ends of a reply on TCP, and the stack has room for two names. -/
def HeardFirst (past : List (Conversations × TransportPacket)) (t : Conversations)
    (k : TransportPacket) : Prop :=
  k.IsReply → ∀ prog, firstCall past k.state.globalDstAddress k.state.globalDstPort = some prog →
    firstHeard past k.state.globalDstAddress = some prog ∧
      (k.isUdp = true ∨ k.known t = none) ∧ k.state.curLevel < stackSize

theorem TransportRun.labelsReply_iff (h : TransportRun past t) :
    LabelsReply past t k ↔ HeardFirst past t k := by
  refine forall_congr' fun hreply => forall₂_congr fun prog _ => ?_
  rw [TransportPacket.reply_labelled_iff hreply, TransportPacket.replyLabel, h.findConversation_eq]
  tauto

/-- **Replies.** In a run all replies are labelled with the program of the first call from where they
go to just when for each of them that program is what was heard first from the host. -/
theorem run_replies_labelled_iff (h : TransportRun past t) :
    (∀ before x after, past = before ++ x :: after → LabelsReply before x.1 x.2) ↔
      ∀ before x after, past = before ++ x :: after → HeardFirst before x.1 x.2 := by
  refine forall₃_congr fun before x after => forall_congr' fun hpast => ?_
  obtain ⟨t₀, k₀⟩ := x
  rw [hpast] at h
  exact h.of_append.labelsReply_iff

/-! ### Two calls of one host -/

/-- The first 24 bytes of a message over UDP, with `program` for the last byte of its program. -/
def rpcMessage (msgType program : UInt8) : List UInt8 :=
  [0, 0, 0, 1, 0, 0, 0, msgType, 0, 0, 0, 2, 0, 1, 0x86, program, 0, 0, 0, 2, 0, 0, 0, 0]

/-- A message in UDP over IP on an Ethernet. -/
def udpMessage (message : List UInt8) (src dst : Address) (srcPort dstPort : Nat) :
    TransportPacket where
  isUdp := true
  env := DecodeEnv.bare (linktypeAt ⟨0, by decide⟩) .ip
  state := (((((decodeProtoStart (fun i => message.getD i 0) message.length Conversations.empty
    none).decodeProtoAdd "ETH_II").decodeProtoAdd "IP").decodeProtoAdd
      "UDP").setGlobalAddresses src dst).setGlobalPorts srcPort dstPort
  shape := preserved_stackShape.setGlobalPorts (preserved_stackShape.setGlobalAddresses
    ((((stackShape_start _ _ _ _).decodeProtoAdd _).decodeProtoAdd _).decodeProtoAdd _))

def rpcClient : Address := (Address.clear.setType afInet).setAddr 4 fun _ => 10

def rpcServer : Address := (Address.clear.setType afInet).setAddr 4 fun _ => 20

/-- The client calls NFS from port 1000. -/
def nfsCall : TransportPacket := udpMessage (rpcMessage 0 0xa3) rpcClient rpcServer 1000 2049

/-- The client calls the port mapper from port 1001. -/
def portmapCall : TransportPacket := udpMessage (rpcMessage 0 0xa0) rpcClient rpcServer 1001 111

/-- The port mapper replies to port 1001. -/
def portmapReply : TransportPacket := udpMessage (rpcMessage 1 0) rpcServer rpcClient 111 1001

def nfsReply : TransportPacket := udpMessage (rpcMessage 1 0) rpcServer rpcClient 2049 1000

def afterNfsCall : Conversations := (nfsCall.decode Conversations.empty).conversations

def afterBothCalls : Conversations := (portmapCall.decode afterNfsCall).conversations

theorem nfsCall_call : nfsCall.call = some "NFS" := by decide +kernel

theorem firstHeard_nfsCall (past : List (Conversations × TransportPacket)) :
    firstHeard ((Conversations.empty, nfsCall) :: past) rpcClient = some "NFS" := by
  have hstores : nfsCall.stores Conversations.empty = nfsCall.call.map nfsCall.callConversation :=
    if_pos rfl
  have hsrc : nfsCall.state.globalSrcAddress = rpcClient := rfl
  have hheard : nfsCall.heard Conversations.empty rpcClient = some "NFS" := by
    rw [TransportPacket.heard, hstores, nfsCall_call]
    simp [TransportPacket.callConversation, hsrc]
  simp [firstHeard, hheard]

theorem firstCall_nfsCall (past : List (Conversations × TransportPacket)) :
    firstCall ((Conversations.empty, nfsCall) :: past) rpcClient 1000 = some "NFS" := by
  have hsrc : nfsCall.state.globalSrcAddress = rpcClient := rfl
  have hport : nfsCall.state.globalSrcPort = 1000 := rfl
  simp [firstCall, nfsCall_call, hsrc, hport]

theorem run_replies_labelled_iff_nfsReply :
    (∃ t, TransportRun [(Conversations.empty, nfsCall), (afterNfsCall, nfsReply)] t) ∧
      ∀ before x after,
        [(Conversations.empty, nfsCall), (afterNfsCall, nfsReply)] = before ++ x :: after →
          LabelsReply before x.1 x.2 := by
  have hrun : TransportRun [(Conversations.empty, nfsCall), (afterNfsCall, nfsReply)] _ :=
    (TransportRun.start.packet nfsCall).packet nfsReply
  refine ⟨⟨_, hrun⟩, (run_replies_labelled_iff hrun).mpr fun before x after h => ?_⟩
  match before, h with
  | [], h =>
      obtain rfl := (List.cons.inj h).1
      intro hreply
      exact absurd hreply (by decide +kernel)
  | [y], h =>
      obtain ⟨rfl, htail⟩ := List.cons.inj h
      obtain rfl := (List.cons.inj htail).1
      intro _ prog hfirst
      have hdst : nfsReply.state.globalDstAddress = rpcClient := rfl
      have hport : nfsReply.state.globalDstPort = 1000 := rfl
      rw [hdst, hport, firstCall_nfsCall] at hfirst
      rw [hdst, firstHeard_nfsCall]
      exact ⟨hfirst, Or.inl rfl, by decide +kernel⟩
  | y :: z :: before, h => simp at h

theorem transportRun_bothCalls :
    TransportRun [(Conversations.empty, nfsCall), (afterNfsCall, portmapCall)] afterBothCalls :=
  (TransportRun.start.packet nfsCall).packet portmapCall

theorem firstCall_portmapCall :
    firstCall [(Conversations.empty, nfsCall), (afterNfsCall, portmapCall)] rpcClient 1001 =
      some "PORTMAP" := by
  have hcall : portmapCall.call = some "PORTMAP" := by decide +kernel
  have hports : nfsCall.state.globalSrcPort = 1000 ∧ portmapCall.state.globalSrcPort = 1001 :=
    ⟨rfl, rfl⟩
  have hsrc : portmapCall.state.globalSrcAddress = rpcClient := rfl
  simp [firstCall, hcall, hports, hsrc]

/-- The reply of the port mapper gets the name of the other program. -/
theorem portmapReply_mislabelled : ¬∀ past t, TransportRun past t →
    ∀ before x after, past = before ++ x :: after → LabelsReply before x.1 x.2 := by
  intro hlabels
  have hreply : LabelsReply _ afterBothCalls portmapReply :=
    hlabels _ _ (transportRun_bothCalls.packet portmapReply) _ _ [] rfl
  have hdst : portmapReply.state.globalDstAddress = rpcClient := rfl
  have hfirst := transportRun_bothCalls.labelsReply_iff.mp hreply (by decide +kernel) "PORTMAP"
    firstCall_portmapCall
  rw [hdst, firstHeard_nfsCall] at hfirst
  exact absurd (Option.some.inj hfirst.1) (by decide)

/-! ### Whole packets -/

/-- The state when the ports at the start of a transport header are known. -/
def transportHeader (env : DecodeEnv) (name : String) (d : DecodeState) : DecodeState :=
  setTcpNodeIds env ((((d.decodeProtoAdd name).touch 0 2).touch 2 2).setGlobalPorts
    (d.window.u16 0) (d.window.u16 2))

section TransportHeader

variable (env : DecodeEnv) (name : String) (d : DecodeState)

theorem transportHeader_window : (transportHeader env name d).window = d.window :=
  setTcpNodeIds_window env _

theorem transportHeader_conversations :
    (transportHeader env name d).conversations = d.conversations :=
  setTcpNodeIds_conversations env _

theorem transportHeader_globalSrcAddress :
    (transportHeader env name d).globalSrcAddress = d.globalSrcAddress :=
  setTcpNodeIds_globalSrcAddress env _

theorem transportHeader_globalDstAddress :
    (transportHeader env name d).globalDstAddress = d.globalDstAddress :=
  setTcpNodeIds_globalDstAddress env _

theorem transportHeader_globalSrcPort :
    (transportHeader env name d).globalSrcPort = d.window.u16 0 := by
  unfold transportHeader setTcpNodeIds
  split <;> rfl

theorem transportHeader_globalDstPort :
    (transportHeader env name d).globalDstPort = d.window.u16 2 := by
  unfold transportHeader setTcpNodeIds
  split <;> rfl

theorem StackShape.transportHeader (h : StackShape d) : StackShape (transportHeader env name d) :=
  preserved_stackShape.setTcpNodeIds (preserved_stackShape.setGlobalPorts
    (preserved_stackShape.touch (preserved_stackShape.touch (h.decodeProtoAdd name))))

theorem getTcp_eq : getTcp env d = getTcpPayload env (d.window.u16 0) (d.window.u16 2)
    (((EtherApe.transportHeader env "TCP" d).touch 12 1).addOffset
      ((d.window.get 12).toNat / 16 * 4)) := by
  unfold getTcp EtherApe.transportHeader
  simp only [pntohs, readByte, decodeProtoAdd_window, touch_window, setTcpNodeIds_window,
    setGlobalPorts_window]

theorem getUdp_eq : getUdp env d = getUdpPayload env (d.window.u16 0) (d.window.u16 2)
    ((EtherApe.transportHeader env "UDP" d).addOffset 8) := rfl

end TransportHeader

/-- The packet is behind the transport header at `d.window`, which is `hdrLen` bytes long. -/
structure TransportPacket.Behind (k : TransportPacket) (env : DecodeEnv) (d : DecodeState)
    (hdrLen : Nat) : Prop where
  env : k.env = env
  window : k.state.window = d.window.advance hdrLen
  srcAddress : k.state.globalSrcAddress = d.globalSrcAddress
  dstAddress : k.state.globalDstAddress = d.globalDstAddress
  srcPort : k.state.globalSrcPort = d.window.u16 0
  dstPort : k.state.globalDstPort = d.window.u16 2

theorem decode_eq (env : DecodeEnv) (isUdp : Bool) (h : StackShape d) :
    (⟨isUdp, env, d, h⟩ : TransportPacket).decode d.conversations =
      if isUdp then getUdpPayload env d.globalSrcPort d.globalDstPort d
      else getTcpPayload env d.globalSrcPort d.globalDstPort d := rfl

theorem getTcp_eq_decode (env : DecodeEnv) (h : StackShape d) :
    ∃ k : TransportPacket, getTcp env d = k.decode d.conversations ∧ k.isUdp = false ∧
      k.Behind env d ((d.window.get 12).toNat / 16 * 4) := by
  have hpayload : StackShape (((transportHeader env "TCP" d).touch 12 1).addOffset
      ((d.window.get 12).toNat / 16 * 4)) :=
    preserved_stackShape.addOffset (preserved_stackShape.touch (h.transportHeader env "TCP"))
  refine ⟨⟨false, env, _, hpayload⟩, ?_, rfl, rfl, ?_, transportHeader_globalSrcAddress env "TCP" d,
    transportHeader_globalDstAddress env "TCP" d, transportHeader_globalSrcPort env "TCP" d,
    transportHeader_globalDstPort env "TCP" d⟩
  · have hdecode := decode_eq env false hpayload
    rw [addOffset_conversations, touch_conversations, transportHeader_conversations] at hdecode
    rw [hdecode, getTcp_eq, if_neg Bool.false_ne_true, addOffset_globalSrcPort,
      touch_globalSrcPort, addOffset_globalDstPort, touch_globalDstPort,
      transportHeader_globalSrcPort, transportHeader_globalDstPort]
  · rw [addOffset_window, touch_window, transportHeader_window]

theorem getUdp_eq_decode (env : DecodeEnv) (h : StackShape d) :
    ∃ k : TransportPacket, getUdp env d = k.decode d.conversations ∧ k.isUdp = true ∧
      k.Behind env d 8 := by
  have hpayload : StackShape ((transportHeader env "UDP" d).addOffset 8) :=
    preserved_stackShape.addOffset (h.transportHeader env "UDP")
  refine ⟨⟨true, env, _, hpayload⟩, ?_, rfl, rfl, ?_, transportHeader_globalSrcAddress env "UDP" d,
    transportHeader_globalDstAddress env "UDP" d, transportHeader_globalSrcPort env "UDP" d,
    transportHeader_globalDstPort env "UDP" d⟩
  · have hdecode := decode_eq env true hpayload
    rw [addOffset_conversations, transportHeader_conversations] at hdecode
    rw [hdecode, getUdp_eq, if_pos rfl, addOffset_globalSrcPort, addOffset_globalDstPort,
      transportHeader_globalSrcPort, transportHeader_globalDstPort]
  · rw [addOffset_window, transportHeader_window]

/-- The table of the state is the table after a run that goes on from `past`. -/
def Continues (past : List (Conversations × TransportPacket)) (d : DecodeState) : Prop :=
  ∃ more, TransportRun (past ++ more) d.conversations

theorem Continues.packet (h : Continues past d) (k : TransportPacket) :
    Continues past (k.decode d.conversations) := by
  obtain ⟨more, hrun⟩ := h
  refine ⟨more ++ [(d.conversations, k)], ?_⟩
  rw [← List.append_assoc]
  exact hrun.packet k

theorem networkPreserved_continues (past : List (Conversations × TransportPacket)) :
    NetworkPreserved fun d => StackShape d ∧ Continues past d where
  decodeProtoAdd h := ⟨h.1.decodeProtoAdd _, h.2⟩
  touch h := ⟨preserved_stackShape.touch h.1, h.2⟩
  addOffset h := ⟨preserved_stackShape.addOffset h.1, h.2⟩
  setSrcNodeId h := ⟨preserved_stackShape.setSrcNodeId h.1, h.2⟩
  setDstNodeId h := ⟨preserved_stackShape.setDstNodeId h.1, h.2⟩
  setGlobalAddresses h := ⟨preserved_stackShape.setGlobalAddresses h.1, h.2⟩
  setPphLkentry h := ⟨preserved_stackShape.setPphLkentry h.1, h.2⟩
  getTcp := by
    rintro env d ⟨hshape, hcontinues⟩
    obtain ⟨k, hk, _⟩ := getTcp_eq_decode env hshape
    refine ⟨preserved_stackShape.getTcp hshape, ?_⟩
    rw [hk]
    exact hcontinues.packet k
  getUdp := by
    rintro env d ⟨hshape, hcontinues⟩
    obtain ⟨k, hk, _⟩ := getUdp_eq_decode env hshape
    refine ⟨preserved_stackShape.getUdp hshape, ?_⟩
    rw [hk]
    exact hcontinues.packet k

/-- Decoding a captured packet goes on with the run: what it does above the transport layer are
packets of a run. -/
theorem getPacketProt_continues (h : TransportRun past t) (env : DecodeEnv) (calls : Nat)
    (bytes : Nat → UInt8) (caplen : Nat) (pphLkentry : Option Linktype) :
    Continues past
      (getPacketProt env calls (decodeProtoStart bytes caplen t pphLkentry)).state := by
  have hstart : StackShape (decodeProtoStart bytes caplen t pphLkentry) ∧
      Continues past (decodeProtoStart bytes caplen t pphLkentry) :=
    ⟨stackShape_start bytes caplen t pphLkentry, [], by rwa [List.append_nil]⟩
  obtain ⟨-, hcall⟩ : StackShape (env.lkentry.val.getFun.call env (getPpi env calls)
      (decodeProtoStart bytes caplen t pphLkentry)).state ∧ Continues past _ :=
    (networkPreserved_continues past).call (fun _ => (networkPreserved_continues past).getPpi) hstart
  unfold getPacketProt
  cases hout : env.lkentry.val.getFun.call env (getPpi env calls)
      (decodeProtoStart bytes caplen t pphLkentry) with
  | finished d =>
      rw [hout] at hcall
      obtain ⟨more, hrun⟩ := hcall
      refine ⟨more, ?_⟩
      change TransportRun _ (copyTopmost d).conversations
      rwa [copyTopmost_conversations]
  | unfinished d =>
      rwa [hout] at hcall

end EtherApe
