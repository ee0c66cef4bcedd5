import EtherApe.DecodeProto.Replies

/-!
# The labels of passive transfers

A passive reply of an FTP server names a port in two numbers, and the decoder stores a conversation
between that port, cut to 16 bits, and any port of the client. When the two numbers are an exact port
and not zero, only segments of that port are labelled by it; a port that comes out as zero stands for
any port, and all that the two hosts send each other gets the label.
-/

namespace EtherApe

open DecodeState

/-! ### Announcements -/

/-- The two numbers of a passive reply, from its sixth and seventh token. -/
def ftpNumbers (mesg : List UInt8) : Option (Int × Int) := do
  let hi ← (ftpTokens mesg)[5]?
  let low ← (ftpTokens mesg)[6]?
  match scanInt hi, scanInt low with
  | .number p₁, .number p₂ => some (p₁, p₂)
  | _, _ => none

/-- The port that is stored is the one that is announced, cut to 16 bits. -/
theorem ftpServerPort_of_numbers {env : DecodeEnv} {mesg : List UInt8} {p : Int × Int}
    (h : ftpNumbers mesg = some p) {port : Nat} (hport : ftpServerPort env mesg = some port) :
    (port : Int) = (p.1 * 256 + p.2) % 65536 := by
  simp only [ftpNumbers, Option.bind_eq_bind, Option.bind_eq_some_iff] at h
  obtain ⟨hi, hhi, low, hlow, h⟩ := h
  split at h
  next p₁ p₂ hscan₁ hscan₂ =>
    obtain rfl := Option.some.inj h
    simp only [ftpServerPort, Option.bind_eq_bind, hhi, hlow, Option.bind_some, hscan₁, hscan₂,
      scannedValue] at hport
    have hcut := Option.some.inj hport
    omega
  next => cases h

namespace TransportPacket

/-- The port that a passive reply announces, as an exact number. -/
def announced (k : TransportPacket) : Option Int :=
  if 3 ≤ k.state.window.len ∧ k.state.window.hasBytes 0 [50, 50, 55] then
    (ftpNumbers ((List.range k.state.window.len).map fun j => k.state.window.get (0 + j))).map
      fun p => p.1 * 256 + p.2
  else none

def PlainTcp (k : TransportPacket) : Prop := k.isUdp = false ∧ k.call = none ∧ ¬k.IsReply

/-- A conversation that the segment asks to store is for the port it announces, which is the number
of a port. -/
def AnnouncesPort (k : TransportPacket) (t : Conversations) : Prop :=
  (k.stores t).isSome → ∃ p, k.announced = some p ∧ 0 < p ∧ p < 65536

/-- No service has the name that passive transfers get. -/
def ServicesApart (k : TransportPacket) : Prop :=
  ∀ port service, k.env.servicesTcpFind port = some service → service.name ≠ "FTP-PASSIVE"

/-- The segment gets the name above its transport header. -/
def LabelledPassive (k : TransportPacket) (t : Conversations) : Prop :=
  ∃ i : Level, k.state.curLevel ≤ i.val ∧ (k.decode t).pr.protonames i = some "FTP-PASSIVE"

/-- The segment is between the hosts of the announcement, and goes through the port on the side of
the host that announced it. -/
def UsesPort (k announcement : TransportPacket) (p : Int) : Prop :=
  (k.state.globalSrcAddress = announcement.state.globalSrcAddress ∧
      k.state.globalDstAddress = announcement.state.globalDstAddress ∧
      (k.state.globalSrcPort : Int) = p) ∨
    (k.state.globalSrcAddress = announcement.state.globalDstAddress ∧
      k.state.globalDstAddress = announcement.state.globalSrcAddress ∧
      (k.state.globalDstPort : Int) = p)

variable {k : TransportPacket} {t : Conversations}

theorem plainTcp_of_short (htcp : k.isUdp = false) (hlen : k.state.window.len < 24) : k.PlainTcp :=
  ⟨htcp, if_pos hlen, fun h => absurd h.1 (not_le.mpr hlen)⟩

theorem PlainTcp.stores (hk : k.PlainTcp) {c : Conversation} (h : k.stores t = some c) :
    ∃ port, ftpPassive k.env k.state.window = some port ∧
      c = ⟨k.state.globalSrcAddress, k.state.globalDstAddress, port, 0, "FTP-PASSIVE"⟩ := by
  obtain ⟨htcp, hcall, _⟩ := hk
  simp only [TransportPacket.stores, htcp, hcall, Bool.false_eq_true, if_false] at h
  split at h
  · cases h
  · split at h
    · cases h
    · obtain ⟨port, hport, rfl⟩ := Option.map_eq_some_iff.mp h
      exact ⟨port, hport, rfl⟩

theorem ftpPassive_of_announced {p : Int} (h : k.announced = some p) (hlow : 0 < p)
    (hhigh : p < 65536) {port : Nat} (hport : ftpPassive k.env k.state.window = some port) :
    (port : Int) = p := by
  unfold announced at h
  split at h
  next hpassive =>
    obtain ⟨numbers, hnumbers, rfl⟩ := Option.map_eq_some_iff.mp h
    rw [ftpPassive, if_neg (not_lt.mpr hpassive.1), if_pos hpassive.2] at hport
    have hcut := ftpServerPort_of_numbers hnumbers hport
    omega
  next => cases h

end TransportPacket

/-! ### Labels of other traffic -/

section Labels

variable {d : DecodeState} {env : DecodeEnv} {i : Level} {s : String}

theorem protonames_decodeProtoAdd_ne {name : String} (hname : name ≠ s)
    (h : d.pr.protonames i ≠ some s) : (d.decodeProtoAdd name).pr.protonames i ≠ some s := by
  rw [decodeProtoAdd_pr]
  split
  · dsimp only
    split
    · exact fun heq => hname (Option.some.inj heq)
    · exact h
  · exact h

theorem chosenService_eq (srcService dstService : Option PortService) (srcPort chosenPort : Nat) :
    chosenService srcService dstService srcPort chosenPort = srcService ∨
      chosenService srcService dstService srcPort chosenPort = dstService := by
  unfold chosenService
  dsimp only
  split_ifs <;> simp

theorem addService_passive {srcPort dstPort : Nat}
    (hservices : ∀ port service, env.servicesTcpFind port = some service →
      service.name ≠ "FTP-PASSIVE") (h : d.pr.protonames i ≠ some "FTP-PASSIVE") :
    (addService env.groupUnk env.servicesTcpFind "TCP-UNKNOwN" "TCP" srcPort dstPort d).pr.protonames
      i ≠ some "FTP-PASSIVE" := by
  have hunknown : ∀ rest : String, "TCP" ++ rest ≠ "FTP-PASSIVE" := by
    intro rest heq
    have hchars := congrArg String.toList heq
    rw [String.toList_append] at hchars
    exact absurd (List.cons.inj hchars).1 (by decide)
  unfold addService
  dsimp only
  split
  · split
    · exact protonames_decodeProtoAdd_ne (by decide) h
    · split
      · rw [String.append_assoc, String.append_assoc, String.append_assoc]
        exact protonames_decodeProtoAdd_ne (hunknown _) h
      · rw [String.append_assoc, String.append_assoc, String.append_assoc]
        exact protonames_decodeProtoAdd_ne (hunknown _) h
  · split
    next service hchosen =>
      refine protonames_decodeProtoAdd_ne ?_ h
      cases chosenService_eq (env.servicesTcpFind srcPort) (env.servicesTcpFind dstPort) srcPort
        (choosePort srcPort dstPort) with
      | inl hsrc => exact hservices srcPort service (hsrc.symm.trans hchosen)
      | inr hdst => exact hservices dstPort service (hdst.symm.trans hchosen)
    next => exact h

theorem tcpService_passive {srcPort dstPort : Nat}
    (hservices : ∀ port service, env.servicesTcpFind port = some service →
      service.name ≠ "FTP-PASSIVE") (h : d.pr.protonames i ≠ some "FTP-PASSIVE") :
    (tcpService env srcPort dstPort d).pr.protonames i ≠ some "FTP-PASSIVE" := by
  unfold tcpService
  split
  · have hssn : (d.decodeProtoAdd "NETBIOS-SSN").pr.protonames i ≠ some "FTP-PASSIVE" :=
      protonames_decodeProtoAdd_ne (by decide) h
    unfold getNetbiosSsn
    dsimp only [readByte]
    split
    · exact protonames_decodeProtoAdd_ne (by decide) hssn
    · exact hssn
  · split
    · rw [getFtp_pr]
      exact protonames_decodeProtoAdd_ne (by decide) h
    · exact addService_passive hservices h

end Labels

theorem TransportPacket.LabelledPassive.known {k : TransportPacket} {t : Conversations}
    (h : k.LabelledPassive t) (hk : k.PlainTcp) (hservices : k.ServicesApart) :
    k.known t = some "FTP-PASSIVE" := by
  obtain ⟨htcp, hcall, hreply⟩ := hk
  obtain ⟨i, hi, hname⟩ := h
  have hnone : k.state.pr.protonames i ≠ some "FTP-PASSIVE" := by
    intro hsome
    have hnamed := (k.shape.named i (k.shape.pos.trans hi)).mp (Option.isSome_of_eq_some hsome)
    exact absurd hi (not_le.mpr hnamed)
  have hdecodes := k.decodes (t := t)
  generalize k.decode t = d' at hname hdecodes
  cases hdecodes with
  | known str _ hknown =>
      rw [hknown]
      by_contra hother
      have hstr : str ≠ "FTP-PASSIVE" := fun heq => hother (congrArg some heq)
      exact protonames_decodeProtoAdd_ne hstr hnone hname
  | call prog reads _ hcall' => exact absurd (hcall.symm.trans hcall') (by simp)
  | reply prog reads _ hreply' _ => exact absurd hreply' hreply
  | udp reads hudp _ _ => exact absurd (htcp.symm.trans hudp) (by simp)
  | tcp reads _ _ _ _ => exact absurd hname (tcpService_passive hservices hnone)

/-! ### Runs -/

variable {past : List (Conversations × TransportPacket)} {t : Conversations}

/-- Every conversation comes from the announcement of its port. -/
def AllAnnounced (past : List (Conversations × TransportPacket)) (t : Conversations) : Prop :=
  ∀ c ∈ t.items, ∃ x ∈ past, ∃ p, x.2.announced = some p ∧ 0 < p ∧ (c.srcPort : Int) = p ∧
    c.srcAddress = x.2.state.globalSrcAddress ∧ c.dstAddress = x.2.state.globalDstAddress

theorem TransportRun.announced (h : TransportRun past t)
    (hplain : ∀ x ∈ past, x.2.PlainTcp ∧ x.2.AnnouncesPort x.1) : AllAnnounced past t := by
  induction h with
  | start => simp [AllAnnounced, Conversations.empty]
  | @packet past t _ k ih =>
      have hbefore := ih fun x hx => hplain x (List.mem_append_left _ hx)
      obtain ⟨hk, hport⟩ := hplain (t, k) (by simp)
      have hold : ∀ c ∈ t.items, ∃ x ∈ past ++ [(t, k)], ∃ p, x.2.announced = some p ∧ 0 < p ∧
          (c.srcPort : Int) = p ∧ c.srcAddress = x.2.state.globalSrcAddress ∧
          c.dstAddress = x.2.state.globalDstAddress := by
        intro c hc
        obtain ⟨x, hx, hfrom⟩ := hbefore c hc
        exact ⟨x, List.mem_append_left _ hx, hfrom⟩
      rw [AllAnnounced, TransportPacket.decode_conversations]
      cases hstores : k.stores t with
      | none => exact hold
      | some c =>
          obtain ⟨port, hpassive, rfl⟩ := hk.stores hstores
          obtain ⟨p, hp, hlow, hhigh⟩ := hport (Option.isSome_of_eq_some hstores)
          have hsame := TransportPacket.ftpPassive_of_announced hp hlow hhigh hpassive
          simp only [Conversations.store, Conversations.addConversation]
          split
          · exact hold
          · exact List.forall_mem_cons.mpr
              ⟨⟨(t, k), by simp, p, hp, hlow, hsame, rfl, rfl⟩, hold⟩

/-- **Passive transfers.** In a run of TCP segments that are no RPC messages, if every port that is
stored is announced as the number of a port and no service is called by the label, then a segment
between known ports that is labelled a passive transfer goes through a port that one of its hosts
announced to the other before. -/
theorem run_passive_announced (h : TransportRun past t) (hplain : ∀ x ∈ past, x.2.PlainTcp)
    (hexact : ∀ x ∈ past, x.2.AnnouncesPort x.1 ∧ x.2.ServicesApart) :
    ∀ before x after, past = before ++ x :: after → x.2.state.globalSrcPort ≠ 0 →
      x.2.state.globalDstPort ≠ 0 → x.2.LabelledPassive x.1 →
      ∃ y ∈ before, ∃ p, y.2.announced = some p ∧ x.2.UsesPort y.2 p := by
  intro before x after hpast hsrc hdst hlabelled
  obtain ⟨t₀, k⟩ := x
  rw [hpast] at h hplain hexact
  have hearlier : ∀ y ∈ before, y ∈ before ++ (t₀, k) :: after :=
    fun y hy => List.mem_append_left _ hy
  have hknown := hlabelled.known (hplain (t₀, k) (by simp)) (hexact (t₀, k) (by simp)).2
  obtain ⟨c, hfound, _⟩ := Option.map_eq_some_iff.mp hknown
  have hmatch : Conversations.convMatches k.state.globalSrcAddress k.state.globalDstAddress
      k.state.globalSrcPort k.state.globalDstPort c := by simpa using List.find?_some hfound
  obtain ⟨y, hy, p, hp, hlow, hport, hsrcAddress, hdstAddress⟩ :=
    h.of_append.announced (fun y hy => ⟨hplain y (hearlier y hy), (hexact y (hearlier y hy)).1⟩) c
      (List.mem_of_find?_eq_some hfound)
  have hopen : c.srcPort ≠ 0 := by
    intro hzero
    rw [hzero] at hport
    omega
  simp only [Conversations.convMatches, Address.isAddrEq_iff, Conversations.portMatches, hsrcAddress,
    hdstAddress] at hmatch
  refine ⟨y, hy, p, hp, ?_⟩
  cases hmatch with
  | inl hforth =>
      obtain ⟨hsrc', hdst', hports, _⟩ := hforth
      have hsame := (hports.resolve_left hsrc).resolve_left hopen
      exact Or.inl ⟨hsrc', hdst', hsame ▸ hport⟩
  | inr hback =>
      obtain ⟨hsrc', hdst', _, hports⟩ := hback
      have hsame := (hports.resolve_left hdst).resolve_left hopen
      exact Or.inr ⟨hsrc', hdst', hsame ▸ hport⟩

/-! ### Replies with two numbers -/

def tcpSegment (payload : List UInt8) (src dst : Address) (srcPort dstPort : Nat) :
    TransportPacket where
  isUdp := false
  env := DecodeEnv.bare linktypeEthernet .ip
  state := (((((decodeProtoStart (fun i => payload.getD i 0) payload.length Conversations.empty
    none).decodeProtoAdd "ETH_II").decodeProtoAdd "IP").decodeProtoAdd
      "TCP").setGlobalAddresses src dst).setGlobalPorts srcPort dstPort
  shape := preserved_stackShape.setGlobalPorts (preserved_stackShape.setGlobalAddresses
    ((((stackShape_start _ _ _ _).decodeProtoAdd _).decodeProtoAdd _).decodeProtoAdd _))

def ftpClient : Address := (Address.clear.setType afInet).setAddr 4 fun _ => 10

def ftpServer : Address := (Address.clear.setType afInet).setAddr 4 fun _ => 20

def passiveReply (digit : UInt8) : TransportPacket :=
  tcpSegment [50, 50, 55, 40, 49, 44, 49, 44, 49, 44, 49, 44, digit, 44, 48] ftpServer ftpClient 21
    2048

def transferSegment : TransportPacket := tcpSegment [] ftpServer ftpClient 1024 2049

def afterReply (digit : UInt8) : Conversations :=
  ((passiveReply digit).decode Conversations.empty).conversations

theorem transportRun_passive (digit : UInt8) :
    TransportRun [(Conversations.empty, passiveReply digit), (afterReply digit, transferSegment)]
      (transferSegment.decode (afterReply digit)).conversations :=
  (TransportRun.start.packet (passiveReply digit)).packet transferSegment

theorem passiveReply_plainTcp (digit : UInt8) : (passiveReply digit).PlainTcp :=
  TransportPacket.plainTcp_of_short rfl (show 15 < 24 by omega)

theorem transferSegment_plainTcp : transferSegment.PlainTcp :=
  TransportPacket.plainTcp_of_short rfl (show 0 < 24 by omega)

/-- The first number is 4, and the segment goes through the port that was announced. -/
theorem run_passive_announced_1024 :
    ∃ p, (passiveReply 52).announced = some p ∧ transferSegment.UsesPort (passiveReply 52) p := by
  have hannounced : (passiveReply 52).announced = some 1024 := by decide +kernel
  have hlabelled : transferSegment.LabelledPassive (afterReply 52) :=
    ⟨4, by decide +kernel, by decide +kernel⟩
  obtain ⟨y, hy, p, hp⟩ := run_passive_announced (transportRun_passive 52)
    (by simp [passiveReply_plainTcp, transferSegment_plainTcp])
    (by
      intro x hx
      cases List.mem_cons.mp hx with
      | inl heq =>
          rw [heq]
          exact ⟨fun _ => ⟨1024, hannounced, by decide, by decide⟩, fun port service h => by cases h⟩
      | inr htail =>
          rw [List.mem_singleton.mp htail]
          exact ⟨fun h => absurd h (by decide +kernel), fun port service h => by cases h⟩)
    [(Conversations.empty, passiveReply 52)] (afterReply 52, transferSegment) [] rfl (by decide)
    (by decide) hlabelled
  rw [List.mem_singleton.mp hy] at hp
  exact ⟨p, hp⟩

/-- The first number is zero as well: the port that was announced stands for any. -/
theorem passive_zero_relabels : ¬∀ past t, TransportRun past t → (∀ x ∈ past, x.2.PlainTcp) →
    ∀ before x after, past = before ++ x :: after → x.2.state.globalSrcPort ≠ 0 →
      x.2.state.globalDstPort ≠ 0 → x.2.LabelledPassive x.1 →
      ∃ y ∈ before, ∃ p, y.2.announced = some p ∧ x.2.UsesPort y.2 p := by
  intro hannounced
  obtain ⟨y, hy, p, hp, huses⟩ := hannounced _ _ (transportRun_passive 48)
    (by simp [passiveReply_plainTcp, transferSegment_plainTcp])
    [(Conversations.empty, passiveReply 48)] (afterReply 48, transferSegment) [] rfl (by decide)
    (by decide) ⟨4, by decide +kernel, by decide +kernel⟩
  rw [List.mem_singleton.mp hy] at hp huses
  have hzero : (passiveReply 48).announced = some 0 := by decide +kernel
  obtain rfl := Option.some.inj (hzero.symm.trans hp)
  cases huses with
  | inl hforth => exact absurd hforth.2.2 (by decide)
  | inr hback => exact absurd hback.2.2 (by decide)

end EtherApe
