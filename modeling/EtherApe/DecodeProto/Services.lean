import EtherApe.DecodeProto.Replies

/-!
# Labels of services

A packet that nothing else claims gets the name of the service of one of its ports. Which of the two it
is follows from the ports and the preferences of their services, and not from which of them the packet
comes from, so both directions of a connection have one label.
-/

namespace EtherApe

open DecodeState

/-! ### The choice -/

/-- The label of the service between two ports: the lower port has it unless only the service of the
higher one is preferred. -/
def serviceLabel (groupUnk : Bool) (servicesFind : Nat → Option PortService)
    (unknown transport : String) (a b : Nat) : String :=
  match servicesFind (min a b), servicesFind (max a b) with
  | none, none =>
      if groupUnk then unknown
      else transport ++ ":" ++ toString (min a b) ++ "-" ++ toString (max a b)
  | some service, none => service.name
  | none, some service => service.name
  | some low, some high => if high.preferred ∧ ¬low.preferred then high.name else low.name

theorem choosePort_eq_min (a b : Nat) : choosePort a b = min a b := by
  unfold choosePort
  split
  · omega
  · split
    · omega
    · split
      · omega
      · omega

section Choice

variable {groupUnk : Bool} {servicesFind : Nat → Option PortService} {unknown transport : String}

theorem serviceLabel_comm (a b : Nat) :
    serviceLabel groupUnk servicesFind unknown transport a b =
      serviceLabel groupUnk servicesFind unknown transport b a := by
  unfold serviceLabel
  rw [min_comm, max_comm]

theorem addService_eq (a b : Nat) (d : DecodeState) :
    addService groupUnk servicesFind unknown transport a b d =
      d.decodeProtoAdd (serviceLabel groupUnk servicesFind unknown transport a b) := by
  unfold addService serviceLabel chosenService
  rw [choosePort_eq_min]
  rcases Nat.lt_or_ge b a with hlt | hle
  · have hne : a ≠ b := hlt.ne'
    rw [Nat.min_eq_right hlt.le, Nat.max_eq_left hlt.le]
    cases hsrc : servicesFind a with
    | none =>
        cases hdst : servicesFind b with
        | none => simp [apply_ite d.decodeProtoAdd, hne.symm]
        | some dst => cases hpref : dst.preferred <;> simp [hpref]
    | some src =>
        cases hdst : servicesFind b with
        | none => cases hpref : src.preferred <;> simp [hpref]
        | some dst =>
            cases hsrcPref : src.preferred <;> cases hdstPref : dst.preferred <;>
              simp [hsrcPref, hdstPref, hne]
  · rw [Nat.min_eq_left hle, Nat.max_eq_right hle]
    cases hsrc : servicesFind a with
    | none =>
        cases hdst : servicesFind b with
        | none => simp [apply_ite d.decodeProtoAdd]
        | some dst => cases hpref : dst.preferred <;> simp [hpref]
    | some src =>
        cases hdst : servicesFind b with
        | none => cases hpref : src.preferred <;> simp [hpref]
        | some dst =>
            cases hsrcPref : src.preferred <;> cases hdstPref : dst.preferred <;>
              simp [hsrcPref, hdstPref]

/-- The service that stands for the ports, as the preferences choose it. -/
structure NamesService (servicesFind : Nat → Option PortService) (a b : Nat) (label : String) :
    Prop where
  preferred : ∀ p q, (p = a ∧ q = b ∨ p = b ∧ q = a) → ∀ service ∈ servicesFind p,
    service.preferred → ¬(servicesFind q).any (·.preferred) → label = service.name
  lower : (servicesFind a).any (·.preferred) = (servicesFind b).any (·.preferred) →
    ∀ service ∈ (servicesFind (min a b)).or (servicesFind (max a b)), label = service.name

theorem serviceLabel_names (a b : Nat) :
    NamesService servicesFind a b (serviceLabel groupUnk servicesFind unknown transport a b) := by
  wlog hle : a ≤ b generalizing a b
  · obtain ⟨hpreferred, hlower⟩ := this b a (Nat.le_of_not_le hle)
    rw [serviceLabel_comm]
    refine ⟨fun p q hports => hpreferred p q hports.symm, fun hsame => ?_⟩
    rw [min_comm, max_comm]
    exact hlower hsame.symm
  constructor
  · intro p q hports service hservice hpref hother
    unfold serviceLabel
    rw [Nat.min_eq_left hle, Nat.max_eq_right hle]
    rcases hports with ⟨rfl, rfl⟩ | ⟨rfl, rfl⟩
    · rw [Option.mem_def.mp hservice]
      cases hq : servicesFind q with
      | none => rfl
      | some high =>
          rw [hq] at hother
          have hhigh : high.preferred = false := by simpa using hother
          simp [hhigh]
    · rw [Option.mem_def.mp hservice]
      cases hq : servicesFind q with
      | none => rfl
      | some low =>
          rw [hq] at hother
          have hlow : low.preferred = false := by simpa using hother
          simp [hlow, hpref]
  · intro hsame service hservice
    unfold serviceLabel
    rw [Nat.min_eq_left hle, Nat.max_eq_right hle] at hservice ⊢
    cases hlow : servicesFind a with
    | none =>
        rw [hlow, Option.none_or] at hservice
        rw [Option.mem_def.mp hservice]
    | some low =>
        rw [hlow] at hservice hsame
        obtain rfl : low = service := Option.some.inj hservice
        cases hhigh : servicesFind b with
        | none => rfl
        | some high =>
            rw [hhigh] at hsame
            have hprefs : low.preferred = high.preferred := by simpa using hsame
            simp [hprefs]

end Choice

/-! ### The transport decoders -/

theorem getRpc_reads {isUdp : Bool} {d : DecodeState} (h : (getRpc isUdp d).1 = false) :
    ∃ reads, (getRpc isUdp d).2 = d.withReads reads := by
  cases hcall : rpcCall isUdp d.window with
  | some prog =>
      obtain ⟨reads, hrpc⟩ := getRpc_call hcall
      rw [hrpc] at h
      cases h
  | none =>
      by_cases hreply : IsRpcReply isUdp d.window
      · obtain ⟨reads, hrpc⟩ := getRpc_reply hreply
        rw [hrpc] at h ⊢
        cases hfound : d.conversations.findConversation d.globalDstAddress d.globalDstAddress
            d.globalDstPort 0 with
        | none => exact ⟨reads, rfl⟩
        | some prog =>
            rw [hfound] at h
            cases h
      · obtain ⟨reads, hrpc⟩ := getRpc_other hcall hreply
        exact ⟨reads, by rw [hrpc]⟩

theorem transportHeader_added (env : DecodeEnv) (name : String) (d : DecodeState) :
    (transportHeader env name d).added = d.added ++ [(name, d.window)] := by
  unfold transportHeader setTcpNodeIds
  split <;> rfl

/-- The transport protocols with ports. -/
inductive Transport
  | tcp
  | udp
deriving DecidableEq

namespace Transport

variable (env : DecodeEnv) (d : DecodeState)

def name : Transport → String
  | tcp => "TCP"
  | udp => "UDP"

/-- The decoder of the header. -/
def decode : Transport → DecodeState
  | tcp => getTcp env d
  | udp => getUdp env d

def behind : Transport → DecodeState
  | tcp => ((transportHeader env "TCP" d).touch 12 1).addOffset ((d.window.get 12).toNat / 16 * 4)
  | udp => (transportHeader env "UDP" d).addOffset 8

def servicesFind : Transport → Nat → Option PortService
  | tcp => env.servicesTcpFind
  | udp => env.servicesUdpFind

def label (a b : Nat) : Transport → String
  | tcp => serviceLabel env.groupUnk env.servicesTcpFind "TCP-UNKNOwN" "TCP" a b
  | udp => serviceLabel env.groupUnk env.servicesUdpFind "UDP-UNKNOWN" "UDP" a b

def HasPort (port : Nat) : Prop := d.window.u16 0 = port ∨ d.window.u16 2 = port

instance (port : Nat) : Decidable (HasPort d port) := inferInstanceAs (Decidable (_ ∨ _))

/-- No conversation, no RPC packet, and neither NetBIOS nor FTP. -/
def Unclaimed : Transport → Prop
  | tcp =>
      d.conversations.findConversation d.globalSrcAddress d.globalDstAddress (d.window.u16 0)
          (d.window.u16 2) = none ∧
        (getRpc false (behind env d tcp)).1 = false ∧ ¬HasPort d tcpNetbiosSsn ∧ ¬HasPort d tcpFtp
  | udp => (getRpc true (behind env d udp)).1 = false ∧ ¬HasPort d udpNetbiosNs

instance (t : Transport) : Decidable (t.Unclaimed env d) := by
  cases t
  · exact inferInstanceAs (Decidable (_ ∧ _))
  · exact inferInstanceAs (Decidable (_ ∧ _))

/-- The decoder adds the label above its own name, and comes past every assertion behind the header. -/
structure Labels (t : Transport) (label : String) : Prop where
  added : (t.decode env d).added.map Prod.fst = d.added.map Prod.fst ++ [t.name, label]
  crashed : (t.decode env d).crashed = (t.behind env d).crashed

variable {env d}

theorem decode_of_unclaimed {t : Transport} (h : t.Unclaimed env d) :
    ∃ reads, t.decode env d =
      ((t.behind env d).withReads reads).decodeProtoAdd
        (t.label env (d.window.u16 0) (d.window.u16 2)) := by
  cases t with
  | tcp =>
      obtain ⟨hknown, hrpc, hssn, hftp⟩ := h
      obtain ⟨reads, hreads⟩ := getRpc_reads hrpc
      refine ⟨reads, ?_⟩
      have hlookup : (behind env d tcp).conversations.findConversation
          (behind env d tcp).globalSrcAddress (behind env d tcp).globalDstAddress (d.window.u16 0)
          (d.window.u16 2) = none := by
        rw [← hknown, behind, addOffset_conversations, touch_conversations,
          transportHeader_conversations, addOffset_globalSrcAddress, touch_globalSrcAddress,
          transportHeader_globalSrcAddress, addOffset_globalDstAddress, touch_globalDstAddress,
          transportHeader_globalDstAddress]
      unfold HasPort at hssn hftp
      show getTcp env d = _
      rw [getTcp_eq, ← behind, getTcpPayload, hlookup]
      dsimp only
      rw [hrpc, hreads, if_neg Bool.false_ne_true, if_neg hssn, if_neg hftp, addService_eq]
      rfl
  | udp =>
      obtain ⟨hrpc, hdgm⟩ := h
      obtain ⟨reads, hreads⟩ := getRpc_reads hrpc
      refine ⟨reads, ?_⟩
      unfold HasPort at hdgm
      show getUdp env d = _
      rw [getUdp_eq, ← behind, getUdpPayload]
      dsimp only
      rw [hrpc, hreads, if_neg Bool.false_ne_true, if_neg hdgm, addService_eq]
      rfl

theorem behind_added (t : Transport) :
    (t.behind env d).added.map Prod.fst = d.added.map Prod.fst ++ [t.name] := by
  cases t with
  | tcp =>
      show (transportHeader env "TCP" d).added.map Prod.fst = _
      rw [transportHeader_added, List.map_append]
      rfl
  | udp =>
      show (transportHeader env "UDP" d).added.map Prod.fst = _
      rw [transportHeader_added, List.map_append]
      rfl

theorem labels_of_unclaimed {t : Transport} (h : t.Unclaimed env d) :
    t.Labels env d (t.label env (d.window.u16 0) (d.window.u16 2)) := by
  obtain ⟨reads, hdecode⟩ := decode_of_unclaimed h
  constructor
  · rw [hdecode, decodeProtoAdd_added, withReads_added, List.map_append, behind_added]
    simp
  · rw [hdecode, decodeProtoAdd_crashed, withReads_crashed]

theorem label_comm (t : Transport) (a b : Nat) : t.label env a b = t.label env b a := by
  cases t with
  | tcp => exact serviceLabel_comm a b
  | udp => exact serviceLabel_comm a b

theorem label_names (t : Transport) (a b : Nat) :
    NamesService (t.servicesFind env) a b (t.label env a b) := by
  cases t with
  | tcp => exact serviceLabel_names a b
  | udp => exact serviceLabel_names a b

end Transport

/-- **Labels of services.** Both directions of a connection get one label, that of the service that the
preferences choose, or else of the lower port that has one. -/
theorem service_label_directionless (t : Transport) (env : DecodeEnv) {d d' : DecodeState}
    (h : t.Unclaimed env d) (h' : t.Unclaimed env d') (hsrc : d'.window.u16 0 = d.window.u16 2)
    (hdst : d'.window.u16 2 = d.window.u16 0) :
    ∃ label, t.Labels env d label ∧ t.Labels env d' label ∧
      NamesService (t.servicesFind env) (d.window.u16 0) (d.window.u16 2) label := by
  refine ⟨t.label env (d.window.u16 0) (d.window.u16 2), Transport.labels_of_unclaimed h, ?_,
    t.label_names _ _⟩
  have hlabels := Transport.labels_of_unclaimed h'
  rw [hsrc, hdst, t.label_comm] at hlabels
  exact hlabels

/-- A TCP header between the port of HTTP and port 40000. -/
def httpSegment (i : Nat) : UInt8 := if i = 1 then 80 else if i = 2 then 0x9C else if i = 3 then 0x40 else 0

def httpAnswer (i : Nat) : UInt8 := if i = 0 then 0x9C else if i = 1 then 0x40 else if i = 3 then 80 else 0

def httpEnv : DecodeEnv :=
  { DecodeEnv.bare linktypeRawIp .ip with
    servicesTcpFind := fun port => if port = 80 then some ⟨80, "HTTP", false⟩ else none }

theorem service_label_directionless_http :
    ∃ label, Transport.tcp.Labels httpEnv (decodeProtoStart httpSegment 20 Conversations.empty none)
        label ∧
      Transport.tcp.Labels httpEnv (decodeProtoStart httpAnswer 20 Conversations.empty none) label ∧
      label = "HTTP" := by
  obtain ⟨label, hlabels, hlabels', hnames⟩ := @service_label_directionless .tcp httpEnv
    (decodeProtoStart httpSegment 20 Conversations.empty none)
    (decodeProtoStart httpAnswer 20 Conversations.empty none) (by decide +kernel) (by decide +kernel)
    (by decide +kernel) (by decide +kernel)
  exact ⟨label, hlabels, hlabels', hnames.lower (by decide +kernel) ⟨80, "HTTP", false⟩
    (by decide +kernel)⟩

end EtherApe
