import EtherApe.Capture.Directions
import EtherApe.Capture.References
import EtherApe.DecodeProto.Segments
import EtherApe.Lib.Runs

/-!
# Conversations and links

Links are kept by the ids of their two ends, conversations by the addresses and ports of theirs, so a
link that expires takes with it every conversation between its two addresses, also one that goes on
over another link.
-/

namespace EtherApe

/-- The addresses at the two ends of a link, in no order. -/
def LinkId.hosts (k : LinkId) : Sym2 Address := s(k.src.addr.ip, k.dst.addr.ip)

namespace Capture

/-- The conversations that stay are those of which no expired link has the hosts. -/
theorem mem_linksUpdate_conversations {s : Capture} {pref : Preferences} {conv : Conversation} :
    conv ∈ (s.linksUpdate pref).conversations.items ↔
      conv ∈ s.conversations.items ∧ ∀ e ∈ s.allLinks.entries,
        linkExpired s.now pref e.2 = true → conv.hosts ≠ e.2.linkId.hosts :=
  SortedTree.sweep_state_iff (updateLink s.now pref) (linkDelete s.now)
    (Q := fun t : PacketStore × Conversations => conv ∈ t.2.items)
    (R := fun link => conv.hosts ≠ link.linkId.hosts) (fun _ => updatedLink s.now pref)
    (fun _ => linkExpired s.now pref) (updateLink_value s.now pref) (updateLink_obsolete s.now pref)
    (fun _ _ _ => Iff.rfl) (fun _ _ => Conversations.mem_deleteConversationLink)

/-- An update removes a conversation only when no link between its hosts remains. -/
def SparesLinked (s : Capture) (pref : Preferences) : Prop :=
  ∀ conv ∈ s.conversations.items, conv ∉ (s.linksUpdate pref).conversations.items →
    ∀ e ∈ (s.linksUpdate pref).allLinks.entries, e.2.linkId.hosts ≠ conv.hosts

/-- No link that expires while there is a conversation between its hosts has the hosts of a link that
does not expire. -/
def ExpiresAlone (s : Capture) (pref : Preferences) : Prop :=
  ∀ e ∈ s.allLinks.entries, linkExpired s.now pref e.2 = true →
    (∃ conv ∈ s.conversations.items, conv.hosts = e.2.linkId.hosts) →
    ∀ e' ∈ s.allLinks.entries, linkExpired s.now pref e'.2 = false →
      e'.2.linkId.hosts ≠ e.2.linkId.hosts

/-- **Conversations of other links.** In any state, an update of the links spares the conversations
between the hosts of the links that remain just when every link that expires is alone. -/
theorem linksUpdate_sparesLinked_iff (s : Capture) (pref : Preferences) :
    s.SparesLinked pref ↔ s.ExpiresAlone pref := by
  constructor
  · intro hspares e he hexpired hconv e' he' hlive hsame
    obtain ⟨conv, hconv, hhosts⟩ := hconv
    have hgone : conv ∉ (s.linksUpdate pref).conversations.items := by
      intro hkept
      exact (mem_linksUpdate_conversations.mp hkept).2 e he hexpired hhosts
    have hremains : (e'.1, updatedLink s.now pref e'.2) ∈ (s.linksUpdate pref).allLinks.entries :=
      (mem_linksCatalogUpdateAll s.now pref).mpr ⟨e'.2, he', rfl, hlive⟩
    exact hspares conv hconv hgone _ hremains (hsame.trans hhosts.symm)
  · intro halone conv hconv hgone e he hsame
    obtain ⟨link, hlink, hupdated, hlive⟩ := (mem_linksCatalogUpdateAll s.now pref).mp he
    rw [hupdated] at hsame
    rw [mem_linksUpdate_conversations, not_and] at hgone
    have hexpires := hgone hconv
    push Not at hexpires
    obtain ⟨e', he', hexpired, hhosts⟩ := hexpires
    exact halone e' he' hexpired ⟨conv, hconv, hhosts⟩ (e.1, link) hlink hlive
      (hsame.trans hhosts)

/-! ### Conversations without a link -/

/-- Every conversation has the hosts of a link. -/
def NoOrphans (s : Capture) : Prop :=
  ∀ conv ∈ s.conversations.items, ∃ e ∈ s.allLinks.entries, e.2.linkId.hosts = conv.hosts

/-- A conversation that a packet adds is between the hosts of the packet or of a link that is there. -/
def StoresLinked (s : Capture) : Event → Prop
  | .packetAcquired env rawPacket rawSize _ _ =>
      ∀ g ∈ packetSegment env (rawSize + 1) rawPacket rawSize,
        ∀ conv ∈ g.stores env s.conversations,
          s.conversations.findConversation conv.srcAddress conv.dstAddress conv.srcPort
            conv.dstPort = none →
          conv.hosts = s(g.srcAddress, g.dstAddress) ∨
            ∃ e ∈ s.allLinks.entries, e.2.linkId.hosts = conv.hosts
  | _ => True

/-- What holds while there are no orphans: links are stored under ids that end in zeros, and a capture
that is stopped has no conversations. -/
structure Tended (s : Capture) : Prop where
  linked : s.NoOrphans
  canonical : s.LinksCanonical
  padded : ∀ e ∈ s.allLinks.entries, e.2.linkId.src.Padded ∧ e.2.linkId.dst.Padded
  closed : s.captureStatus = .stop → s.conversations.items = []

end Capture

theorem NodeId.significant_eq_firstBytes (id : NodeId) : id.significant.length ≤ 22 ∧
    id.significant = id.addr.firstBytes id.significant.length := by
  unfold significant
  cases id.nodeType <;> simp [Octets.firstBytes]

theorem NodeId.Padded.eq {a b : NodeId} (ha : a.Padded) (hb : b.Padded)
    (h : nodeIdCompare a b = 0) : a = b := by
  obtain ⟨htype, hsignificant⟩ := nodeIdCompare_eq_zero_iff.mp h
  have haddr : a.addr = b.addr := by
    funext i
    by_cases hi : a.significant.length ≤ i.val
    · rw [ha i hi, hb i (hsignificant ▸ hi)]
    · have hlen : a.significant.length = b.significant.length := congrArg List.length hsignificant
      have hle : a.significant.length ≤ 22 := a.significant_eq_firstBytes.1
      rw [a.significant_eq_firstBytes.2, b.significant_eq_firstBytes.2, ← hlen] at hsignificant
      exact (Octets.firstBytes_eq_iff hle).mp hsignificant i (not_le.mp hi)
  cases a
  cases b
  exact congrArg₂ NodeId.mk htype haddr

theorem linkOf_hosts (src dst : NodeId) : (linkOf src dst).1.hosts = s(src.addr.ip, dst.addr.ip) := by
  unfold linkOf LinkId.hosts
  split
  · rfl
  · exact Sym2.eq_swap

theorem Conversations.mem_store {t : Conversations} {o : Option Conversation} {conv : Conversation} :
    conv ∈ (t.store o).items ↔ conv ∈ t.items ∨ o = some conv ∧
      t.findConversation conv.srcAddress conv.dstAddress conv.srcPort conv.dstPort = none := by
  cases o with
  | none => simp [Conversations.store]
  | some c =>
      simp only [Conversations.store, addConversation]
      split
      next data hfound =>
        refine (or_iff_left ?_).symm
        rintro ⟨hc, hnone⟩
        obtain rfl := Option.some.inj hc
        rw [hfound] at hnone
        cases hnone
      next hnone =>
        rw [List.mem_cons, or_comm, Option.some.injEq]
        refine or_congr_right ⟨?_, fun hc => hc.1.symm⟩
        rintro rfl
        exact ⟨rfl, hnone⟩

namespace Capture

variable {s s' : Capture} {env : DecodeEnv} {rawPacket : Nat → UInt8} {rawSize pktSize : Nat}
  {mem : Malloc}

theorem registerPacket_keeps {packet : PacketInfo} {src dst : NodeId} {e : LinkId × Link}
    (he : e ∈ s.allLinks.entries) :
    ∃ e' ∈ (s.registerPacket packet src dst mem).allLinks.entries, e'.2.linkId = e.2.linkId := by
  rw [registerPacket_allLinks]
  cases SortedTree.mem_upsert_of_mem he (linkOf src dst).1 (Link.create s.now (linkOf src dst).1) _ with
  | inl hchanged => exact ⟨_, hchanged, rfl⟩
  | inr hsame => exact ⟨e, hsame, rfl⟩

theorem mem_registerPacket {packet : PacketInfo} {src dst : NodeId} {e : LinkId × Link}
    (he : e ∈ (s.registerPacket packet src dst mem).allLinks.entries) :
    (∃ old ∈ s.allLinks.entries, e.2.linkId = old.2.linkId) ∨ e.2.linkId = (linkOf src dst).1 := by
  rw [registerPacket_allLinks] at he
  rcases SortedTree.mem_upsert.mp he with ⟨_, ⟨old, hold, hvalue⟩ | ⟨_, rfl⟩⟩ | ⟨_, hold⟩
  · exact Or.inl ⟨(e.1, old), hold, by rw [hvalue]⟩
  · exact Or.inr rfl
  · exact Or.inl ⟨e, hold, rfl⟩

theorem registerPacket_link (hcanonical : s.LinksCanonical)
    (hpadded : ∀ e ∈ s.allLinks.entries, e.2.linkId.src.Padded ∧ e.2.linkId.dst.Padded)
    {packet : PacketInfo} {src dst : NodeId} (hsrc : src.Padded) (hdst : dst.Padded) :
    ∃ e ∈ (s.registerPacket packet src dst mem).allLinks.entries,
      e.2.linkId = (linkOf src dst).1 := by
  have hends : (linkOf src dst).1.src.Padded ∧ (linkOf src dst).1.dst.Padded := by
    unfold linkOf
    split
    · exact ⟨hsrc, hdst⟩
    · exact ⟨hdst, hsrc⟩
  rw [registerPacket_allLinks]
  cases hfound : s.allLinks.lookup (linkOf src dst).1 with
  | none => exact ⟨_, SortedTree.mem_upsert.mpr (Or.inl ⟨ThreeWay.refl _, Or.inr ⟨hfound, rfl⟩⟩), rfl⟩
  | some old =>
      obtain ⟨k, hmem, hkey⟩ := SortedTree.exists_mem_of_lookup hfound
      refine ⟨(k, _), SortedTree.mem_upsert.mpr (Or.inl ⟨hkey, Or.inl ⟨old, hmem, rfl⟩⟩), ?_⟩
      obtain ⟨hsrcKey, hdstKey⟩ := linkIdCompare_eq_zero_iff.mp hkey
      have hid : old.linkId = k := (hcanonical _ hmem).1
      obtain ⟨hsrcOld, hdstOld⟩ : k.src.Padded ∧ k.dst.Padded := hid ▸ hpadded _ hmem
      exact hid.trans (congrArg₂ LinkId.mk (hends.1.eq hsrcOld hsrcKey).symm
        (hends.2.eq hdstOld hdstKey).symm)

theorem packetAcquired_carried
    (hstep : s.packetAcquired env rawPacket rawSize pktSize mem = some s') :
    ∃ d, Carried env s.conversations (packetSegment env (rawSize + 1) rawPacket rawSize) d ∧
      s'.conversations = d.conversations ∧ s'.captureStatus = s.captureStatus ∧
      s'.allLinks = (({ s with
        conversations := d.conversations, pphLkentry := d.pphLkentry } : Capture).registerPacket
          ⟨mem.packet, pktSize, s.now, d.pr⟩ d.srcNodeId d.dstNodeId mem).allLinks := by
  obtain ⟨d, hd, rfl⟩ := packetAcquired_eq_some hstep
  refine ⟨d, ?_, ?_, registerPacket_captureStatus _ _ _ _ _, rfl⟩
  · unfold decodePacket at hd
    split at hd
    next e he =>
      split at hd
      · cases hd
      · obtain rfl := Option.some.inj hd
        exact getPacketProt_carried he
    next => cases hd
  · rw [registerPacket, protocolSummaryAddPacket_eq]
    rfl

/-- A packet makes no orphan just when what it adds is linked. -/
theorem Tended.packetAcquired (h : s.Tended)
    (hstep : s.packetAcquired env rawPacket rawSize pktSize mem = some s') :
    s'.NoOrphans ↔ s.StoresLinked (.packetAcquired env rawPacket rawSize pktSize mem) := by
  obtain ⟨d, hcarried, hconversations, _, hlinks⟩ := packetAcquired_carried hstep
  constructor
  · intro hlinked g hg conv hstores hnone
    have hadded : conv ∈ s'.conversations.items := by
      rw [hconversations, hcarried.conversations, Conversations.mem_store, hg, Option.bind_some]
      exact Or.inr ⟨hstores, hnone⟩
    obtain ⟨e, he, hhosts⟩ := hlinked conv hadded
    rw [hlinks] at he
    cases mem_registerPacket he with
    | inl hold =>
        obtain ⟨old, hmem, hid⟩ := hold
        exact Or.inr ⟨old, hmem, hid ▸ hhosts⟩
    | inr hnew =>
        refine Or.inl ?_
        rw [← hhosts, hnew, linkOf_hosts, hcarried.srcAddress g hg, hcarried.dstAddress g hg]
  · intro hstores conv hconv
    have hkeeps : ∀ e ∈ s.allLinks.entries, ∃ e' ∈ s'.allLinks.entries,
        e'.2.linkId.hosts = e.2.linkId.hosts := by
      intro e he
      rw [hlinks]
      obtain ⟨e', he', hid⟩ := registerPacket_keeps (s := { s with
        conversations := d.conversations, pphLkentry := d.pphLkentry }) he
      exact ⟨e', he', congrArg LinkId.hosts hid⟩
    have hold : (∃ e ∈ s.allLinks.entries, e.2.linkId.hosts = conv.hosts) →
        ∃ e ∈ s'.allLinks.entries, e.2.linkId.hosts = conv.hosts := by
      rintro ⟨e, he, hhosts⟩
      obtain ⟨e', he', hsame⟩ := hkeeps e he
      exact ⟨e', he', hsame.trans hhosts⟩
    rw [hconversations, hcarried.conversations, Conversations.mem_store] at hconv
    cases hconv with
    | inl hknown => exact hold (h.linked conv hknown)
    | inr hadded =>
        obtain ⟨hstored, hnone⟩ := hadded
        obtain ⟨g, hg, hgstores⟩ := Option.bind_eq_some_iff.mp hstored
        cases hstores g hg conv hgstores hnone with
        | inr hlink => exact hold hlink
        | inl hhosts =>
            obtain ⟨e, he, hid⟩ := registerPacket_link (s := { s with
              conversations := d.conversations, pphLkentry := d.pphLkentry })
              h.canonical h.padded hcarried.src hcarried.dst
            refine ⟨e, hlinks ▸ he, ?_⟩
            rw [hid, linkOf_hosts, hcarried.srcAddress g hg, hcarried.dstAddress g hg, hhosts]

theorem NoOrphans.linksUpdate (h : s.NoOrphans) (pref : Preferences) :
    (s.linksUpdate pref).NoOrphans := by
  intro conv hconv
  obtain ⟨hknown, hexpired⟩ := mem_linksUpdate_conversations.mp hconv
  obtain ⟨e, he, hhosts⟩ := h conv hknown
  have hlive : linkExpired s.now pref e.2 = false := by
    by_contra hgone
    exact hexpired e he (by simpa using hgone) hhosts.symm
  exact ⟨(e.1, updatedLink s.now pref e.2),
    (mem_linksCatalogUpdateAll s.now pref).mpr ⟨e.2, he, rfl, hlive⟩, hhosts⟩

theorem protocolSummaryOpen_conversations (s : Capture) :
    s.protocolSummaryOpen.conversations = s.conversations := by
  unfold protocolSummaryOpen protocolSummaryClose
  cases s.protosummaryStats <;> rfl

/-- One step makes no orphan just when what it adds is linked. -/
theorem Tended.step_noOrphans (h : s.Tended) {e : Event} (hstep : s.step e = some s') :
    s'.NoOrphans ↔ s.StoresLinked e := by
  have hsame : ∀ {s₁ : Capture}, s₁.conversations = s.conversations → s₁.allLinks = s.allLinks →
      (s₁.NoOrphans ↔ True) := by
    intro s₁ hconversations hlinks
    rw [NoOrphans, hconversations, hlinks]
    exact iff_true_intro h.linked
  have hnone : ∀ {s₁ : Capture}, s₁.conversations.items = [] → (s₁.NoOrphans ↔ True) := by
    intro s₁ hempty
    rw [NoOrphans, hempty]
    simp
  cases e with
  | clock now =>
      obtain rfl := Option.some.inj hstep
      exact hsame rfl rfl
  | startCapture =>
      obtain rfl := Option.some.inj hstep
      unfold startCapture
      split
      · exact hsame rfl rfl
      · split
        next hstop =>
          refine hnone ?_
          show s.protocolSummaryOpen.conversations.items = []
          rw [protocolSummaryOpen_conversations, h.closed hstop]
        next => exact hsame rfl rfl
  | pauseCapture =>
      obtain rfl := Option.some.inj hstep
      unfold pauseCapture
      split <;> exact hsame rfl rfl
  | endOfFile =>
      obtain rfl := Option.some.inj hstep
      unfold endOfFile
      split <;> exact hsame rfl rfl
  | stopCapture =>
      obtain rfl := Option.some.inj hstep
      unfold stopCapture
      split
      · exact hsame rfl rfl
      · exact hnone rfl
  | packetAcquired env rawPacket rawSize pktSize mem =>
      simp only [step] at hstep
      split at hstep
      · exact h.packetAcquired hstep
      · cases hstep
  | nodesUpdate pref =>
      obtain rfl := Option.some.inj hstep
      exact hsame rfl rfl
  | linksUpdate pref =>
      obtain rfl := Option.some.inj hstep
      exact iff_true_intro (h.linked.linksUpdate pref)
  | summaryUpdate pref =>
      obtain rfl := Option.some.inj hstep
      unfold protocolSummaryUpdateAll
      split <;> exact hsame rfl rfl

theorem Tended.step_closed (h : s.Tended) {e : Event} (hstep : s.step e = some s') :
    (∀ e ∈ s'.allLinks.entries, e.2.linkId.src.Padded ∧ e.2.linkId.dst.Padded) ∧
      (s'.captureStatus = .stop → s'.conversations.items = []) := by
  cases e with
  | clock now =>
      obtain rfl := Option.some.inj hstep
      exact ⟨h.padded, h.closed⟩
  | startCapture =>
      obtain rfl := Option.some.inj hstep
      unfold startCapture
      split
      · exact ⟨h.padded, h.closed⟩
      · split
        · exact ⟨fun e he => absurd he List.not_mem_nil, fun hstop => by cases hstop⟩
        · exact ⟨h.padded, fun hstop => by cases hstop⟩
  | pauseCapture =>
      obtain rfl := Option.some.inj hstep
      unfold pauseCapture
      split
      · exact ⟨h.padded, h.closed⟩
      · exact ⟨h.padded, fun hstop => by cases hstop⟩
  | endOfFile =>
      obtain rfl := Option.some.inj hstep
      unfold endOfFile
      split
      · exact ⟨h.padded, h.closed⟩
      · exact ⟨h.padded, fun hstop => by cases hstop⟩
  | stopCapture =>
      obtain rfl := Option.some.inj hstep
      unfold stopCapture
      split
      · exact ⟨h.padded, h.closed⟩
      · exact ⟨fun e he => absurd he List.not_mem_nil, fun _ => rfl⟩
  | packetAcquired env rawPacket rawSize pktSize mem =>
      simp only [Capture.step] at hstep
      split at hstep
      next hopen =>
        obtain ⟨d, hcarried, _, hstatus, hlinks⟩ := packetAcquired_carried hstep
        refine ⟨fun e he => ?_, fun hstop => absurd (hstatus.symm.trans hstop) hopen.1⟩
        rw [hlinks] at he
        cases mem_registerPacket he with
        | inl hold =>
            obtain ⟨old, hmem, hid⟩ := hold
            rw [hid]
            exact h.padded old hmem
        | inr hnew =>
            rw [hnew]
            unfold linkOf
            split
            · exact ⟨hcarried.src, hcarried.dst⟩
            · exact ⟨hcarried.dst, hcarried.src⟩
      · cases hstep
  | nodesUpdate pref =>
      obtain rfl := Option.some.inj hstep
      exact ⟨h.padded, h.closed⟩
  | linksUpdate pref =>
      obtain rfl := Option.some.inj hstep
      refine ⟨fun e he => ?_, fun hstop => ?_⟩
      · obtain ⟨link, hlink, hvalue, _⟩ := (mem_linksCatalogUpdateAll s.now pref).mp he
        rw [hvalue]
        exact h.padded _ hlink
      · refine List.eq_nil_iff_forall_not_mem.mpr fun conv hconv => ?_
        have hknown := (mem_linksUpdate_conversations.mp hconv).1
        rw [h.closed hstop] at hknown
        exact List.not_mem_nil hknown
  | summaryUpdate pref =>
      obtain rfl := Option.some.inj hstep
      unfold protocolSummaryUpdateAll
      split
      · exact ⟨h.padded, h.closed⟩
      · exact ⟨h.padded, h.closed⟩

theorem tended_initial (now : Timeval) : (initial now).Tended where
  linked _ hconv := absurd hconv List.not_mem_nil
  canonical _ he := absurd he List.not_mem_nil
  padded _ he := absurd he List.not_mem_nil
  closed _ := rfl

def machine (now : Timeval) : Machine Capture Event where
  start := initial now
  step := step

theorem Run.machine {past : List (Capture × Event)} (h : Run past s) :
    ∃ now, (Capture.machine now).Run past s := by
  induction h with
  | initial now => exact ⟨now, Machine.Run.start⟩
  | step _ e hstep ih =>
      obtain ⟨now, hrun⟩ := ih
      exact ⟨now, hrun.step e hstep⟩

theorem Run.of_machine {now : Timeval} {past : List (Capture × Event)}
    (h : (Capture.machine now).Run past s) : Run past s := by
  induction h with
  | start => exact Run.initial now
  | step _ e hstep ih => exact ih.step e hstep

theorem machine_noOrphans (now : Timeval) :
    (machine now).Characterizes Tended NoOrphans StoresLinked where
  start := tended_initial now
  sound h := h.linked
  step h hstep hstores := by
    have hlinked := (h.step_noOrphans hstep).mpr hstores
    obtain ⟨hpadded, hclosed⟩ := h.step_closed hstep
    exact ⟨hlinked, h.canonical.step hstep, hpadded, hclosed⟩
  needed h hstep hlinked := (h.step_noOrphans hstep).mp hlinked

/-- **No orphans.** In a run every conversation always has the hosts of a link just when each
conversation that a packet adds is between the hosts of the packet or of a link that is there; and while
there are no orphans, there are no conversations without links. -/
theorem run_noOrphans_iff {past : List (Capture × Event)} (h : Run past s) :
    (((∀ x ∈ past, x.1.NoOrphans) ∧ s.NoOrphans) ↔ ∀ x ∈ past, x.1.StoresLinked x.2) ∧
      (s.NoOrphans → s.allLinks.entries = [] → s.conversations.items = []) := by
  obtain ⟨now, hrun⟩ := h.machine
  refine ⟨(machine_noOrphans now).always_iff hrun, fun hlinked hempty => ?_⟩
  refine List.eq_nil_iff_forall_not_mem.mpr fun conv hconv => ?_
  obtain ⟨e, he, _⟩ := hlinked conv hconv
  rw [hempty] at he
  exact List.not_mem_nil he

/-! ### Calls and passive transfers -/

/-- The bytes of an IPv4 packet from 10.0.0.1 to 10.0.0.2, on a device without a link header. -/
def ipv4Packet (protocol : UInt8) (payload : List UInt8) (i : Nat) : UInt8 :=
  ([0x45, 0, 0, 0, 0, 0, 0, 0, 64, protocol, 0, 0, 10, 0, 0, 1, 10, 0, 0, 2] ++ payload).getD i 0

def tcpPacket (ports payload : List UInt8) : Nat → UInt8 :=
  ipv4Packet 6 (ports ++ [0, 0, 0, 0, 0, 0, 0, 0, 0x50, 0, 0, 0, 0, 0, 0, 0] ++ payload)

/-- A call of NFS over UDP from port 1000 to port 2049. -/
def nfsCallPacket : Nat → UInt8 :=
  ipv4Packet 17 ([3, 232, 8, 1, 0, 0, 0, 0] ++ rpcMessage 0 0xa3)

/-- A passive reply from port 21 to port 2048 that announces port 1024. -/
def passiveReplyPacket : Nat → UInt8 :=
  tcpPacket [0, 21, 8, 0] [50, 50, 55, 40, 49, 44, 49, 44, 49, 44, 49, 44, 52, 44, 48]

def receive (mode : ApeMode) (rawPacket : Nat → UInt8) (size : Nat) (mem : Malloc) : Event :=
  .packetAcquired (DecodeEnv.bare linktypeRawIp mode) rawPacket size size mem

instance (s : Capture) : Decidable s.NoOrphans :=
  inferInstanceAs (Decidable (∀ _ ∈ s.conversations.items, ∃ _ ∈ s.allLinks.entries, _))

/-- The conversation of a passive reply is between the hosts of the link that the reply goes over. -/
theorem run_noOrphans_iff_passiveReply : ∃ past s, Run past s ∧ s.conversations.items ≠ [] ∧
    s.NoOrphans := by
  let s₁ := (initial ⟨10, 0⟩).startCapture
  let reply := receive .tcp passiveReplyPacket 55 ⟨1, 1, 2⟩
  have hsome : (s₁.step reply).map (fun s => s.conversations.items.isEmpty) = some false := by
    decide +kernel
  obtain ⟨s, hs, hitems⟩ := Option.map_eq_some_iff.mp hsome
  have hrun : Run [(initial ⟨10, 0⟩, .startCapture), (s₁, reply)] s :=
    ((Run.initial ⟨10, 0⟩).step .startCapture rfl).step reply hs
  have hstores : s₁.StoresLinked reply := by
    show ∀ g ∈ packetSegment _ _ _ _, ∀ conv ∈ g.stores _ _, _ → _ ∨ _
    decide +kernel
  have hlinked := (run_noOrphans_iff hrun).1.mpr fun x hx => by
    cases List.mem_cons.mp hx with
    | inl hfirst =>
        rw [hfirst]
        trivial
    | inr hsecond =>
        rw [List.mem_singleton.mp hsecond]
        exact hstores
  refine ⟨_, s, hrun, fun hempty => ?_, hlinked.2⟩
  rw [hempty] at hitems
  exact absurd hitems (by decide)


/-- A server announces port 1024 to its client on one connection and sends to it from that port on
another, ten seconds later. -/
def passiveTransfer : List Event :=
  [.startCapture, receive .tcp passiveReplyPacket 55 ⟨1, 1, 2⟩, .clock ⟨20, 0⟩,
    receive .tcp (tcpPacket [4, 0, 8, 1] []) 40 ⟨2, 3, 4⟩]

/-- The first connection expires, and with it goes the announcement that the other one goes by. -/
theorem linksUpdate_not_sparesLinked :
    ∃ past s, Run past s ∧ ¬s.SparesLinked ⟨5000, 0, 0, 0, 0, 5000, 0⟩ := by
  let pref : Preferences := ⟨5000, 0, 0, 0, 0, 5000, 0⟩
  have hsteps : ((machine ⟨10, 0⟩).stepAll (initial ⟨10, 0⟩) passiveTransfer).map (fun s =>
      (s.linksUpdate pref).conversations.items.isEmpty && s.conversations.items.any fun conv =>
        (s.linksUpdate pref).allLinks.entries.any fun e => e.2.linkId.hosts = conv.hosts) = some true := by
    decide +kernel
  obtain ⟨s, hs, hafter⟩ := Option.map_eq_some_iff.mp hsteps
  obtain ⟨past, hrun, _⟩ := Machine.Run.start.stepAll hs
  refine ⟨past, s, Run.of_machine hrun, fun hspares => ?_⟩
  obtain ⟨hempty, hmatch⟩ := Bool.and_eq_true_iff.mp hafter
  obtain ⟨conv, hconv, hmatch⟩ := List.any_eq_true.mp hmatch
  obtain ⟨e, he, hhosts⟩ := List.any_eq_true.mp hmatch
  refine hspares conv hconv ?_ e he (of_decide_eq_true hhosts)
  rw [List.isEmpty_iff.mp hempty]
  exact List.not_mem_nil

/-- The conversation of a call is of the caller with itself, and no link is. -/
theorem nfsCall_orphan : ∃ past s, Run past s ∧ ¬s.NoOrphans := by
  have hsteps : ((machine ⟨10, 0⟩).stepAll (initial ⟨10, 0⟩)
      [.startCapture, receive .ip nfsCallPacket 52 ⟨1, 1, 2⟩]).map (fun s => decide s.NoOrphans) =
      some false := by decide +kernel
  obtain ⟨s, hs, horphan⟩ := Option.map_eq_some_iff.mp hsteps
  obtain ⟨past, hrun, _⟩ := Machine.Run.start.stepAll hs
  exact ⟨past, s, Run.of_machine hrun, of_decide_eq_false horphan⟩

end Capture

end EtherApe
