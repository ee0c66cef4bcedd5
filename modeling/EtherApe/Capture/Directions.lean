import EtherApe.Capture

/-!
# Links are canonical and directional

A link is stored under the ordered pair of its endpoints, and a packet counts as outbound exactly
when it goes from the first to the second. The totals of a link are compared with the run: since the
event that created the link, they are the bytes of the packets that went over it, by direction.
-/

namespace EtherApe

def sentBytes (a b : NodeId) : Capture × Event → Nat
  | (s, .packetAcquired env rawPacket rawSize pktSize _) =>
      match s.decodePacket env rawPacket rawSize with
      | some d =>
          if nodeIdCompare d.srcNodeId a = 0 ∧ nodeIdCompare d.dstNodeId b = 0 then pktSize else 0
      | none => 0
  | _ => 0

/-- The bytes of an event that go over the link `k` from its source to its destination. -/
def bytesOut (k : LinkId) (p : Capture × Event) : Nat := sentBytes k.src k.dst p

/-- The bytes that go the other way; what a node sends to itself counts as going out. -/
def bytesIn (k : LinkId) (p : Capture × Event) : Nat :=
  if nodeIdCompare k.src k.dst = 0 then 0 else sentBytes k.dst k.src p

/-- The link `k` was created by the first of these events and has existed since. -/
def CreatedBy (k : LinkId) : List (Capture × Event) → Prop
  | [] => False
  | first :: rest =>
      first.1.allLinks.lookup k = none ∧ ∀ p ∈ rest, (p.1.allLinks.lookup k).isSome

/-! ### Which packets go over a link -/

section LinkOf

variable {a b : NodeId} {k : LinkId}

theorem linkOf_eq_iff (hk : nodeIdCompare k.src k.dst ≤ 0) :
    linkIdCompare (linkOf a b).1 k = 0 ↔
      (nodeIdCompare a k.src = 0 ∧ nodeIdCompare b k.dst = 0) ∨
        (nodeIdCompare a k.dst = 0 ∧ nodeIdCompare b k.src = 0) := by
  have hswap := @ThreeWay.swap _ nodeIdCompare _ a b
  rw [linkIdCompare_eq_zero_iff]
  unfold linkOf
  split
  next hle =>
    refine ⟨Or.inl, ?_⟩
    rintro (hsame | ⟨ha, hb⟩)
    · exact hsame
    · -- the endpoints are equal, so both readings agree
      have hba : nodeIdCompare b a ≤ 0 :=
        ThreeWay.trans _ _ _ (ThreeWay.trans _ _ _ hb.le hk) (ThreeWay.eq_symm ha).le
      have hab : nodeIdCompare a b = 0 := by omega
      exact ⟨ThreeWay.eq_trans hab hb, ThreeWay.eq_trans (ThreeWay.eq_symm hab) ha⟩
  next hgt =>
    refine ⟨fun h => Or.inr ⟨h.2, h.1⟩, ?_⟩
    rintro (⟨ha, hb⟩ | ⟨ha, hb⟩)
    · have hab : nodeIdCompare a b ≤ 0 :=
        ThreeWay.trans _ _ _ (ThreeWay.trans _ _ _ ha.le hk) (ThreeWay.eq_symm hb).le
      omega
    · exact ⟨hb, ha⟩

theorem linkOf_direction (hk : nodeIdCompare k.src k.dst ≤ 0)
    (h : linkIdCompare (linkOf a b).1 k = 0) :
    (linkOf a b).2 =
      if nodeIdCompare a k.src = 0 ∧ nodeIdCompare b k.dst = 0 then .outbound else .inbound := by
  rw [linkIdCompare_eq_zero_iff] at h
  unfold linkOf at h ⊢
  split at h
  next hle => rw [if_pos hle, if_pos h]
  next hgt =>
    rw [if_neg hgt, if_neg]
    rintro ⟨ha, hb⟩
    have hab : nodeIdCompare a b ≤ 0 :=
      ThreeWay.trans _ _ _ (ThreeWay.trans _ _ _ ha.le hk) (ThreeWay.eq_symm hb).le
    omega

end LinkOf

/-! ### What one event does to a link -/

theorem TrafficStats.addPacket_totals (now : Timeval) (store : PacketStore) (ts : TrafficStats)
    (packet : PacketInfo) (dir : PacketDirection) :
    (ts.addPacket now store packet dir).2.totals =
      (ts.totals.1 + if dir ≠ .inbound then (packet.size : Int) else 0,
        ts.totals.2 + if dir ≠ .outbound then (packet.size : Int) else 0) := by
  cases dir <;> simp [totals, addPacket, countItem, PacketStore.packetListItemCreate]

namespace Capture

/-- The links after a packet: one of them, or a new one, counts it. -/
theorem registerPacket_allLinks (s : Capture) (packet : PacketInfo) (src dst : NodeId)
    (mem : Malloc) :
    (s.registerPacket packet src dst mem).allLinks =
      s.allLinks.upsert (linkOf src dst).1 (Link.create s.now (linkOf src dst).1) fun link =>
        { link with
          linkStats := (((s.allLinks.lookup (linkOf src dst).1).getD
            (Link.create s.now (linkOf src dst).1)).linkStats.addPacket s.now s.store packet
              (linkOf src dst).2).2 } := by
  rw [registerPacket, protocolSummaryAddPacket_eq]
  rfl

/-- The links are stored under their own ids, source before destination. -/
def LinksCanonical (s : Capture) : Prop :=
  ∀ e ∈ s.allLinks.entries, e.2.linkId = e.1 ∧ nodeIdCompare e.1.src e.1.dst ≤ 0

/-- An event leaves of a link what it was, plus the bytes that went over it. -/
def GrewBy (s : Capture) (e : Event) (entry : LinkId × Link) : Prop :=
  (∃ old : Link, (entry.1, old) ∈ s.allLinks.entries ∧ entry.2.linkId = old.linkId ∧
    entry.2.linkStats.totals = (old.linkStats.totals.1 + bytesOut entry.1 (s, e),
      old.linkStats.totals.2 + bytesIn entry.1 (s, e))) ∨
  (s.allLinks.lookup entry.1 = none ∧ entry.2.linkId = entry.1 ∧
    nodeIdCompare entry.1.src entry.1.dst ≤ 0 ∧
    entry.2.linkStats.totals = ((bytesOut entry.1 (s, e) : Int), (bytesIn entry.1 (s, e) : Int)))

theorem GrewBy.of_mem {s : Capture} {e : Event} (hnone : ∀ a b, sentBytes a b (s, e) = 0)
    {entry : LinkId × Link} {old : Link} (hmem : (entry.1, old) ∈ s.allLinks.entries)
    (hid : entry.2.linkId = old.linkId) (htotals : entry.2.linkStats.totals = old.linkStats.totals) :
    GrewBy s e entry := by
  refine Or.inl ⟨old, hmem, hid, ?_⟩
  have hin : bytesIn entry.1 (s, e) = 0 := by
    rw [bytesIn, hnone]
    exact ite_self 0
  rw [htotals, bytesOut, hnone, hin, Nat.cast_zero, add_zero, add_zero]

theorem linksUpdate_grewBy {s : Capture} {pref : Preferences} {entry : LinkId × Link}
    (h : entry ∈ (s.linksUpdate pref).allLinks.entries) : GrewBy s (.linksUpdate pref) entry := by
  obtain ⟨old, hmem, hvalue, _⟩ := (mem_linksCatalogUpdateAll s.now pref).mp h
  refine GrewBy.of_mem (fun _ _ => rfl) hmem ?_ ?_
  · rw [hvalue]
    rfl
  · rw [hvalue, updatedLink_totals]

theorem bytes_packetAcquired {s : Capture} {env : DecodeEnv} {rawPacket : Nat → UInt8}
    {rawSize : Nat} (pktSize : Nat) (mem : Malloc) {d : DecodeState}
    (hd : s.decodePacket env rawPacket rawSize = some d) {k : LinkId}
    (hk : nodeIdCompare k.src k.dst ≤ 0) :
    let e := Event.packetAcquired env rawPacket rawSize pktSize mem
    (bytesOut k (s, e) : Int) =
        (if linkIdCompare (linkOf d.srcNodeId d.dstNodeId).1 k = 0 ∧
          (linkOf d.srcNodeId d.dstNodeId).2 ≠ .inbound then (pktSize : Int) else 0) ∧
      (bytesIn k (s, e) : Int) =
        (if linkIdCompare (linkOf d.srcNodeId d.dstNodeId).1 k = 0 ∧
          (linkOf d.srcNodeId d.dstNodeId).2 ≠ .outbound then (pktSize : Int) else 0) := by
  intro e
  have hsent : ∀ a b, sentBytes a b (s, e) =
      if nodeIdCompare d.srcNodeId a = 0 ∧ nodeIdCompare d.dstNodeId b = 0 then pktSize else 0 := by
    intro a b
    simp only [sentBytes, e, hd]
  by_cases hlink : linkIdCompare (linkOf d.srcNodeId d.dstNodeId).1 k = 0
  · rw [linkOf_direction hk hlink]
    have hends := (linkOf_eq_iff hk).mp hlink
    by_cases hout : nodeIdCompare d.srcNodeId k.src = 0 ∧ nodeIdCompare d.dstNodeId k.dst = 0
    · have hin : bytesIn k (s, e) = 0 := by
        rw [bytesIn, hsent]
        split
        next => rfl
        next hne =>
          rw [if_neg]
          exact fun h => hne (ThreeWay.eq_trans (ThreeWay.eq_symm hout.1) h.1)
      rw [bytesOut, hsent, hin, if_pos hout, if_pos hout]
      simp [hlink]
    · have hback := hends.resolve_left hout
      have hne : nodeIdCompare k.src k.dst ≠ 0 := fun heq =>
        hout ⟨ThreeWay.eq_trans hback.1 (ThreeWay.eq_symm heq), ThreeWay.eq_trans hback.2 heq⟩
      rw [bytesOut, bytesIn, hsent, hsent, if_neg hne, if_neg hout, if_neg hout, if_pos hback]
      simp [hlink]
  · have hends := (linkOf_eq_iff hk).not.mp hlink
    rw [not_or] at hends
    rw [if_neg (fun h => hlink h.1), if_neg (fun h => hlink h.1), bytesOut, hsent, if_neg hends.1]
    refine ⟨rfl, ?_⟩
    rw [bytesIn, hsent, if_neg hends.2, ite_self]
    rfl

/-- A packet leaves the other links alone and adds its bytes to its own. -/
theorem packetAcquired_grewBy {s s' : Capture} (hs : s.LinksCanonical) {env : DecodeEnv}
    {rawPacket : Nat → UInt8} {rawSize pktSize : Nat} {mem : Malloc}
    (hs' : s.packetAcquired env rawPacket rawSize pktSize mem = some s') {entry : LinkId × Link}
    (h : entry ∈ s'.allLinks.entries) :
    GrewBy s (.packetAcquired env rawPacket rawSize pktSize mem) entry := by
  obtain ⟨d, hd, rfl⟩ := packetAcquired_eq_some hs'
  rw [registerPacket_allLinks] at h
  rcases SortedTree.mem_upsert.mp h with ⟨hkey, ⟨old, hmem, hvalue⟩ | ⟨hnone, rfl⟩⟩ | ⟨hother, hmem⟩
  · have hfound : s.allLinks.lookup (linkOf d.srcNodeId d.dstNodeId).1 = some old :=
      SortedTree.lookup_eq_some_iff.mpr ⟨entry.1, hmem, hkey⟩
    obtain ⟨hout, hin⟩ := bytes_packetAcquired pktSize mem hd (hs _ hmem).2
    refine Or.inl ⟨old, hmem, by rw [hvalue], ?_⟩
    rw [hvalue, hfound, Option.getD_some, TrafficStats.addPacket_totals, hout, hin]
    simp only [hkey, true_and]
  · have hle := linkOf_le d.srcNodeId d.dstNodeId
    obtain ⟨hout, hin⟩ := bytes_packetAcquired pktSize mem hd hle
    refine Or.inr ⟨hnone, rfl, hle, ?_⟩
    rw [hnone, Option.getD_none, TrafficStats.addPacket_totals, hout, hin]
    simp only [hkey, true_and]
    rw [show (Link.create s.now (linkOf d.srcNodeId d.dstNodeId).1).linkStats.totals = (0, 0) from rfl,
      zero_add, zero_add]
  · obtain ⟨hout, hin⟩ := bytes_packetAcquired pktSize mem hd (hs _ hmem).2
    refine Or.inl ⟨entry.2, hmem, rfl, ?_⟩
    rw [hout, hin, if_neg fun hlink => hother hlink.1, if_neg fun hlink => hother hlink.1, add_zero,
      add_zero]

/-- The one step of every run: each link that an event leaves grew by the bytes of the event. -/
theorem step_grewBy {s s' : Capture} (hs : s.LinksCanonical) {e : Event} (hs' : s.step e = some s')
    {entry : LinkId × Link} (h : entry ∈ s'.allLinks.entries) : GrewBy s e entry := by
  have hsame : ∀ {s₁ : Capture}, (∀ a b, sentBytes a b (s, e) = 0) →
      entry ∈ s₁.allLinks.entries → s₁.allLinks = s.allLinks → GrewBy s e entry :=
    fun hnone hmem heq => GrewBy.of_mem hnone (heq ▸ hmem) rfl rfl
  cases e with
  | clock now =>
      obtain rfl := Option.some.inj hs'
      exact hsame (fun _ _ => rfl) h rfl
  | startCapture =>
      obtain rfl := Option.some.inj hs'
      unfold startCapture at h
      split at h
      · exact hsame (fun _ _ => rfl) h rfl
      · split at h
        · exact absurd h List.not_mem_nil
        · exact hsame (fun _ _ => rfl) h rfl
  | pauseCapture =>
      obtain rfl := Option.some.inj hs'
      refine hsame (fun _ _ => rfl) h ?_
      unfold pauseCapture
      split <;> rfl
  | endOfFile =>
      obtain rfl := Option.some.inj hs'
      refine hsame (fun _ _ => rfl) h ?_
      unfold endOfFile
      split <;> rfl
  | stopCapture =>
      obtain rfl := Option.some.inj hs'
      unfold stopCapture at h
      split at h
      · exact hsame (fun _ _ => rfl) h rfl
      · exact absurd h List.not_mem_nil
  | packetAcquired env rawPacket rawSize pktSize mem =>
      simp only [step] at hs'
      split at hs'
      next => exact packetAcquired_grewBy hs hs' h
      next => exact absurd hs'.symm (Option.some_ne_none s')
  | nodesUpdate pref =>
      obtain rfl := Option.some.inj hs'
      exact hsame (fun _ _ => rfl) h rfl
  | linksUpdate pref =>
      obtain rfl := Option.some.inj hs'
      exact linksUpdate_grewBy h
  | summaryUpdate pref =>
      obtain rfl := Option.some.inj hs'
      refine hsame (fun _ _ => rfl) h ?_
      unfold protocolSummaryUpdateAll
      split <;> rfl

theorem LinksCanonical.step {s s' : Capture} (hs : s.LinksCanonical) {e : Event}
    (hs' : s.step e = some s') : s'.LinksCanonical := by
  intro entry hentry
  rcases step_grewBy hs hs' hentry with ⟨old, hmem, hid, _⟩ | ⟨_, hid, hle, _⟩
  · exact ⟨hid.trans (hs _ hmem).1, (hs _ hmem).2⟩
  · exact ⟨hid, hle⟩

theorem Run.linksCanonical {past : List (Capture × Event)} {s : Capture} (h : Run past s) :
    s.LinksCanonical := by
  induction h with
  | initial now => exact fun _ hentry => absurd hentry List.not_mem_nil
  | step _ e hstep ih => exact ih.step hstep

/-- The totals of a link are the bytes since the event that created it. -/
theorem Run.totals {past : List (Capture × Event)} {s : Capture} (h : Run past s) :
    ∀ entry ∈ s.allLinks.entries, ∃ before since, past = before ++ since ∧
      CreatedBy entry.1 since ∧
      entry.2.linkStats.totals =
        ((((since.map (bytesOut entry.1)).sum : Nat) : Int),
          (((since.map (bytesIn entry.1)).sum : Nat) : Int)) := by
  induction h with
  | initial now => exact fun _ hentry => absurd hentry List.not_mem_nil
  | @step past s s' hrun e hstep ih =>
      intro entry hentry
      rcases step_grewBy hrun.linksCanonical hstep hentry with
        ⟨old, hmem, _, htotals⟩ | ⟨hnone, _, _, htotals⟩
      · obtain ⟨before, since, rfl, hcreated, hold⟩ := ih (entry.1, old) hmem
        refine ⟨before, since ++ [(s, e)], List.append_assoc _ _ _, ?_, ?_⟩
        · cases since with
          | nil => exact hcreated.elim
          | cons first rest =>
              refine ⟨hcreated.1, fun p hp => ?_⟩
              rcases List.mem_append.mp hp with hp | hp
              · exact hcreated.2 p hp
              · rw [List.mem_singleton.mp hp, Option.isSome_iff_exists]
                exact ⟨old, SortedTree.lookup_eq_some_iff.mpr ⟨_, hmem, ThreeWay.refl _⟩⟩
        · rw [htotals, hold]
          simp
      · refine ⟨past, [(s, e)], rfl, ⟨hnone, fun _ hp => absurd hp List.not_mem_nil⟩, ?_⟩
        rw [htotals]
        simp

/-- **Links are canonical and directional.** After every run the key of a link is its id, with the
source not after the destination; there is one link at most for two endpoints, in whatever order;
packets from `a` to `b` and from `b` to `a` fall on the same link; and the outbound and inbound
totals of a link are the bytes sent either way since it was created. -/
theorem run_links {past : List (Capture × Event)} {s : Capture} (h : Run past s) :
    (∀ entry ∈ s.allLinks.entries,
      entry.2.linkId = entry.1 ∧ nodeIdCompare entry.1.src entry.1.dst ≤ 0) ∧
    (∀ entry ∈ s.allLinks.entries, ∀ other ∈ s.allLinks.entries,
      (nodeIdCompare entry.1.src other.1.src = 0 ∧ nodeIdCompare entry.1.dst other.1.dst = 0) ∨
        (nodeIdCompare entry.1.src other.1.dst = 0 ∧ nodeIdCompare entry.1.dst other.1.src = 0) →
      entry = other) ∧
    (∀ a b, s.allLinks.lookup (linkOf a b).1 = s.allLinks.lookup (linkOf b a).1) ∧
    (∀ entry ∈ s.allLinks.entries, ∃ before since, past = before ++ since ∧
      CreatedBy entry.1 since ∧
      entry.2.linkStats.statsOut.accumulated = ((since.map (bytesOut entry.1)).sum : Nat) ∧
      entry.2.linkStats.statsIn.accumulated = ((since.map (bytesIn entry.1)).sum : Nat)) := by
  refine ⟨h.linksCanonical, fun entry hentry other hother hends => ?_, fun a b => ?_,
    fun entry hentry => ?_⟩
  · refine SortedTree.eq_of_mem_of_cmp hentry hother ?_
    have hle := (h.linksCanonical entry hentry).2
    have hother_le := (h.linksCanonical other hother).2
    have hsame : linkOf entry.1.src entry.1.dst = (entry.1, .outbound) :=
      if_pos (Int.lt_add_one_iff.mpr hle)
    have hlink := (linkOf_eq_iff hother_le).mpr hends
    rwa [hsame] at hlink
  · exact SortedTree.lookup_congr (linkOf_swap a b)
  · obtain ⟨before, since, hpast, hcreated, htotals⟩ := h.totals entry hentry
    exact ⟨before, since, hpast, hcreated, (Prod.mk.inj htotals).1, (Prod.mk.inj htotals).2⟩

def arpBetween (src dst : UInt8) (i : Nat) : UInt8 :=
  if i = 5 then dst else if i = 11 then src else if i = 12 then 0x08 else if i = 13 then 0x06 else 0

/-- One packet goes from 1 to 2 and a longer one back. -/
def answeredArp : List Event :=
  [.startCapture,
    .packetAcquired (DecodeEnv.bare linktypeEthernet .link6) (arpBetween 1 2) 60 60 ⟨7, 1, 2⟩,
    .packetAcquired (DecodeEnv.bare linktypeEthernet .link6) (arpBetween 2 1) 60 90 ⟨8, 3, 4⟩]

theorem run_links_answeredArp : ∃ past s, Run past s ∧ past.map Prod.snd = answeredArp ∧
    (s.allLinks.entries.map fun entry =>
      (entry.2.linkStats.statsOut.accumulated, entry.2.linkStats.statsIn.accumulated)) = [(60, 90)] ∧
    ∀ entry ∈ s.allLinks.entries, nodeIdCompare entry.1.src entry.1.dst ≤ 0 ∧
      ∃ before since, past = before ++ since ∧ CreatedBy entry.1 since ∧
        entry.2.linkStats.statsOut.accumulated = ((since.map (bytesOut entry.1)).sum : Nat) ∧
        entry.2.linkStats.statsIn.accumulated = ((since.map (bytesIn entry.1)).sum : Nat) := by
  have hrun := (((Run.initial ⟨10, 0⟩).step answeredArp[0] rfl).step answeredArp[1] rfl).step
    answeredArp[2] rfl
  refine ⟨_, _, hrun, rfl, by decide +kernel, fun entry hentry => ?_⟩
  obtain ⟨hcanonical, _, _, htotals⟩ := run_links hrun
  exact ⟨(hcanonical entry hentry).2, htotals entry hentry⟩

end Capture

end EtherApe
