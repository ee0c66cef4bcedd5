import EtherApe.DecodeProto.Stack
import EtherApe.TrafficStats.Update

/-!
# Taking a packet off again

A packet is taken off the protocol stack level by level, until the first level it does not name. The
decoders leave no gap between the names, so these are the levels it was added to. A protocol that was
purged in between ends the loop early, but only an empty packet misses one, and there is nothing to
take off for it.
-/

namespace EtherApe

namespace TrafficStats

/-- In any state that is reached, a queued packet is taken off at the levels it names. -/
theorem Reached.subPkt {ts : TrafficStats} (h : Reached ts) {it : PacketListItem}
    (hit : it ∈ ts.pktList) :
    ts.statsProtos.subPkt it.info = ts.statsProtos.atNamed it.info fun name =>
      Protostack.updateNamed name (Protostack.subStats it.info.size) := by
  by_cases hsize : it.info.size = 0
  · rw [Protostack.atNamed_empty hsize h.settled.protos]
    exact Protostack.subPktLoop_empty hsize h.settled.protos _
  · apply Protostack.subPkt_eq_atNamed (h.accountsFor.contiguous it hit)
    intro i name hname
    by_contra hmissing
    exact hsize (h.accountsFor.size_eq_zero_of_missing hit hname hmissing)

end TrafficStats

/-- **The stack of a decoded packet.** It holds the first names that the decoders added, without a gap,
and the topmost of them again at level zero; so what takes the packet off visits just the levels that
adding it updated, when it was added just now and at any later time while it is queued. -/
theorem getPacketProt_stack {env : DecodeEnv} {calls : Nat} {bytes : Nat → UInt8} {caplen : Nat}
    {conversations : Conversations} {pphLkentry : Option Linktype} {d : DecodeState}
    (h : getPacketProt env calls (decodeProtoStart bytes caplen conversations pphLkentry) =
      .finished d) :
    (∃ k : Level,
      (∀ i : Level, 0 < i → i ≤ k →
        ∃ name, d.pr.protonames i = some name ∧ (d.added.map Prod.fst)[i.val - 1]? = some name) ∧
      (∀ i : Level, k < i → d.pr.protonames i = none) ∧
      d.pr.protonames 0 = if k = 0 then none else d.pr.protonames k) ∧
    ∀ packet : PacketInfo, packet.protDesc = d.pr →
      (∀ (pstk : Protostack) (now : Timeval),
        pstk.addPkt now packet = (pstk.atNamed packet fun name =>
          Protostack.addAtLevel now name packet.size) ∧
        (pstk.addPkt now packet).subPkt packet = (pstk.addPkt now packet).atNamed packet fun name =>
          Protostack.updateNamed name (Protostack.subStats packet.size)) ∧
      ∀ ts : TrafficStats, ts.Reached → ∀ it ∈ ts.pktList, it.info = packet →
        ts.statsProtos.subPkt packet = ts.statsProtos.atNamed packet fun name =>
          Protostack.updateNamed name (Protostack.subStats packet.size) := by
  have hshape := getPacketProt_contiguous (stackShape_start bytes caplen conversations pphLkentry) h
  constructor
  · obtain ⟨k, hnamed, htop, hempty⟩ := hshape
    refine ⟨k, ?_, ?_, ?_⟩
    · intro i hi hik
      obtain ⟨name, hname⟩ := Option.isSome_iff_exists.mp ((hnamed i hi).mpr hik)
      have hadded := getPacketProt_protonames
        (namesRecorded_start bytes caplen conversations pphLkentry) h hi
      exact ⟨name, hname, hadded.symm.trans hname⟩
    · intro i hki
      rw [← Option.not_isSome_iff_eq_none, hnamed i ((Fin.zero_le k).trans_lt hki)]
      exact not_le.mpr hki
    · split
      next hk => exact hempty hk
      next hk => exact htop (Fin.pos_iff_ne_zero.mpr hk)
  · intro packet hdesc
    refine ⟨fun pstk now => ⟨pstk.addPkt_eq_atNamed now packet, ?_⟩, ?_⟩
    · exact Protostack.subPkt_eq_atNamed (hdesc ▸ hshape) (pstk.holds_addPkt now packet)
    · rintro ts hts it hit rfl
      exact hts.subPkt hit

/-- An ARP frame of 60 bytes is taken off where it was added, under `ARP` at level 2. -/
theorem getPacketProt_stack_arpFrame :
    ∃ d, getPacketProt (DecodeEnv.bare (linktypeAt ⟨0, by decide⟩) .ip) 0
        (decodeProtoStart arpFrame 60 Conversations.empty none) = .finished d ∧
      d.added.map Prod.fst = ["ETH_II", "ARP"] ∧
      (∃ k : Level, 2 ≤ k ∧ d.pr.protonames 0 = d.pr.protonames k) ∧
      ∀ (pstk : Protostack) (now : Timeval),
        (pstk.addPkt now ⟨0, 60, now, d.pr⟩).subPkt ⟨0, 60, now, d.pr⟩ 2 =
          Protostack.updateNamed "ARP" (Protostack.subStats 60)
            (Protostack.addAtLevel now "ARP" 60 (pstk 2)) := by
  obtain ⟨d, hd, hadded, harp⟩ :
      ∃ d, getPacketProt (DecodeEnv.bare (linktypeAt ⟨0, by decide⟩) .ip) 0
          (decodeProtoStart arpFrame 60 Conversations.empty none) = .finished d ∧
        d.added.map Prod.fst = ["ETH_II", "ARP"] ∧ d.pr.protonames 2 = some "ARP" :=
    ⟨_, rfl, by decide +kernel, by decide +kernel⟩
  obtain ⟨⟨k, _, hnone, htop⟩, hvisits⟩ := getPacketProt_stack hd
  have hk : (2 : Level) ≤ k := by
    by_contra hlt
    rw [hnone 2 (not_le.mp hlt)] at harp
    cases harp
  have hpos : k ≠ 0 := by
    intro hzero
    rw [hzero] at hk
    exact absurd hk (by decide)
  refine ⟨d, hd, hadded, ⟨k, hk, htop.trans (if_neg hpos)⟩, fun pstk now => ?_⟩
  obtain ⟨hadd, hsub⟩ := (hvisits ⟨0, 60, now, d.pr⟩ rfl).1 pstk now
  rw [hsub, Protostack.atNamed_of_some harp, hadd, Protostack.atNamed_of_some harp]
  rfl

end EtherApe
