import EtherApe.DecodeProto
import EtherApe.Names.Layout

/-!
# Termination of the name decoder

Only domain names keep the name decoder in a loop without a bound. It returns just when none of the names
it reads comes back to where it has been.
-/

namespace EtherApe

open CInt Iteration

variable {env : NamesEnv} {inp : NameInput} {rounds rounds' : Nat} {start : Int}

/-! ### Rounds -/

theorem EnoughRounds.mono (hle : rounds ≤ rounds') (h : EnoughRounds inp rounds start) :
    EnoughRounds inp rounds' start :=
  h.imp_right (after_none_mono hle)

/-- A name whose chain ends has enough rounds. -/
theorem exists_enoughRounds_iff (inp : NameInput) (start : Int) :
    (∃ rounds, EnoughRounds inp rounds start) ↔ Ends (chain inp.packet start) start := by
  constructor
  · rintro ⟨rounds, hle | hend⟩
    · exact ends_of_le inp.packet start hle
    · exact ⟨rounds, hend⟩
  · rintro ⟨rounds, hend⟩
    exact ⟨rounds, Or.inr hend⟩

/-- Finitely many names share the rounds of the longest of them. -/
theorem exists_enoughRounds_forall {starts : List Int}
    (h : ∀ start ∈ starts, Ends (chain inp.packet start) start) :
    ∃ rounds, ∀ start ∈ starts, EnoughRounds inp rounds start := by
  induction starts with
  | nil => exact ⟨0, by simp⟩
  | cons start starts ih =>
      rw [List.forall_mem_cons] at h
      obtain ⟨rounds, hrounds⟩ := (exists_enoughRounds_iff inp start).mpr h.1
      obtain ⟨rounds', hrounds'⟩ := ih h.2
      refine ⟨max rounds rounds', List.forall_mem_cons.mpr ⟨?_, fun s hs => ?_⟩⟩
      · exact hrounds.mono (le_max_left _ _)
      · exact (hrounds' s hs).mono (le_max_right _ _)

/-! ### Levels -/

theorem decodeNext_returns_iff (levels : Nat) (nt : NameAdd) :
    (decodeNext env inp rounds levels nt).1 = true ↔
      ∀ h ∈ headersFrom inp levels nt.level nt.offset,
        ∀ start ∈ h.fn.encodedNames inp h.off, EnoughRounds inp rounds start := by
  induction levels generalizing nt with
  | zero => exact iff_of_true rfl (by simp [headersFrom])
  | succ levels ih =>
      rw [decodeNext, headersFrom]
      cases htoken : inp.tokens.token nt.level with
      | none => exact iff_of_true rfl (by simp)
      | some name =>
          dsimp only
          cases hlookup : protFunctionsTable.lookup name with
          | none => exact ih nt.nextLevel
          | some fn =>
              dsimp only
              by_cases hle : inp.packet.packetSize ≤ nt.offset
              · rw [if_pos hle, if_pos hle]
                exact iff_of_true rfl (by simp)
              · have hlt := Nat.lt_of_not_le hle
                rw [if_neg hle, if_neg hle, List.forall_mem_cons,
                  ← call_isSome_iff env fn hlt]
                rcases hcall : fn.call env inp rounds nt with ⟨_ | goOn, nt'⟩
                · exact iff_of_false (by simp) (by simp)
                · obtain ⟨hlevel, hnext⟩ := call_returned fn hlt hcall
                  rw [hnext]
                  cases goOn with
                  | false => exact iff_of_true rfl (by simp)
                  | true =>
                      have hrest := ih nt'.nextLevel
                      rw [NameAdd.nextLevel_level, NameAdd.nextLevel_offset, hlevel] at hrest
                      simpa using hrest

theorem getPacketNames_returns_iff (uninit : NodeId) :
    (getPacketNames env inp uninit rounds).1 = true ↔
      ∀ start ∈ encodedNames inp, EnoughRounds inp rounds start := by
  rw [getPacketNames, decodeNext_returns_iff]
  simp only [encodedNames, headers, List.mem_flatMap]
  exact ⟨fun h start ⟨hd, hmem, hstart⟩ => h hd hmem start hstart,
    fun h hd hmem start hstart => h start ⟨hd, hmem, hstart⟩⟩

/-- The name decoder returns just when the chains of all names end. -/
theorem exists_returns_iff_ends (env : NamesEnv) (inp : NameInput) (uninit : NodeId) :
    (∃ rounds, (getPacketNames env inp uninit rounds).1 = true) ↔
      ∀ start ∈ encodedNames inp, Ends (chain inp.packet start) start := by
  constructor
  · rintro ⟨rounds, hreturns⟩ start hstart
    exact (exists_enoughRounds_iff inp start).mp
      ⟨rounds, getPacketNames_returns_iff uninit |>.mp hreturns start hstart⟩
  · intro hends
    obtain ⟨rounds, hrounds⟩ := exists_enoughRounds_forall hends
    exact ⟨rounds, (getPacketNames_returns_iff uninit).mpr hrounds⟩

/-- **Termination of the name decoder.** -/
theorem getPacketNames_terminates_iff (env : NamesEnv) (inp : NameInput) (uninit : NodeId) :
    (∃ rounds, (getPacketNames env inp uninit rounds).1 = true) ↔
      ∀ start ∈ encodedNames inp, ¬Circular inp.packet start := by
  rw [exists_returns_iff_ends]
  exact forall₂_congr fun start _ => ends_chain_iff inp.packet start

/-- A NetBIOS datagram from port 138 whose name is a pointer to a label of one letter, in front of that
pointer. -/
def loopedDatagram : RawPacket where
  p i := ([(12, 0x08), (14, 0x45), (23, 17), (35, 138), (42, 0x10), (54, 0x01), (55, 0x41), (56, 0xC0),
    (57, 0xFE)] : List (Nat × UInt8)).lookup i.toNat |>.getD 0
  packetSize := 60
  packetSize_lt := by decide

theorem loopedDatagram_circular : Circular loopedDatagram 56 :=
  ⟨56, visits_refl 56, 1, by decide⟩

theorem not_all_names_terminate :
    ¬∀ (env : DecodeEnv) (names : NamesEnv) (packet : RawPacket) (d : DecodeState)
      (dir : PacketDirection) (uninit : NodeId),
      getPacketProt env 0 (packet.decodeStart Conversations.empty none) = .finished d →
      ∃ rounds, (getPacketNames names (d.nameInput env packet dir) uninit rounds).1 = true := by
  intro h
  let env := DecodeEnv.bare linktypeEthernet .ip
  have hreturns := h env ⟨.ip, false, fun _ => none, fun _ => [], fun _ => none, ⟨fun _ => 0, []⟩⟩
    loopedDatagram _ .outbound NodeId.clear rfl
  have hends := (exists_returns_iff_ends _ _ _).mp hreturns 56 (by decide +kernel)
  exact (ends_chain_iff loopedDatagram 56).mp hends loopedDatagram_circular

end EtherApe
