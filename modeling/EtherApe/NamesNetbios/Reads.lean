import EtherApe.NamesNetbios.Components

/-!
# Reads of encoded names

`get_dns_name` checks each place against the end of the captured data, and never against their beginning.
It reads captured bytes only as long as no pointer leads in front of them.
-/

namespace EtherApe

open CInt Iteration

/-- The index of a captured byte. -/
def RawPacket.Captured (pd : RawPacket) (i : Int) : Prop := 0 ≤ i ∧ i < pd.packetSize

instance (pd : RawPacket) (i : Int) : Decidable (pd.Captured i) := inferInstanceAs (Decidable (_ ∧ _))

variable {pd : RawPacket} {start off : Int}

theorem captured_indicesFrom_iff {i : Int} {n : Nat} (hn : 0 < n) (hend : i + n ≤ pd.packetSize) :
    (∀ j ∈ indicesFrom i n, pd.Captured j) ↔ 0 ≤ i := by
  constructor
  · intro h
    exact (h i (mem_indicesFrom.mpr (by omega))).1
  · intro hi j hj
    have hbounds := mem_indicesFrom.mp hj
    exact ⟨by omega, by omega⟩

/-! ### Places -/

theorem component_end (pd : RawPacket) (start off : Int) :
    match component pd start off with
    | .cut used => used = 0 ∧ pd.packetSize ≤ off + 1 ∨ used = 1 ∧ off + 1 < pd.packetSize
    | .terminator => off + 1 < pd.packetSize
    | .label len => off + 1 < pd.packetSize ∧ unsigned 32 (off + 1 + len) < pd.packetSize
    | .pointer _ => off + 2 < pd.packetSize := by
  unfold component
  dsimp only
  split_ifs with hframe hzero hlabel hfits hpointer hfits
  · exact hframe
  · exact ⟨hframe, hfits⟩
  · exact Or.inr ⟨rfl, hframe⟩
  · exact hfits
  · exact Or.inr ⟨rfl, hframe⟩
  · exact hframe
  · exact Or.inl ⟨rfl, by omega⟩

/-- A round reads captured bytes only, unless it takes place in front of the packet. -/
theorem dnsRound_captured_iff (hpos : 0 < pd.packetSize) (start : Int) (s : DnsName) :
    (∀ i ∈ (dnsRound pd start s).state.reads, pd.Captured i) ↔
      (∀ i ∈ s.reads, pd.Captured i) ∧ 0 ≤ s.offset := by
  have hsize := pd.packetSize_lt
  have hround := dnsRound_spec pd start s
  have hend := component_end pd start s.offset
  cases hcomponent : component pd start s.offset with
  | cut used =>
      rw [hcomponent] at hround hend
      obtain ⟨s', hs', _, _, hreads⟩ := hround
      rw [hs', DnsRound.state, hreads, List.forall_mem_append]
      refine and_congr_right fun _ => ?_
      rcases hend with ⟨rfl, hend⟩ | ⟨rfl, hend⟩
      · exact iff_of_true (by simp [indicesFrom]) (by omega)
      · exact captured_indicesFrom_iff one_pos (by push_cast; omega)
  | terminator =>
      rw [hcomponent] at hround hend
      obtain ⟨s', hs', _, _, hreads⟩ := hround
      dsimp only at hend
      rw [hs', DnsRound.state, hreads, List.forall_mem_append, List.forall_mem_singleton]
      exact and_congr_right fun _ => and_iff_left (by omega)
  | label len =>
      rw [hcomponent] at hround hend
      obtain ⟨s', hs', _, _, more, hreads, hmore⟩ := hround
      obtain ⟨hframe, hfits⟩ := hend
      rw [hs', DnsRound.state, hreads, List.forall_mem_append, List.forall_mem_cons]
      refine and_congr_right fun _ => ⟨fun h => h.1.1, fun hoff => ⟨⟨hoff, by omega⟩, fun i hi => ?_⟩⟩
      -- a label that starts in the packet does not wrap around
      have hlen := label_le hcomponent
      have hexact : unsigned 32 (s.offset + 1 + len) = s.offset + 1 + len := by
        unfold unsigned
        omega
      have hi := hmore i hi
      exact ⟨by omega, by omega⟩
  | pointer target =>
      rw [hcomponent] at hround hend
      obtain ⟨s', hs', _, _, hreads⟩ := hround
      dsimp only at hend
      rw [hs', DnsRound.state, hreads, List.forall_mem_append]
      exact and_congr_right fun _ => captured_indicesFrom_iff two_pos (by push_cast; omega)

/-! ### Names -/

/-- Within so many rounds the chain does not come to a place in front of the packet. -/
def StaysWithin (pd : RawPacket) (rounds : Nat) (start off : Int) : Prop :=
  ∀ k < rounds, ∀ place, after (chain pd start) k off = some place → 0 ≤ place

theorem staysWithin_succ_iff {rounds : Nat} :
    StaysWithin pd (rounds + 1) start off ↔
      0 ≤ off ∧ ∀ next, chain pd start off = some next → StaysWithin pd rounds start next := by
  constructor
  · intro h
    refine ⟨h 0 (Nat.succ_pos _) off rfl, fun next hnext k hk place hplace => ?_⟩
    exact h (k + 1) (Nat.succ_lt_succ hk) place (by rw [after, hnext]; exact hplace)
  · rintro ⟨hoff, hnext⟩ k hk place hplace
    cases k with
    | zero =>
        obtain rfl := Option.some.inj hplace
        exact hoff
    | succ k =>
        rw [after] at hplace
        obtain ⟨next, hchain, hplace⟩ := Option.bind_eq_some_iff.mp hplace
        exact hnext next hchain k (Nat.lt_of_succ_lt_succ hk) place hplace

theorem dnsLoop_captured_iff (hpos : 0 < pd.packetSize) (start : Int) (rounds : Nat) (s : DnsName) :
    (∀ i ∈ (dnsLoop pd start rounds s).state.reads, pd.Captured i) ↔
      (∀ i ∈ s.reads, pd.Captured i) ∧ StaysWithin pd rounds start s.offset := by
  induction rounds generalizing s with
  | zero =>
      rw [dnsLoop]
      exact (and_iff_left fun k hk => absurd hk (Nat.not_lt_zero k)).symm
  | succ rounds ih =>
      have hreads := dnsRound_captured_iff hpos start s
      have hchain := dnsRound_chain pd start s
      rw [staysWithin_succ_iff, ← and_assoc, ← hreads, dnsLoop]
      cases hs : dnsRound pd start s with
      | more s' =>
          rw [hs] at hchain
          dsimp only at hchain ⊢
          rw [ih s', hchain]
          exact and_congr_right fun _ => by simp
      | terminated s' =>
          rw [hs] at hchain
          dsimp only at hchain ⊢
          exact (and_iff_left (by simp [hchain])).symm
      | overflow s' =>
          rw [hs] at hchain
          dsimp only at hchain ⊢
          exact (and_iff_left (by simp [hchain])).symm

theorem getDnsName_captured_iff (stack : List UInt8) (rounds : Nat) (hpos : 0 < pd.packetSize) :
    (∀ i ∈ (getDnsName stack rounds pd start).2, pd.Captured i) ↔
      StaysWithin pd rounds start start := by
  unfold getDnsName
  by_cases hle : pd.packetSize ≤ start
  · rw [if_pos hle]
    refine iff_of_true (by simp) fun k hk place hplace => ?_
    cases k with
    | zero =>
        obtain rfl := Option.some.inj hplace
        omega
    | succ k =>
        rw [after, chain_of_le _ _ hle] at hplace
        cases hplace
  · rw [if_neg hle]
    have hloop := dnsLoop_captured_iff hpos start rounds
      ⟨start, maxdname - 1, [], none, []⟩
    have hempty : ∀ i ∈ ([] : List Int), pd.Captured i := fun i hi => absurd hi List.not_mem_nil
    rw [and_iff_right hempty] at hloop
    rw [← hloop]
    cases dnsLoop pd start rounds ⟨start, maxdname - 1, [], none, []⟩ with
    | more s => exact Iff.rfl
    | terminated s => exact Iff.rfl
    | overflow s => exact Iff.rfl

end EtherApe
