import EtherApe.DecodeProto.Preserved

/-!
# The protocol stack of a decoded packet

The decoders name the levels from the first on without a gap, and the topmost name is copied to
level zero at the end.
-/

namespace EtherApe

open DecodeState

/-- While decoding, the levels below the current one are named, level zero apart. -/
structure StackShape (d : DecodeState) : Prop where
  pos : 1 ≤ d.curLevel
  le : d.curLevel ≤ stackSize + 1
  named : ∀ i : Level, 1 ≤ i.val → ((d.pr.protonames i).isSome ↔ i.val < d.curLevel)
  topmost : ∀ i : Level, i.val = 0 → d.pr.protonames i = none

theorem stackShape_start (bytes : Nat → UInt8) (caplen : Nat) (conversations : Conversations)
    (pphLkentry : Option Linktype) :
    StackShape (decodeProtoStart bytes caplen conversations pphLkentry) where
  pos := le_rfl
  le := Nat.le_add_left 1 5
  named _ hi := iff_of_false Bool.false_ne_true (not_lt.mpr hi)
  topmost _ _ := rfl

theorem StackShape.decodeProtoAdd {d : DecodeState} (h : StackShape d) (name : String) :
    StackShape (d.decodeProtoAdd name) := by
  by_cases hlevel : d.curLevel ≤ stackSize
  · have hpos := h.pos
    refine ⟨?_, ?_, ?_, ?_⟩
    · simp [hlevel]
    · simp [hlevel]
    · intro i hi
      simp only [decodeProtoAdd_pr, decodeProtoAdd_curLevel, if_pos hlevel]
      split
      next heq => simp [heq]
      next hne =>
        rw [h.named i hi]
        omega
    · intro i hi
      simp only [decodeProtoAdd_pr, if_pos hlevel]
      rw [if_neg (by omega), h.topmost i hi]
  · refine ⟨?_, ?_, ?_, ?_⟩
    · simpa [hlevel] using h.pos
    · simpa [hlevel] using h.le
    · simpa [hlevel] using h.named
    · simpa [hlevel] using h.topmost

theorem preserved_stackShape : Preserved StackShape where
  decodeProtoAdd h := h.decodeProtoAdd _
  addOffset h := ⟨h.pos, h.le, h.named, h.topmost⟩
  gAssert h := ⟨h.pos, h.le, h.named, h.topmost⟩
  setSrcNodeId h := ⟨h.pos, h.le, h.named, h.topmost⟩
  setDstNodeId h := ⟨h.pos, h.le, h.named, h.topmost⟩
  setGlobalAddresses h := ⟨h.pos, h.le, h.named, h.topmost⟩
  setGlobalPorts h := ⟨h.pos, h.le, h.named, h.topmost⟩
  setConversations h := ⟨h.pos, h.le, h.named, h.topmost⟩
  setPphLkentry h := ⟨h.pos, h.le, h.named, h.topmost⟩
  touch h := ⟨h.pos, h.le, h.named, h.topmost⟩

theorem StackShape.findSome_topmost {d : DecodeState} (h : StackShape d) :
    ∃ k : Level, k.val + 1 = d.curLevel ∧
      (List.finRange stackSize).reverse.findSome? (fun i => d.pr.protonames i.succ) =
        d.pr.protonames k := by
  have hpos := h.pos
  have hle := h.le
  refine ⟨⟨d.curLevel - 1, by omega⟩, Nat.sub_add_cancel hpos, ?_⟩
  cases hfind : (List.finRange stackSize).reverse.findSome? (fun i => d.pr.protonames i.succ) with
  | none =>
      rw [List.findSome?_eq_none_iff] at hfind
      by_cases hk : d.curLevel - 1 = 0
      · exact (h.topmost _ hk).symm
      · have hnone := hfind ⟨d.curLevel - 2, by omega⟩ (by simp)
        have hsucc : (⟨d.curLevel - 2, by omega⟩ : Fin stackSize).succ =
            ⟨d.curLevel - 1, by omega⟩ := Fin.ext (show d.curLevel - 2 + 1 = d.curLevel - 1 by omega)
        rw [← hsucc, hnone]
  | some name =>
      obtain ⟨above, i, below, hsplit, hi, habove⟩ := List.findSome?_eq_some_iff.mp hfind
      have hlt : i.val + 1 < d.curLevel :=
        (h.named i.succ (Nat.le_add_left 1 _)).mp (by rw [hi]; rfl)
      have hmax : i.val + 1 = d.curLevel - 1 := by
        by_contra hne
        have hdesc : (above ++ i :: below).Pairwise (· > ·) := by
          rw [← hsplit, List.pairwise_reverse]
          exact List.pairwise_lt_finRange _
        have hmem : (⟨d.curLevel - 2, by omega⟩ : Fin stackSize) ∈ above ++ i :: below := by
          rw [← hsplit]
          simp
        obtain ⟨_, hbelow, _⟩ := List.pairwise_append.mp hdesc
        rcases List.mem_append.mp hmem with habove' | hmem
        · have hsome := (h.named (Fin.succ ⟨d.curLevel - 2, by omega⟩) (Nat.le_add_left 1 _)).mpr
            (show d.curLevel - 2 + 1 < d.curLevel by omega)
          rw [habove _ habove'] at hsome
          exact absurd hsome Bool.false_ne_true
        · rcases List.mem_cons.mp hmem with heq | hmem
          · have hval : d.curLevel - 2 = i.val := congrArg Fin.val heq
            omega
          · have hgt : d.curLevel - 2 < i.val := (List.pairwise_cons.mp hbelow).1 _ hmem
            omega
      rw [← hi]
      exact congrArg _ (Fin.ext hmax)

/-- The stack of a decoded packet is contiguous. -/
theorem StackShape.contiguous_copyTopmost {d : DecodeState} (h : StackShape d) :
    (copyTopmost d).pr.Contiguous := by
  obtain ⟨k, hk, hfind⟩ := h.findSome_topmost
  have hlt : ∀ i : Level, 0 < i → ((d.pr.protonames i).isSome ↔ i ≤ k) := by
    intro i hi
    rw [h.named i hi, ← hk, Fin.le_def]
    omega
  unfold copyTopmost
  rw [hfind]
  by_cases hzero : k.val = 0
  · have hnone := h.topmost k hzero
    rw [hnone]
    exact ⟨k, hlt, fun hk => absurd hzero (Nat.pos_iff_ne_zero.mp hk), fun hk => hk ▸ hnone⟩
  · have hk0 : 0 < k := Nat.pos_of_ne_zero hzero
    obtain ⟨name, hname⟩ := Option.isSome_iff_exists.mp ((hlt k hk0).mpr le_rfl)
    rw [hname]
    refine ⟨k, ?_, ?_, ?_⟩
    · intro i hi
      have hi' : ¬i.val = 0 := (Fin.lt_def.mp hi).ne'
      rw [← hlt i hi]
      dsimp only
      rw [if_neg hi']
    · intro _
      dsimp only
      rw [if_pos (show (0 : Level).val = 0 from rfl), if_neg hzero, hname]
    · exact fun hk => absurd hk hk0.ne'

theorem getPacketProt_contiguous {env : DecodeEnv} {calls : Nat} {d d' : DecodeState}
    (hd : StackShape d) (h : getPacketProt env calls d = .finished d') : d'.pr.Contiguous := by
  have hcall : StackShape (env.lkentry.val.getFun.call env (getPpi env calls) d).state :=
    preserved_stackShape.network.call (fun _ => preserved_stackShape.network.getPpi) hd
  unfold getPacketProt at h
  cases hout : env.lkentry.val.getFun.call env (getPpi env calls) d with
  | finished e =>
      rw [hout] at h hcall
      obtain rfl : copyTopmost e = d' := Outcome.finished.inj h
      exact StackShape.contiguous_copyTopmost hcall
  | unfinished e =>
      rw [hout] at h
      exact Outcome.noConfusion h

/-! ### The names that were added -/

/-- While decoding, the names on the stack are the first that were added, in their order. -/
structure NamesRecorded (d : DecodeState) : Prop where
  level : d.curLevel = min d.added.length stackSize + 1
  named : ∀ i : Level, 1 ≤ i.val → d.pr.protonames i = (d.added.map Prod.fst)[i.val - 1]?
  topmost : ∀ i : Level, i.val = 0 → d.pr.protonames i = none

theorem namesRecorded_start (bytes : Nat → UInt8) (caplen : Nat) (conversations : Conversations)
    (pphLkentry : Option Linktype) :
    NamesRecorded (decodeProtoStart bytes caplen conversations pphLkentry) :=
  ⟨rfl, fun _ _ => rfl, fun _ _ => rfl⟩

theorem NamesRecorded.decodeProtoAdd {d : DecodeState} (h : NamesRecorded d) (name : String) :
    NamesRecorded (d.decodeProtoAdd name) := by
  have hlevel := h.level
  refine ⟨?_, ?_, ?_⟩
  · simp only [decodeProtoAdd_curLevel, decodeProtoAdd_added, List.length_append,
      List.length_singleton]
    split
    · omega
    · omega
  · intro i hi
    have hi' := i.isLt
    simp only [decodeProtoAdd_pr, decodeProtoAdd_added, List.map_append, List.map_singleton]
    split
    next hroom =>
      dsimp only
      split
      next heq =>
        have hlast : i.val - 1 = (d.added.map Prod.fst).length := by
          rw [List.length_map]
          omega
        rw [hlast, List.getElem?_concat_length]
      next hne =>
        rw [h.named i hi]
        by_cases hlt : i.val - 1 < (d.added.map Prod.fst).length
        · rw [List.getElem?_append_left hlt]
        · rw [List.length_map] at hlt
          rw [List.getElem?_eq_none (by rw [List.length_map]; omega), List.getElem?_eq_none]
          rw [List.length_append, List.length_map, List.length_singleton]
          omega
    next hfull =>
      rw [h.named i hi, List.getElem?_append_left]
      rw [List.length_map]
      omega
  · intro i hi
    simp only [decodeProtoAdd_pr]
    split
    · dsimp only
      rw [if_neg (by omega), h.topmost i hi]
    · exact h.topmost i hi

theorem preserved_namesRecorded : Preserved NamesRecorded where
  decodeProtoAdd h := h.decodeProtoAdd _
  addOffset h := ⟨h.level, h.named, h.topmost⟩
  gAssert h := ⟨h.level, h.named, h.topmost⟩
  setSrcNodeId h := ⟨h.level, h.named, h.topmost⟩
  setDstNodeId h := ⟨h.level, h.named, h.topmost⟩
  setGlobalAddresses h := ⟨h.level, h.named, h.topmost⟩
  setGlobalPorts h := ⟨h.level, h.named, h.topmost⟩
  setConversations h := ⟨h.level, h.named, h.topmost⟩
  setPphLkentry h := ⟨h.level, h.named, h.topmost⟩
  touch h := ⟨h.level, h.named, h.topmost⟩

theorem preserved_prefix (names : List String) :
    Preserved fun d => names <+: d.added.map Prod.fst where
  decodeProtoAdd h := by
    rw [decodeProtoAdd_added, List.map_append]
    exact h.trans (List.prefix_append _ _)
  addOffset h := h
  gAssert h := h
  setSrcNodeId h := h
  setDstNodeId h := h
  setGlobalAddresses h := h
  setGlobalPorts h := h
  setConversations h := h
  setPphLkentry h := h
  touch h := h

@[simp] theorem copyTopmost_added (d : DecodeState) : (copyTopmost d).added = d.added := by
  unfold copyTopmost
  split <;> rfl

theorem copyTopmost_protonames (d : DecodeState) {i : Level} (hi : 0 < i) :
    (copyTopmost d).pr.protonames i = d.pr.protonames i := by
  have hpos : i.val ≠ 0 := (Fin.lt_def.mp hi).ne'
  unfold copyTopmost
  split
  · exact if_neg hpos
  · rfl

/-- Above level zero the stack of a decoded packet holds the names the decoders added, as many of
them as fit. -/
theorem getPacketProt_protonames {env : DecodeEnv} {calls : Nat} {d d' : DecodeState}
    (hd : NamesRecorded d) (h : getPacketProt env calls d = .finished d') {i : Level} (hi : 0 < i) :
    d'.pr.protonames i = (d'.added.map Prod.fst)[i.val - 1]? := by
  have hcall : NamesRecorded (env.lkentry.val.getFun.call env (getPpi env calls) d).state :=
    preserved_namesRecorded.network.call (fun _ => preserved_namesRecorded.network.getPpi) hd
  unfold getPacketProt at h
  cases hout : env.lkentry.val.getFun.call env (getPpi env calls) d with
  | finished e =>
      rw [hout] at h hcall
      obtain rfl : copyTopmost e = d' := Outcome.finished.inj h
      rw [copyTopmost_protonames e hi, copyTopmost_added]
      exact hcall.named i (Fin.lt_def.mp hi)
  | unfinished e =>
      rw [hout] at h
      exact Outcome.noConfusion h

/-- An Ethernet frame of 60 bytes with the type of ARP. -/
def arpFrame (i : Nat) : UInt8 := if i = 12 then 0x08 else if i = 13 then 0x06 else 0

end EtherApe
