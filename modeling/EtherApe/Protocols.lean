import EtherApe.BasicStats
import Mathlib.Data.List.Sort
import Mathlib.Algebra.BigOperators.Group.List.Basic
import Mathlib.Algebra.Order.BigOperators.Group.List

/-!
# Protocol stacks of traffic statistics

The model of the protocol stack methods of `protocols.c`. Every level keeps a list of the protocols
heard there; a packet is added at each level its own stack names and subtracted from level `0` up to
the first unnamed level.
-/

namespace EtherApe

structure Protocol where
  name : String
  stats : BasicStats

def Protocol.create (protocolName : String) (now : Timeval) : Protocol :=
  ⟨protocolName, BasicStats.reset now⟩

abbrev Protostack := Level → List Protocol

namespace Protostack

def open_ : Protostack := fun _ => []

def reset (_pstk : Protostack) : Protostack := fun _ => []

/-- Applies a change to the protocol named `name`, the first one found. -/
def updateNamed (name : String) (f : Protocol → Protocol) : List Protocol → List Protocol
  | [] => []
  | p :: ps => if p.name = name then f p :: ps else p :: updateNamed name f ps

def setLevel (pstk : Protostack) (i : Level) (ps : List Protocol) : Protostack :=
  fun j => if j = i then ps else pstk j

def addStats (now : Timeval) (size : Int) (p : Protocol) : Protocol :=
  { p with stats := p.stats.add now size }

def subStats (size : Int) (p : Protocol) : Protocol := { p with stats := p.stats.sub size }

/-- Adds a packet to the protocol `name` of a level, creating the protocol if there is none. -/
def addAtLevel (now : Timeval) (name : String) (size : Int) (ps : List Protocol) : List Protocol :=
  if ps.any (·.name = name) then updateNamed name (addStats now size) ps
  else updateNamed name (addStats now size) (Protocol.create name now :: ps)

/-- `protocol_stack_add_pkt`: unnamed levels are skipped. -/
def addPkt (pstk : Protostack) (now : Timeval) (packet : PacketInfo) : Protostack :=
  fun i =>
    match packet.protDesc.protonames i with
    | none => pstk i
    | some name => addAtLevel now name packet.size (pstk i)

/-- The loop of `protocol_stack_sub_pkt`, which stops at the first unnamed level and at a protocol
that is not found. -/
def subPktLoop (packet : PacketInfo) : List Level → Protostack → Protostack
  | [], pstk => pstk
  | i :: rest, pstk =>
      match packet.protDesc.protonames i with
      | none => pstk
      | some name =>
          if (pstk i).any (·.name = name) then
            subPktLoop packet rest
              (pstk.setLevel i (updateNamed name (subStats packet.size) (pstk i)))
          else pstk

def subPkt (pstk : Protostack) (packet : PacketInfo) : Protostack :=
  subPktLoop packet (List.finRange (stackSize + 1)) pstk

def avg (pstk : Protostack) (avgtime : ℚ) : Protostack :=
  fun i => (pstk i).map fun p => { p with stats := p.stats.avg avgtime }

/-- A protocol that has no traffic and was last heard long enough ago. -/
def expired (now : Timeval) (expireTime : ℚ) (p : Protocol) : Prop :=
  p.stats.averAccu ≤ 0 ∧ expireTime ≤ substractTimesMs now p.stats.lastTime

instance (now : Timeval) (expireTime : ℚ) (p : Protocol) : Decidable (expired now expireTime p) :=
  inferInstanceAs (Decidable (_ ∧ _))

def purgeExpired (pstk : Protostack) (now : Timeval) (expireTime : ℚ) : Protostack :=
  if 0 < expireTime then fun i => (pstk i).filter fun p => ¬expired now expireTime p else pstk

/-- The order of `prot_freq_compare`: the busiest protocol comes first. -/
def freqLe (a b : Protocol) : Prop := b.stats.accumulated ≤ a.stats.accumulated

instance : DecidableRel freqLe := fun _ _ => inferInstanceAs (Decidable (_ ≤ _))

/-- `protocol_stack_sort_most_used`: the level is sorted, stably, and its first name returned. -/
def sortMostUsed (pstk : Protostack) (level : Level) : Option String × Protostack :=
  match (pstk level).insertionSort freqLe with
  | [] => (none, pstk)
  | p :: ps => (some p.name, pstk.setLevel level (p :: ps))

/-! ### What a level accounts for -/

/-- The bytes in the current window that a level attributes to a name. -/
def levelAccu (name : String) (ps : List Protocol) : Int :=
  ((ps.filter (·.name = name)).map (·.stats.averAccu)).sum

/-- At most one protocol of each name. -/
def NamesNodup (ps : List Protocol) : Prop := (ps.map (·.name)).Nodup

theorem levelAccu_cons (name : String) (p : Protocol) (ps : List Protocol) :
    levelAccu name (p :: ps) = (if p.name = name then p.stats.averAccu else 0) + levelAccu name ps := by
  by_cases h : p.name = name <;> simp [levelAccu, h]

theorem levelAccu_eq_zero {name : String} {ps : List Protocol} (h : ∀ p ∈ ps, p.name ≠ name) :
    levelAccu name ps = 0 := by
  have hnil : ps.filter (·.name = name) = [] := List.filter_eq_nil_iff.mpr fun p hp => by simp [h p hp]
  simp [levelAccu, hnil]

theorem levelAccu_perm {name : String} {ps qs : List Protocol} (h : ps.Perm qs) :
    levelAccu name ps = levelAccu name qs :=
  ((h.filter _).map _).sum_eq

/-- A protocol of a level without repeated names holds all the level attributes to its name. -/
theorem averAccu_eq_levelAccu {ps : List Protocol} (hnames : NamesNodup ps) {p : Protocol}
    (hp : p ∈ ps) : p.stats.averAccu = levelAccu p.name ps := by
  induction ps with
  | nil => exact absurd hp List.not_mem_nil
  | cons q qs ih =>
      obtain ⟨hq, hqs⟩ := List.nodup_cons.mp hnames
      rw [levelAccu_cons]
      rcases List.mem_cons.mp hp with rfl | hp
      · rw [if_pos rfl, levelAccu_eq_zero, add_zero]
        exact fun r hr hname => hq (List.mem_map.mpr ⟨r, hr, hname⟩)
      · have hne : q.name ≠ p.name := fun hname => hq (List.mem_map.mpr ⟨p, hp, hname.symm⟩)
        rw [if_neg hne, zero_add]
        exact ih hqs hp

theorem updateNamed_names {name : String} {f : Protocol → Protocol} (hf : ∀ p, (f p).name = p.name)
    (ps : List Protocol) : (updateNamed name f ps).map (·.name) = ps.map (·.name) := by
  induction ps with
  | nil => rfl
  | cons p ps ih =>
      simp only [updateNamed]
      split
      · simp [hf]
      · simp [ih]

theorem mem_updateNamed {name : String} {f : Protocol → Protocol} {ps : List Protocol}
    {q : Protocol} (hq : q ∈ updateNamed name f ps) : q ∈ ps ∨ ∃ p ∈ ps, q = f p := by
  induction ps with
  | nil => exact absurd hq List.not_mem_nil
  | cons p ps ih =>
      simp only [updateNamed] at hq
      split at hq
      · rcases List.mem_cons.mp hq with rfl | hq
        · exact Or.inr ⟨p, List.mem_cons_self, rfl⟩
        · exact Or.inl (List.mem_cons_of_mem _ hq)
      · rcases List.mem_cons.mp hq with rfl | hq
        · exact Or.inl List.mem_cons_self
        · rcases ih hq with hq | ⟨r, hr, rfl⟩
          · exact Or.inl (List.mem_cons_of_mem _ hq)
          · exact Or.inr ⟨r, List.mem_cons_of_mem _ hr, rfl⟩

theorem levelAccu_updateNamed {name : String} {f : Protocol → Protocol} {v : Int}
    (hname : ∀ p, (f p).name = p.name) (haccu : ∀ p, (f p).stats.averAccu = p.stats.averAccu + v)
    {ps : List Protocol} (hmem : ps.any (·.name = name)) (n : String) :
    levelAccu n (updateNamed name f ps) = levelAccu n ps + if name = n then v else 0 := by
  induction ps with
  | nil => simp at hmem
  | cons p ps ih =>
      simp only [updateNamed]
      by_cases hp : p.name = name
      · rw [if_pos hp, levelAccu_cons, levelAccu_cons, hname, haccu, hp]
        split <;> ring
      · rw [if_neg hp, levelAccu_cons, levelAccu_cons, ih (by simpa [hp] using hmem)]
        ring

section AddAtLevel

variable (now : Timeval) (name : String) (size : Int) (ps : List Protocol)

theorem addAtLevel_names (h : NamesNodup ps) : NamesNodup (addAtLevel now name size ps) := by
  unfold addAtLevel NamesNodup
  split
  next =>
    rw [updateNamed_names (f := addStats now size) fun _ => rfl]
    exact h
  next hmem =>
    rw [updateNamed_names (f := addStats now size) fun _ => rfl, List.map_cons, List.nodup_cons]
    refine ⟨fun hname => hmem ?_, h⟩
    obtain ⟨p, hp, hpname⟩ := List.mem_map.mp hname
    exact List.any_eq_true.mpr ⟨p, hp, by simpa [Protocol.create] using hpname⟩

theorem levelAccu_addAtLevel (n : String) :
    levelAccu n (addAtLevel now name size ps) = levelAccu n ps + if name = n then size else 0 := by
  unfold addAtLevel
  split
  next hmem =>
    exact levelAccu_updateNamed (f := addStats now size) (fun _ => rfl) (fun _ => rfl) hmem n
  next =>
    rw [levelAccu_updateNamed (f := addStats now size) (fun _ => rfl) (fun _ => rfl)
      (by simp [Protocol.create]) n, levelAccu_cons]
    split <;> simp [Protocol.create]

end AddAtLevel

/-- The bytes a packet counts for under `name` at level `i`. -/
def countedAt (i : Level) (name : String) (packet : PacketInfo) : Int :=
  if packet.protDesc.protonames i = some name then packet.size else 0

theorem addPkt_names {pstk : Protostack} (h : ∀ i, NamesNodup (pstk i)) (now : Timeval)
    (packet : PacketInfo) (i : Level) : NamesNodup (pstk.addPkt now packet i) := by
  unfold addPkt
  split
  · exact h i
  · exact addAtLevel_names now _ _ _ (h i)

theorem levelAccu_addPkt (pstk : Protostack) (now : Timeval) (packet : PacketInfo) (i : Level)
    (name : String) :
    levelAccu name (pstk.addPkt now packet i) = levelAccu name (pstk i) + countedAt i name packet := by
  unfold addPkt countedAt
  split
  next hnone => simp [hnone]
  next n hsome => simp [hsome, levelAccu_addAtLevel]

section SubPkt

variable {packet : PacketInfo} {i : Level} {is : List Level} {pstk : Protostack} {name : String}

theorem subPktLoop_unnamed (h : packet.protDesc.protonames i = none) :
    subPktLoop packet (i :: is) pstk = pstk := by
  simp [subPktLoop, h]

theorem subPktLoop_missing (h : packet.protDesc.protonames i = some name)
    (hany : ¬(pstk i).any (·.name = name)) : subPktLoop packet (i :: is) pstk = pstk := by
  simp only [subPktLoop, h]
  rw [if_neg hany]

theorem subPktLoop_found (h : packet.protDesc.protonames i = some name)
    (hany : (pstk i).any (·.name = name)) :
    subPktLoop packet (i :: is) pstk =
      subPktLoop packet is (pstk.setLevel i (updateNamed name (subStats packet.size) (pstk i))) := by
  simp only [subPktLoop, h]
  rw [if_pos hany]

theorem subPktLoop_of_not_mem {j : Level} (hj : j ∉ is) : subPktLoop packet is pstk j = pstk j := by
  induction is generalizing pstk with
  | nil => rfl
  | cons i is ih =>
      obtain ⟨hne, hmem⟩ := not_or.mp (List.mem_cons.not.mp hj)
      cases hname : packet.protDesc.protonames i with
      | none => rw [subPktLoop_unnamed hname]
      | some name =>
          by_cases hany : (pstk i).any (·.name = name)
          · rw [subPktLoop_found hname hany, ih hmem, setLevel, if_neg hne]
          · rw [subPktLoop_missing hname hany]

theorem subPktLoop_level (hnodup : is.Nodup) (pstk : Protostack) (j : Level) :
    subPktLoop packet is pstk j = pstk j ∨
      ∃ name, subPktLoop packet is pstk j = updateNamed name (subStats packet.size) (pstk j) := by
  induction is generalizing pstk with
  | nil => exact Or.inl rfl
  | cons i is ih =>
      obtain ⟨hi, his⟩ := List.nodup_cons.mp hnodup
      cases hname : packet.protDesc.protonames i with
      | none => exact Or.inl (congrFun (subPktLoop_unnamed hname) j)
      | some name =>
          by_cases hany : (pstk i).any (·.name = name)
          · rw [subPktLoop_found hname hany]
            by_cases hji : j = i
            · subst hji
              right
              refine ⟨name, ?_⟩
              rw [subPktLoop_of_not_mem hi, setLevel, if_pos rfl]
            · have hlevel := ih his (pstk.setLevel i (updateNamed name (subStats packet.size) (pstk i)))
              rwa [setLevel, if_neg hji] at hlevel
          · exact Or.inl (congrFun (subPktLoop_missing hname hany) j)

theorem subPktLoop_names (h : ∀ i, NamesNodup (pstk i)) (hnodup : is.Nodup) (i : Level) :
    NamesNodup (subPktLoop packet is pstk i) := by
  have hlevel : subPktLoop packet is pstk i = pstk i ∨
      ∃ name, subPktLoop packet is pstk i = updateNamed name (subStats packet.size) (pstk i) :=
    subPktLoop_level hnodup pstk i
  rcases hlevel with hsame | ⟨name, hsub⟩
  · rw [hsame]
    exact h i
  · rw [hsub, NamesNodup, updateNamed_names (f := subStats packet.size) fun _ => rfl]
    exact h i

/-- The subtraction takes off exactly what the addition counted, on stacks where a level may miss
the name of a packet only if the packet is empty. -/
theorem levelAccu_subPktLoop (hsorted : is.Pairwise (· < ·))
    (hpr : ∀ i ∈ is, ∀ j ∈ is, i ≤ j → packet.protDesc.protonames i = none →
      packet.protDesc.protonames j = none)
    (hfound : ∀ i ∈ is, ∀ name, packet.protDesc.protonames i = some name →
      ¬(pstk i).any (·.name = name) → packet.size = 0)
    {j : Level} (hj : j ∈ is) (n : String) :
    levelAccu n (subPktLoop packet is pstk j) = levelAccu n (pstk j) - countedAt j n packet := by
  induction is generalizing pstk with
  | nil => exact absurd hj List.not_mem_nil
  | cons i is ih =>
      obtain ⟨hlt, hsorted'⟩ := List.pairwise_cons.mp hsorted
      have hi : i ∉ is := fun hi => lt_irrefl _ (hlt i hi)
      cases hname : packet.protDesc.protonames i with
      | none =>
          have hle : i ≤ j := by
            rcases List.mem_cons.mp hj with rfl | hj
            · exact le_rfl
            · exact (hlt j hj).le
          rw [subPktLoop_unnamed hname]
          simp [countedAt, hpr i List.mem_cons_self j hj hle hname]
      | some name =>
          by_cases hany : (pstk i).any (·.name = name)
          · rw [subPktLoop_found hname hany]
            by_cases hji : j = i
            · subst hji
              rw [subPktLoop_of_not_mem hi, setLevel, if_pos rfl,
                levelAccu_updateNamed (f := subStats packet.size) (v := -packet.size) (fun _ => rfl)
                  (fun _ => by simp [subStats, sub_eq_add_neg]) hany n]
              simp only [countedAt, hname, Option.some.injEq]
              split <;> ring
            · have hj' : j ∈ is := (List.mem_cons.mp hj).resolve_left hji
              have hlevel : ∀ k ∈ is,
                  pstk.setLevel i (updateNamed name (subStats packet.size) (pstk i)) k = pstk k :=
                fun k hk => if_neg fun hki : k = i => hi (hki ▸ hk)
              rw [ih hsorted'
                (fun a ha b hb => hpr a (List.mem_cons_of_mem _ ha) b (List.mem_cons_of_mem _ hb))
                (fun k hk m hm hmem => hfound k (List.mem_cons_of_mem _ hk) m hm
                  (by rwa [hlevel k hk] at hmem)) hj', hlevel j hj']
          · have hsize := hfound i List.mem_cons_self name hname hany
            rw [subPktLoop_missing hname hany]
            simp [countedAt, hsize]

end SubPkt

theorem sortMostUsed_perm (pstk : Protostack) (level i : Level) :
    ((pstk.sortMostUsed level).2 i).Perm (pstk i) := by
  have hperm : ((pstk level).insertionSort freqLe).Perm (pstk level) := List.perm_insertionSort _ _
  unfold sortMostUsed
  split
  next => exact List.Perm.refl _
  next p ps hsort =>
    by_cases hi : i = level
    · subst hi
      rw [hsort] at hperm
      simpa [setLevel] using hperm
    · simp [setLevel, hi]

theorem levelAccu_filter_expired {ps : List Protocol} (hpos : ∀ p ∈ ps, 0 ≤ p.stats.averAccu)
    (now : Timeval) (expireTime : ℚ) (name : String) :
    levelAccu name (ps.filter fun p => ¬expired now expireTime p) = levelAccu name ps := by
  induction ps with
  | nil => rfl
  | cons p ps ih =>
      have hps := ih fun q hq => hpos q (List.mem_cons_of_mem _ hq)
      rw [levelAccu_cons, ← hps]
      by_cases hp : expired now expireTime p
      · have hzero : p.stats.averAccu = 0 := le_antisymm hp.1 (hpos p List.mem_cons_self)
        simp [hp, hzero]
      · rw [List.filter_cons_of_pos (by simpa using hp), levelAccu_cons]

theorem levelAccu_purgeExpired {pstk : Protostack} {i : Level}
    (hpos : ∀ p ∈ pstk i, 0 ≤ p.stats.averAccu) (now : Timeval) (expireTime : ℚ) (name : String) :
    levelAccu name (pstk.purgeExpired now expireTime i) = levelAccu name (pstk i) := by
  unfold purgeExpired
  split
  · exact levelAccu_filter_expired hpos now expireTime name
  · rfl

theorem purgeExpired_sublist (pstk : Protostack) (now : Timeval) (expireTime : ℚ) (i : Level) :
    (pstk.purgeExpired now expireTime i).Sublist (pstk i) := by
  unfold purgeExpired
  split
  · exact List.filter_sublist
  · exact List.Sublist.refl _

theorem levelAccu_avg (pstk : Protostack) (avgtime : ℚ) (i : Level) (name : String) :
    levelAccu name (pstk.avg avgtime i) = levelAccu name (pstk i) := by
  unfold avg
  induction pstk i with
  | nil => rfl
  | cons p ps ih => simp [levelAccu_cons, ih]

/-! ### Levels that are visited -/

/-- Changes the levels that a packet names, each for the protocol that the packet names there. -/
def atNamed (packet : PacketInfo) (f : String → List Protocol → List Protocol) (pstk : Protostack) :
    Protostack :=
  fun i =>
    match packet.protDesc.protonames i with
    | none => pstk i
    | some name => f name (pstk i)

theorem addPkt_eq_atNamed (pstk : Protostack) (now : Timeval) (packet : PacketInfo) :
    pstk.addPkt now packet = pstk.atNamed packet fun name => addAtLevel now name packet.size := rfl

theorem atNamed_of_none {packet : PacketInfo} {f : String → List Protocol → List Protocol}
    {pstk : Protostack} {i : Level} (h : packet.protDesc.protonames i = none) :
    pstk.atNamed packet f i = pstk i := by
  rw [atNamed, h]

theorem atNamed_of_some {packet : PacketInfo} {f : String → List Protocol → List Protocol}
    {pstk : Protostack} {i : Level} {name : String}
    (h : packet.protDesc.protonames i = some name) :
    pstk.atNamed packet f i = f name (pstk i) := by
  rw [atNamed, h]

/-- At each level a packet names, the stack has a protocol of that name. -/
def Holds (pstk : Protostack) (packet : PacketInfo) : Prop :=
  ∀ i name, packet.protDesc.protonames i = some name → (pstk i).any (·.name = name)

theorem any_addAtLevel (now : Timeval) (name : String) (size : Int) (ps : List Protocol) :
    (addAtLevel now name size ps).any (·.name = name) := by
  have hany : ∀ qs : List Protocol, qs.any (·.name = name) ↔ name ∈ qs.map (·.name) := by
    intro qs
    simp
  rw [hany, addAtLevel]
  split
  next hmem =>
    rw [updateNamed_names (f := addStats now size) fun _ => rfl]
    exact (hany ps).mp hmem
  next =>
    rw [updateNamed_names (f := addStats now size) fun _ => rfl]
    exact List.mem_cons_self

theorem holds_addPkt (pstk : Protostack) (now : Timeval) (packet : PacketInfo) :
    (pstk.addPkt now packet).Holds packet := by
  intro i name hname
  rw [addPkt, hname]
  exact any_addAtLevel now name packet.size (pstk i)

theorem subPktLoop_eq_atNamed {packet : PacketInfo} {is : List Level} {pstk : Protostack}
    (hnodup : is.Nodup)
    (hpr : is.Pairwise fun i j => packet.protDesc.protonames i = none →
      packet.protDesc.protonames j = none)
    (hfound : ∀ i ∈ is, ∀ name, packet.protDesc.protonames i = some name →
      (pstk i).any (·.name = name)) {j : Level} (hj : j ∈ is) :
    subPktLoop packet is pstk j =
      pstk.atNamed packet (fun name => updateNamed name (subStats packet.size)) j := by
  induction is generalizing pstk with
  | nil => exact absurd hj List.not_mem_nil
  | cons i is ih =>
      obtain ⟨hi, hnodup⟩ := List.nodup_cons.mp hnodup
      obtain ⟨hhead, hpr⟩ := List.pairwise_cons.mp hpr
      cases hname : packet.protDesc.protonames i with
      | none =>
          have hnone : packet.protDesc.protonames j = none := by
            rcases List.mem_cons.mp hj with rfl | hj
            · exact hname
            · exact hhead j hj hname
          rw [subPktLoop_unnamed hname, atNamed_of_none hnone]
      | some name =>
          rw [subPktLoop_found hname (hfound i List.mem_cons_self name hname)]
          by_cases hji : j = i
          · subst hji
            rw [subPktLoop_of_not_mem hi, setLevel, if_pos rfl, atNamed_of_some hname]
          · have hlevel : ∀ k ∈ is,
                pstk.setLevel i (updateNamed name (subStats packet.size) (pstk i)) k = pstk k :=
              fun k hk => if_neg fun hki : k = i => hi (hki ▸ hk)
            have hj' := (List.mem_cons.mp hj).resolve_left hji
            rw [ih hnodup hpr (fun k hk n hn => ?_) hj', atNamed, hlevel j hj', atNamed]
            rw [hlevel k hk]
            exact hfound k (List.mem_cons_of_mem _ hk) n hn

/-- For a contiguous stack of names the subtraction visits just the levels that the addition
updated. -/
theorem subPkt_eq_atNamed {packet : PacketInfo} (hpr : packet.protDesc.Contiguous)
    {pstk : Protostack} (hfound : pstk.Holds packet) :
    pstk.subPkt packet =
      pstk.atNamed packet fun name => updateNamed name (subStats packet.size) := by
  funext i
  apply subPktLoop_eq_atNamed (List.nodup_finRange _)
  · refine (List.pairwise_lt_finRange _).imp ?_
    intro i j hij hi
    exact hpr.none_of_le hij.le hi
  · exact fun i _ => hfound i
  · exact List.mem_finRange i

theorem updateNamed_eq_self {name : String} {f : Protocol → Protocol} {ps : List Protocol}
    (hf : ∀ p ∈ ps, f p = p) : updateNamed name f ps = ps := by
  induction ps with
  | nil => rfl
  | cons p ps ih =>
      rw [updateNamed, hf p List.mem_cons_self, ih fun q hq => hf q (List.mem_cons_of_mem p hq)]
      exact ite_self _

/-- Where averages do not outlive their counters, taking off an empty packet changes nothing. -/
theorem updateNamed_subStats_zero {name : String} {ps : List Protocol}
    (h : ∀ p ∈ ps, p.stats.Settled) : updateNamed name (subStats 0) ps = ps := by
  refine updateNamed_eq_self fun p hp => ?_
  rw [subStats, (h p hp).sub_zero]

theorem subPktLoop_empty {packet : PacketInfo} {pstk : Protostack} (hsize : packet.size = 0)
    (h : ∀ i, ∀ p ∈ pstk i, p.stats.Settled) (is : List Level) : subPktLoop packet is pstk = pstk := by
  induction is with
  | nil => rfl
  | cons i is ih =>
      cases hname : packet.protDesc.protonames i with
      | none => exact subPktLoop_unnamed hname
      | some name =>
          by_cases hany : (pstk i).any (·.name = name)
          · rw [subPktLoop_found hname hany, hsize, Nat.cast_zero, updateNamed_subStats_zero (h i)]
            have hsame : pstk.setLevel i (pstk i) = pstk := by
              funext j
              by_cases hj : j = i
              · rw [setLevel, if_pos hj, hj]
              · rw [setLevel, if_neg hj]
            rw [hsame, ih]
          · exact subPktLoop_missing hname hany

theorem atNamed_empty {packet : PacketInfo} {pstk : Protostack} (hsize : packet.size = 0)
    (h : ∀ i, ∀ p ∈ pstk i, p.stats.Settled) :
    (pstk.atNamed packet fun name => updateNamed name (subStats packet.size)) = pstk := by
  funext i
  cases hname : packet.protDesc.protonames i with
  | none => exact atNamed_of_none hname
  | some name =>
      rw [atNamed_of_some hname, hsize, Nat.cast_zero, updateNamed_subStats_zero (h i)]

/-! ### Finding a protocol -/

def find (pstk : Protostack) (level : Nat) (protoname : Option String) : Option Protocol :=
  if h : level < stackSize + 1 then
    protoname.bind fun name => (pstk ⟨level, h⟩).find? fun p => p.name = name
  else none

theorem find_isSome_iff {pstk : Protostack} {level : Nat} {name : String} :
    (pstk.find level (some name)).isSome ↔
      ∃ h : level < stackSize + 1, name ∈ (pstk ⟨level, h⟩).map (·.name) := by
  unfold find
  split
  next h =>
    rw [Option.bind_some, List.find?_isSome]
    simp only [decide_eq_true_eq, List.mem_map]
    exact ⟨fun hp => ⟨h, hp⟩, fun ⟨_, hp⟩ => hp⟩
  next h => exact iff_of_false Bool.false_ne_true fun ⟨hlt, _⟩ => h hlt

theorem find_eq_some {pstk : Protostack} {level : Nat} {protoname : Option String} {p : Protocol}
    (h : pstk.find level protoname = some p) : protoname = some p.name := by
  unfold find at h
  split at h
  · obtain ⟨n, rfl, hfound⟩ := Option.bind_eq_some_iff.mp h
    have hname := List.find?_some hfound
    rw [decide_eq_true_eq] at hname
    rw [hname]
  · cases h

end Protostack

end EtherApe
