import Mathlib.Order.CompletePartialOrder
import Mathlib.Data.List.Find
import Mathlib.Data.Set.Basic
import Mathlib.Data.Sym.Sym2
import EtherApe.Conversations

/-!
# Conversations as sets of flows

A flow is two endpoints with known ports, in no order. A conversation stands for all flows that agree
with it, a port zero agreeing with any, and it matches a query just when the two have a flow in common.
The table keeps the flows of its conversations apart, so a flow is in one of them at most.
-/

namespace EtherApe

/-- Two endpoints that talk to each other. -/
abbrev Flow := Sym2 (Address × Nat)

/-- A port zero stands for any port. -/
def PortAgrees (port x : Nat) : Prop := x ≠ 0 ∧ (port = 0 ∨ port = x)

/-- The flows between two hosts that agree with the given ports. -/
def flows (srcAddress dstAddress : Address) (srcPort dstPort : Nat) : Set Flow :=
  {f | ∃ p q, PortAgrees srcPort p ∧ PortAgrees dstPort q ∧
    f = s((srcAddress, p), (dstAddress, q))}

def Conversation.flows (conv : Conversation) : Set Flow :=
  EtherApe.flows conv.srcAddress conv.dstAddress conv.srcPort conv.dstPort

def Conversation.hosts (conv : Conversation) : Sym2 Address := s(conv.srcAddress, conv.dstAddress)

variable {a b : Address} {p q : Nat} {conv conv' : Conversation}

theorem flows_swap : flows a b p q = flows b a q p := by
  ext f
  constructor
  · rintro ⟨x, y, hx, hy, rfl⟩
    exact ⟨y, x, hy, hx, Sym2.eq_swap⟩
  · rintro ⟨x, y, hx, hy, rfl⟩
    exact ⟨y, x, hy, hx, Sym2.eq_swap⟩

theorem flows_known (hp : p ≠ 0) (hq : q ≠ 0) : flows a b p q = {s((a, p), (b, q))} := by
  ext f
  constructor
  · rintro ⟨x, y, hx, hy, rfl⟩
    rw [hx.2.resolve_left hp, hy.2.resolve_left hq]
    rfl
  · rintro rfl
    exact ⟨p, q, ⟨hp, Or.inr rfl⟩, ⟨hq, Or.inr rfl⟩, rfl⟩

namespace Conversations

theorem portMatches_iff : portMatches p q ↔ ∃ x, PortAgrees p x ∧ PortAgrees q x := by
  constructor
  · rintro (rfl | rfl | rfl)
    · by_cases hq : q = 0
      · exact ⟨1, ⟨one_ne_zero, Or.inl rfl⟩, one_ne_zero, Or.inl hq⟩
      · exact ⟨q, ⟨hq, Or.inl rfl⟩, hq, Or.inr rfl⟩
    · by_cases hp : p = 0
      · exact ⟨1, ⟨one_ne_zero, Or.inl hp⟩, one_ne_zero, Or.inl rfl⟩
      · exact ⟨p, ⟨hp, Or.inr rfl⟩, hp, Or.inl rfl⟩
    · by_cases hp : p = 0
      · exact ⟨1, ⟨one_ne_zero, Or.inl hp⟩, one_ne_zero, Or.inl hp⟩
      · exact ⟨p, ⟨hp, Or.inr rfl⟩, hp, Or.inr rfl⟩
  · rintro ⟨x, ⟨_, hp⟩, _, hq⟩
    rcases hp with hp | rfl
    · exact Or.inl hp
    · exact Or.inr (hq.imp id Eq.symm)

/-- A conversation matches a query when they share a flow. -/
theorem convMatches_iff :
    convMatches a b p q conv ↔ (flows a b p q ∩ conv.flows).Nonempty := by
  simp only [convMatches, Address.isAddrEq_iff, portMatches_iff]
  constructor
  · rintro (⟨rfl, rfl, ⟨x, hx, hx'⟩, y, hy, hy'⟩ | ⟨rfl, rfl, ⟨x, hx, hx'⟩, y, hy, hy'⟩)
    · exact ⟨_, ⟨x, y, hx, hy, rfl⟩, x, y, hx', hy', rfl⟩
    · exact ⟨_, ⟨x, y, hx, hy, rfl⟩, y, x, hy', hx', Sym2.eq_swap⟩
  · rintro ⟨_, ⟨x, y, hx, hy, rfl⟩, x', y', hx', hy', heq⟩
    rcases Sym2.eq_iff.mp heq with ⟨hsrc, hdst⟩ | ⟨hsrc, hdst⟩
    · obtain ⟨rfl, rfl⟩ := Prod.mk.inj hsrc
      obtain ⟨rfl, rfl⟩ := Prod.mk.inj hdst
      exact Or.inl ⟨rfl, rfl, ⟨x, hx, hx'⟩, y, hy, hy'⟩
    · obtain ⟨rfl, rfl⟩ := Prod.mk.inj hsrc
      obtain ⟨rfl, rfl⟩ := Prod.mk.inj hdst
      exact Or.inr ⟨rfl, rfl, ⟨x, hx, hy'⟩, y, hy, hx'⟩

theorem convMatches_swap : convMatches a b p q conv ↔ convMatches b a q p conv := by
  rw [convMatches_iff, convMatches_iff, flows_swap]

theorem convMatches_known (hp : p ≠ 0) (hq : q ≠ 0) :
    convMatches a b p q conv ↔ s((a, p), (b, q)) ∈ conv.flows := by
  rw [convMatches_iff, flows_known hp hq, Set.singleton_inter_nonempty]

theorem convMatches_hosts : convMatches a b 0 0 conv ↔ conv.hosts = s(a, b) := by
  simp only [convMatches, portMatches, Address.isAddrEq_iff, Conversation.hosts, Sym2.eq_iff,
    true_or, and_true]
  rw [eq_comm (a := a), eq_comm (a := b), eq_comm (a := a), eq_comm (a := b)]
  exact or_congr_right and_comm

/-! ### Tables -/

/-- The conversations have no flow in common. -/
def Apart (t : Conversations) : Prop :=
  t.items.Pairwise fun conv conv' => Disjoint conv.flows conv'.flows

variable {t t' : Conversations}

theorem findConversation_eq_none_iff :
    t.findConversation a b p q = none ↔ ∀ conv ∈ t.items, Disjoint (flows a b p q) conv.flows := by
  rw [findConversation, Option.map_eq_none_iff, findConversationPtr, List.find?_eq_none]
  refine forall₂_congr fun conv _ => ?_
  rw [decide_eq_true_iff, convMatches_iff, Set.not_nonempty_iff_eq_empty,
    Set.disjoint_iff_inter_eq_empty]

theorem Apart.addConversation (h : t.Apart) {data : String} :
    (t.addConversation a b p q data).Apart := by
  unfold Conversations.addConversation
  split
  · exact h
  next hnone => exact List.pairwise_cons.mpr ⟨findConversation_eq_none_iff.mp hnone, h⟩

theorem deleteLinkLoop_sublist (rounds : Nat) :
    (deleteLinkLoop a b rounds t).items.Sublist t.items := by
  induction rounds generalizing t with
  | zero => exact List.Sublist.refl _
  | succ rounds ih =>
      unfold deleteLinkLoop
      split
      · exact List.Sublist.refl _
      · exact ih.trans List.eraseP_sublist

/-- One round for each match takes all matches away. -/
theorem deleteLinkLoop_items {rounds : Nat}
    (h : t.items.countP (fun conv => convMatches a b 0 0 conv) ≤ rounds) :
    (deleteLinkLoop a b rounds t).items =
      t.items.filter fun conv => ¬convMatches a b 0 0 conv := by
  induction rounds generalizing t with
  | zero =>
      have hnone := List.countP_eq_zero.mp (Nat.le_zero.mp h)
      exact (List.filter_eq_self.mpr fun conv hconv => by simpa using hnone conv hconv).symm
  | succ rounds ih =>
      unfold deleteLinkLoop
      split
      next hnone =>
        have hnone := List.find?_eq_none.mp hnone
        exact (List.filter_eq_self.mpr fun conv hconv => by simpa using hnone conv hconv).symm
      next found hfound =>
        have hmatch : convMatches a b 0 0 found := by simpa using List.find?_some hfound
        obtain ⟨first, before, after, _, hfirst, hsplit, herase⟩ :=
          List.exists_of_eraseP (p := fun conv => convMatches a b 0 0 conv)
            (List.mem_of_find?_eq_some hfound) (decide_eq_true hmatch)
        rw [hsplit, List.countP_append,
          List.countP_cons_of_pos (p := fun conv => convMatches a b 0 0 conv) hfirst] at h
        rw [ih]
        · rw [herase, hsplit, List.filter_append, List.filter_append,
            List.filter_cons_of_neg (p := fun conv => ¬convMatches a b 0 0 conv)
              (by simpa using hfirst)]
        · rw [herase, List.countP_append]
          omega

theorem deleteConversationLink_items (t : Conversations) (a b : Address) :
    (t.deleteConversationLink a b).items = t.items.filter fun conv => conv.hosts ≠ s(a, b) := by
  rw [Conversations.deleteConversationLink, deleteLinkLoop_items List.countP_le_length]
  refine List.filter_congr fun conv _ => ?_
  exact decide_eq_decide.mpr convMatches_hosts.not

theorem mem_deleteConversationLink :
    conv ∈ (t.deleteConversationLink a b).items ↔ conv ∈ t.items ∧ conv.hosts ≠ s(a, b) := by
  rw [deleteConversationLink_items, List.mem_filter, decide_eq_true_iff]

theorem Apart.deleteConversationLink (h : t.Apart) : (t.deleteConversationLink a b).Apart :=
  h.sublist (deleteLinkLoop_sublist _)

/-- The tables that the program can come to. -/
inductive Reached : Conversations → Prop
  | empty : Reached empty
  | add {t : Conversations} (h : Reached t) (srcAddress dstAddress : Address)
      (srcPort dstPort : Nat) (data : String) :
      Reached (t.addConversation srcAddress dstAddress srcPort dstPort data)
  | deleteLink {t : Conversations} (h : Reached t) (srcAddress dstAddress : Address) :
      Reached (t.deleteConversationLink srcAddress dstAddress)

theorem Reached.apart (h : Reached t) : t.Apart := by
  induction h with
  | empty => exact List.Pairwise.nil
  | add _ srcAddress dstAddress srcPort dstPort data ih => exact ih.addConversation
  | deleteLink _ srcAddress dstAddress ih => exact ih.deleteConversationLink

/-- A known flow is in one conversation at most. -/
theorem Apart.countP_le_one (h : t.Apart) (hp : p ≠ 0) (hq : q ≠ 0) :
    t.items.countP (fun conv => convMatches a b p q conv) ≤ 1 := by
  obtain ⟨items, n⟩ := t
  change items.Pairwise _ at h
  change items.countP _ ≤ 1
  induction items with
  | nil => exact Nat.zero_le 1
  | cons conv items ih =>
      obtain ⟨hconv, hitems⟩ := List.pairwise_cons.mp h
      by_cases hmatch : convMatches a b p q conv
      · have hrest : items.countP (fun conv => convMatches a b p q conv) = 0 := by
          refine List.countP_eq_zero.mpr fun conv' hconv' hmatch' => ?_
          rw [decide_eq_true_iff, convMatches_known hp hq] at hmatch'
          rw [convMatches_known hp hq] at hmatch
          exact Set.disjoint_left.mp (hconv conv' hconv') hmatch hmatch'
        rw [List.countP_cons_of_pos (by simpa using hmatch), hrest]
      · rw [List.countP_cons_of_neg (by simpa using hmatch)]
        exact ih hitems

theorem findConversation_swap : t.findConversation a b p q = t.findConversation b a q p := by
  have hsame : (fun conv => decide (convMatches a b p q conv)) =
      fun conv => decide (convMatches b a q p conv) := by
    funext conv
    exact decide_eq_decide.mpr convMatches_swap
  rw [findConversation, findConversationPtr, findConversation, findConversationPtr, hsame]

/-- Of a known flow at most one conversation is known, in whatever order they are stored. -/
theorem Apart.findConversation_perm (h : t.Apart) (hp : p ≠ 0) (hq : q ≠ 0)
    (hperm : t.items.Perm t'.items) :
    t.findConversation a b p q = t'.findConversation a b p q := by
  have hone : {conv ∈ t.items | decide (convMatches a b p q conv)}.Subsingleton := by
    rintro conv ⟨hconv, hmatch⟩ conv' ⟨hconv', hmatch'⟩
    rw [decide_eq_true_iff, convMatches_known hp hq] at hmatch hmatch'
    by_contra hne
    have : Std.Symm fun conv conv' : Conversation => Disjoint conv.flows conv'.flows :=
      ⟨fun _ _ hdisjoint => hdisjoint.symm⟩
    have hdisjoint := List.Pairwise.forall h hconv hconv' hne
    exact Set.disjoint_left.mp hdisjoint hmatch hmatch'
  rw [findConversation, findConversation, findConversationPtr, findConversationPtr,
    List.find?_eq_find?_of_perm hperm hone]

/-- **Lookups.** No conversation matches another, a query with known ports has one match at most and
an answer that does not depend on the order of the table, and a query may be asked from either end. -/
theorem reached_lookups (h : Reached t) :
    (∀ i j (hi : i < t.items.length) (hj : j < t.items.length), i ≠ j →
      ¬convMatches t.items[i].srcAddress t.items[i].dstAddress t.items[i].srcPort
        t.items[i].dstPort t.items[j]) ∧
    (∀ a b p q, p ≠ 0 → q ≠ 0 → t.items.countP (fun conv => convMatches a b p q conv) ≤ 1 ∧
      ∀ t' : Conversations, t.items.Perm t'.items →
        t'.findConversation a b p q = t.findConversation a b p q) ∧
    ∀ a b p q, t.findConversation a b p q = t.findConversation b a q p := by
  have hapart := h.apart
  refine ⟨fun i j hi hj hne => ?_, fun a b p q hp hq => ⟨hapart.countP_le_one hp hq,
    fun t' hperm => (hapart.findConversation_perm hp hq hperm).symm⟩,
    fun a b p q => findConversation_swap⟩
  rw [convMatches_iff, Set.not_nonempty_iff_eq_empty, ← Set.disjoint_iff_inter_eq_empty]
  have hpairwise := List.pairwise_iff_getElem.mp hapart
  rcases Nat.lt_or_gt_of_ne hne with hlt | hlt
  · exact hpairwise i j hi hj hlt
  · exact (hpairwise j i hj hi hlt).symm

/-- Two conversations between the same hosts, one of them found from either end. -/
theorem reached_lookups_two_conversations :
    let t := (empty.addConversation Address.clear (Address.clear.setType afInet) 1024 21
      "FTP").addConversation Address.clear (Address.clear.setType afInet) 1025 80 "WWW"
    t.items.length = 2 ∧ t.findConversation Address.clear (Address.clear.setType afInet) 1025 80 =
      t.findConversation (Address.clear.setType afInet) Address.clear 80 1025 :=
  ⟨by decide +kernel, (reached_lookups ((Reached.empty.add _ _ _ _ _).add _ _ _ _ _)).2.2 _ _ _ _⟩

end Conversations

end EtherApe
