import EtherApe.Conversations.Flows

/-!
# Deletion of conversations

The loop of `delete_conversation_link` unlinks one conversation between the two hosts after another, and
what it leaves is the list without them. The counter is kept by three functions, each of which changes it
by as much as it changes the list.
-/

namespace EtherApe.Conversations

variable {a b x y : Address} {p q : Nat} {t : Conversations}

theorem deleteLinkLoop_of_none (h : t.findConversationPtr a b 0 0 = none) (rounds : Nat) :
    deleteLinkLoop a b rounds t = t := by
  cases rounds with
  | zero => rfl
  | succ rounds =>
      unfold deleteLinkLoop
      rw [h]

theorem deleteLinkLoop_ends {rounds : Nat} (h : t.items.length ≤ rounds) :
    (deleteLinkLoop a b rounds t).findConversationPtr a b 0 0 = none := by
  unfold findConversationPtr
  rw [deleteLinkLoop_items (List.countP_le_length.trans h), List.find?_eq_none]
  intro conv hconv
  simpa using (List.mem_filter.mp hconv).2

theorem deleteLinkLoop_add (rounds more : Nat) :
    deleteLinkLoop a b (rounds + more) t = deleteLinkLoop a b more (deleteLinkLoop a b rounds t) := by
  induction rounds generalizing t with
  | zero =>
      rw [Nat.zero_add]
      rfl
  | succ rounds ih =>
      cases hfind : t.findConversationPtr a b 0 0 with
      | none => rw [deleteLinkLoop_of_none hfind, deleteLinkLoop_of_none hfind,
          deleteLinkLoop_of_none hfind]
      | some found =>
          rw [Nat.succ_add_eq_add_succ, Nat.add_succ, deleteLinkLoop, deleteLinkLoop, hfind]
          exact ih

/-- More rounds than conversations change nothing. -/
theorem deleteLinkLoop_of_le {rounds : Nat} (h : t.items.length ≤ rounds) :
    deleteLinkLoop a b rounds t = t.deleteConversationLink a b := by
  obtain ⟨more, rfl⟩ := Nat.exists_eq_add_of_le h
  rw [deleteLinkLoop_add]
  exact deleteLinkLoop_of_none (deleteLinkLoop_ends le_rfl) more

/-! ### Queries -/

theorem hosts_of_convMatches {conv : Conversation} (h : convMatches a b p q conv) :
    conv.hosts = s(a, b) := by
  rw [← convMatches_hosts]
  exact h.imp (fun h => ⟨h.1, h.2.1, Or.inl rfl, Or.inl rfl⟩)
    fun h => ⟨h.1, h.2.1, Or.inl rfl, Or.inl rfl⟩

theorem findConversation_deleted (t : Conversations) (a b : Address) (p q : Nat) :
    (t.deleteConversationLink a b).findConversation a b p q = none := by
  rw [findConversation, findConversationPtr, Option.map_eq_none_iff, List.find?_eq_none]
  intro conv hconv hmatch
  exact (mem_deleteConversationLink.mp hconv).2 (hosts_of_convMatches (of_decide_eq_true hmatch))

theorem findConversation_kept (h : s(x, y) ≠ s(a, b)) (p q : Nat) :
    (t.deleteConversationLink a b).findConversation x y p q = t.findConversation x y p q := by
  unfold findConversation findConversationPtr
  rw [deleteConversationLink_items, List.find?_filter]
  congr 2
  funext conv
  rw [decide_eq_decide, decide_eq_true_iff, decide_eq_true_iff]
  apply and_iff_right_of_imp
  intro hmatch
  rw [hosts_of_convMatches hmatch]
  exact h

/-! ### The counter -/

/-- The functions that change the table. -/
inductive Op
  | addConversation (srcAddress dstAddress : Address) (srcPort dstPort : Nat) (data : String)
  | deleteConversationLink (srcAddress dstAddress : Address)
  | deleteConversations

def Op.apply (t : Conversations) : Op → Conversations
  | addConversation srcAddress dstAddress srcPort dstPort data =>
      t.addConversation srcAddress dstAddress srcPort dstPort data
  | deleteConversationLink srcAddress dstAddress => t.deleteConversationLink srcAddress dstAddress
  | deleteConversations => t.deleteConversations

def run (ops : List Op) : Conversations := ops.foldl Op.apply empty

/-- The counter is the length of the list. -/
def Counted (t : Conversations) : Prop := t.nConversations = t.items.length

theorem Counted.addConversation (h : t.Counted) {data : String} :
    (t.addConversation a b p q data).Counted := by
  unfold Conversations.addConversation
  split
  · exact h
  · show t.nConversations + 1 = ((t.items.length + 1 : Nat) : Int)
    rw [h]
    rfl

theorem Counted.deleteLinkLoop (h : t.Counted) (rounds : Nat) :
    (deleteLinkLoop a b rounds t).Counted := by
  induction rounds generalizing t with
  | zero => exact h
  | succ rounds ih =>
      unfold Conversations.deleteLinkLoop
      split
      · exact h
      next found hfound =>
        apply ih
        have hlength : (t.items.eraseP fun conv => convMatches a b 0 0 conv).length + 1 =
            t.items.length := by
          have hmem := List.mem_of_find?_eq_some hfound
          rw [List.length_eraseP_of_mem hmem (List.find?_some hfound)]
          exact Nat.sub_add_cancel (List.length_pos_of_mem hmem)
        show t.nConversations - 1 =
          ((t.items.eraseP fun conv => convMatches a b 0 0 conv).length : Int)
        rw [h, ← hlength]
        omega

theorem Counted.apply (h : t.Counted) (op : Op) : (op.apply t).Counted := by
  cases op with
  | addConversation srcAddress dstAddress srcPort dstPort data => exact h.addConversation
  | deleteConversationLink srcAddress dstAddress => exact h.deleteLinkLoop _
  | deleteConversations =>
      show t.nConversations - t.items.length = 0
      rw [h]
      exact sub_self _

theorem run_counted (ops : List Op) : (run ops).Counted := by
  induction ops using List.reverseRecOn with
  | nil => rfl
  | append_singleton ops op ih =>
      rw [run, List.foldl_append]
      exact ih.apply op

/-- **Deletion.** The loop ends, and with it all conversations of the two hosts are gone and no other is
touched. -/
theorem run_deletes_link (ops : List Op) (a b : Address) :
    (run ops).nConversations = (run ops).items.length ∧
      (∀ rounds, (run ops).items.length ≤ rounds →
        deleteLinkLoop a b rounds (run ops) = (run ops).deleteConversationLink a b ∧
          (deleteLinkLoop a b rounds (run ops)).findConversationPtr a b 0 0 = none) ∧
      ((run ops).deleteConversationLink a b).items =
        (run ops).items.filter (fun conv => conv.hosts ≠ s(a, b)) ∧
      (∀ p q, ((run ops).deleteConversationLink a b).findConversation a b p q = none) ∧
      ∀ x y, s(x, y) ≠ s(a, b) → ∀ p q,
        ((run ops).deleteConversationLink a b).findConversation x y p q =
          (run ops).findConversation x y p q := by
  refine ⟨run_counted ops, ?_, deleteConversationLink_items _ a b,
    findConversation_deleted _ a b, ?_⟩
  · intro rounds hrounds
    exact ⟨deleteLinkLoop_of_le hrounds, deleteLinkLoop_ends hrounds⟩
  · intro x y hne p q
    exact findConversation_kept hne p q

/-- Of three conversations the two between the given hosts are deleted. -/
theorem run_deletes_link_two_of_three :
    let t := run [.addConversation Address.clear (Address.clear.setType afInet) 1024 21 "FTP",
      .addConversation Address.clear Address.clear 1024 80 "WWW",
      .addConversation (Address.clear.setType afInet) Address.clear 25 1025 "SMTP"]
    t.nConversations = 3 ∧
      (t.deleteConversationLink Address.clear (Address.clear.setType afInet)).items.length = 1 ∧
      (t.deleteConversationLink Address.clear (Address.clear.setType afInet)).findConversation
        Address.clear Address.clear 80 1024 = some "WWW" := by
  refine ⟨by decide +kernel, by decide +kernel, ?_⟩
  rw [(run_deletes_link _ _ _).2.2.2.2 Address.clear Address.clear (by decide +kernel)]
  decide +kernel

end EtherApe.Conversations
