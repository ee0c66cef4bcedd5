import EtherApe.Common

/-!
# Conversations

The model of `conversations.c`: the list of known conversations, in which ports equal to zero match
any port and both directions match.
-/

namespace EtherApe

structure Conversation where
  srcAddress : Address
  dstAddress : Address
  srcPort : Nat
  dstPort : Nat
  data : String

/-- The list `conversations` and its counter. -/
structure Conversations where
  items : List Conversation
  nConversations : Int

namespace Conversations

def empty : Conversations := ⟨[], 0⟩

/-- A zero in any of the ports matches any port number. -/
def portMatches (port convPort : Nat) : Prop := port = 0 ∨ convPort = 0 ∨ port = convPort

instance (port convPort : Nat) : Decidable (portMatches port convPort) :=
  inferInstanceAs (Decidable (_ ∨ _))

/-- The condition of `find_conversation_ptr`, in either direction. -/
def convMatches (srcAddress dstAddress : Address) (srcPort dstPort : Nat) (conv : Conversation) :
    Prop :=
  (Address.isAddrEq srcAddress conv.srcAddress ∧ Address.isAddrEq dstAddress conv.dstAddress ∧
      portMatches srcPort conv.srcPort ∧ portMatches dstPort conv.dstPort) ∨
    (Address.isAddrEq srcAddress conv.dstAddress ∧ Address.isAddrEq dstAddress conv.srcAddress ∧
      portMatches srcPort conv.dstPort ∧ portMatches dstPort conv.srcPort)

instance (srcAddress dstAddress : Address) (srcPort dstPort : Nat) (conv : Conversation) :
    Decidable (convMatches srcAddress dstAddress srcPort dstPort conv) :=
  inferInstanceAs (Decidable (_ ∨ _))

def findConversationPtr (t : Conversations) (srcAddress dstAddress : Address)
    (srcPort dstPort : Nat) : Option Conversation :=
  t.items.find? fun conv => convMatches srcAddress dstAddress srcPort dstPort conv

def findConversation (t : Conversations) (srcAddress dstAddress : Address)
    (srcPort dstPort : Nat) : Option String :=
  (t.findConversationPtr srcAddress dstAddress srcPort dstPort).map (·.data)

/-- A conversation is only added when none matches it. -/
def addConversation (t : Conversations) (srcAddress dstAddress : Address)
    (srcPort dstPort : Nat) (data : String) : Conversations :=
  match t.findConversation srcAddress dstAddress srcPort dstPort with
  | some _ => t
  | none => ⟨⟨srcAddress, dstAddress, srcPort, dstPort, data⟩ :: t.items, t.nConversations + 1⟩

/-- The loop of `delete_conversation_link`: one matching conversation is unlinked at a time. The
bound is the number of conversations, since each round removes one. -/
def deleteLinkLoop (srcAddress dstAddress : Address) : Nat → Conversations → Conversations
  | 0, t => t
  | rounds + 1, t =>
      match t.findConversationPtr srcAddress dstAddress 0 0 with
      | none => t
      | some _ =>
          deleteLinkLoop srcAddress dstAddress rounds
            ⟨t.items.eraseP fun conv => convMatches srcAddress dstAddress 0 0 conv,
              t.nConversations - 1⟩

def deleteConversationLink (t : Conversations) (srcAddress dstAddress : Address) : Conversations :=
  deleteLinkLoop srcAddress dstAddress t.items.length t

def deleteConversations (t : Conversations) : Conversations :=
  ⟨[], t.nConversations - t.items.length⟩

end Conversations

end EtherApe
