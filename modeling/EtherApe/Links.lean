import EtherApe.Conversations
import EtherApe.Lib.Sweep
import EtherApe.Node

/-!
# Links

The model of `links.c`. A link that goes takes the conversations between its endpoints with it.
-/

namespace EtherApe

structure Link where
  linkId : LinkId
  mainProt : Level → Option String
  linkStats : TrafficStats

abbrev LinksCatalog := SortedTree linkIdCompare Link

def Link.create (now : Timeval) (linkId : LinkId) : Link :=
  { linkId := linkId, mainProt := fun _ => none, linkStats := TrafficStats.init now }

def updateLink (now : Timeval) (pref : Preferences) (s : PacketStore × Conversations) (_ : LinkId)
    (link : Link) : SortedTree.Visited (PacketStore × Conversations) Link :=
  let r := link.linkStats.refresh now s.1 pref.averagingTime pref.protoLinkTimeoutTime
    pref.linkTimeoutTime link.mainProt
  { state := (r.store, s.2)
    value := { link with mainProt := r.mainProt, linkStats := r.stats }
    obsolete := r.expired }

def linkDelete (now : Timeval) (s : PacketStore × Conversations) (link : Link) :
    PacketStore × Conversations :=
  ((link.linkStats.reset now s.1).1,
    s.2.deleteConversationLink link.linkId.src.addr.ip link.linkId.dst.addr.ip)

def linksCatalogUpdateAll (now : Timeval) (pref : Preferences) (s : PacketStore × Conversations)
    (allLinks : LinksCatalog) : (PacketStore × Conversations) × LinksCatalog :=
  allLinks.sweep (updateLink now pref) (linkDelete now) s

def linksCatalogClose (now : Timeval) (s : PacketStore × Conversations) (allLinks : LinksCatalog) :
    (PacketStore × Conversations) × LinksCatalog :=
  (allLinks.destroyAll (linkDelete now) s, SortedTree.empty)

def updatedLink (now : Timeval) (pref : Preferences) (link : Link) : Link :=
  let r := link.linkStats.refresh now PacketStore.empty pref.averagingTime
    pref.protoLinkTimeoutTime pref.linkTimeoutTime link.mainProt
  { link with mainProt := r.mainProt, linkStats := r.stats }

def linkExpired (now : Timeval) (pref : Preferences) (link : Link) : Bool :=
  (link.linkStats.refresh now PacketStore.empty pref.averagingTime pref.protoLinkTimeoutTime
    pref.linkTimeoutTime link.mainProt).expired

section Update

variable (now : Timeval) (pref : Preferences)

theorem updateLink_value (s : PacketStore × Conversations) (k : LinkId) (link : Link) :
    (updateLink now pref s k link).value = updatedLink now pref link := by
  obtain ⟨hstats, hmain, _⟩ := TrafficStats.refresh_congr now s.1 pref.averagingTime
    pref.protoLinkTimeoutTime pref.linkTimeoutTime link.mainProt link.linkStats PacketStore.empty
  simp only [updateLink, updatedLink, hstats, hmain]

theorem updateLink_obsolete (s : PacketStore × Conversations) (k : LinkId) (link : Link) :
    (updateLink now pref s k link).obsolete = linkExpired now pref link :=
  (TrafficStats.refresh_congr now s.1 pref.averagingTime pref.protoLinkTimeoutTime
    pref.linkTimeoutTime link.mainProt link.linkStats PacketStore.empty).2.2

theorem pktList_of_linkExpired {link : Link} (h : linkExpired now pref link = true) :
    (updatedLink now pref link).linkStats.pktList = [] :=
  TrafficStats.pktList_of_refresh_expired now _ _ _ _ _ _ h

theorem updatedLink_totals (link : Link) :
    (updatedLink now pref link).linkStats.totals = link.linkStats.totals :=
  TrafficStats.refresh_totals now _ _ _ _ _ _

theorem mem_linksCatalogUpdateAll {s : PacketStore × Conversations} {allLinks : LinksCatalog}
    {e : LinkId × Link} :
    e ∈ (linksCatalogUpdateAll now pref s allLinks).2.entries ↔
      ∃ link, (e.1, link) ∈ allLinks.entries ∧ e.2 = updatedLink now pref link ∧
        linkExpired now pref link = false :=
  SortedTree.mem_sweep (fun _ => updatedLink now pref) (fun _ => linkExpired now pref)
    (updateLink_value now pref) (updateLink_obsolete now pref)

end Update

/-! ### Which link a packet falls on -/

/-- The link of a packet from `src` to `dst`, and the direction in which it goes over it. -/
def linkOf (src dst : NodeId) : LinkId × PacketDirection :=
  if nodeIdCompare src dst < 1 then (⟨src, dst⟩, .outbound) else (⟨dst, src⟩, .inbound)

theorem linkOf_le (src dst : NodeId) :
    nodeIdCompare (linkOf src dst).1.src (linkOf src dst).1.dst ≤ 0 := by
  unfold linkOf
  split
  next h => exact Int.lt_add_one_iff.mp h
  next h =>
    rw [@ThreeWay.swap _ nodeIdCompare _ src dst]
    omega

/-- The two directions between two nodes fall on one link. -/
theorem linkOf_swap (a b : NodeId) : linkIdCompare (linkOf a b).1 (linkOf b a).1 = 0 := by
  have hswap := @ThreeWay.swap _ nodeIdCompare _ a b
  rw [linkIdCompare_eq_zero_iff]
  unfold linkOf
  split <;> split
  next hab hba =>
    exact ⟨show nodeIdCompare a b = 0 by omega, show nodeIdCompare b a = 0 by omega⟩
  next => exact ⟨ThreeWay.refl a, ThreeWay.refl b⟩
  next => exact ⟨ThreeWay.refl b, ThreeWay.refl a⟩
  next hab hba => omega

end EtherApe
