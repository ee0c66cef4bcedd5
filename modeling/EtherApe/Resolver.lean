import EtherApe.IpCache

/-!
# The resolver threads

`thread_resolve.c`: lookups put requests for unknown and expired names into a linked queue, and a
pool of threads takes them out, asks the name server, and tells the cache the answer. Each step runs
under the resolver mutex; between taking a request out and answering it, a thread runs freely.
-/

namespace EtherApe

/-- A pointer to an element of the queue. -/
abbrev LinkRef := Nat

structure IpresolveLink where
  itemToResolve : ItemRef
  next : Option LinkRef

structure Resolver where
  cache : Ipcache
  links : Heap LinkRef IpresolveLink
  /-- How many elements were allocated so far, and the pointer the next one gets. -/
  allocated : LinkRef
  resolveListHead : Option LinkRef
  resolveListTail : Option LinkRef
  /-- The item each thread of the pool is resolving. -/
  curitem : Nat → Option ItemRef

/-- What happens under the mutex, and the clock. -/
inductive ResolverEvent
  | tick
  | lookup (nameRes : Bool) (ip : Option Address) (times : List UInt64) (rand : Nat)
  | dequeue (thread : Nat)
  | answer (thread : Nat) (hName : Option (Option String)) (rand : Nat)

namespace Resolver

def threadOpen (time time' : UInt64) (pid : UInt16) : Resolver where
  cache := Ipcache.start.init time time' pid
  links _ := none
  allocated := 0
  resolveListHead := none
  resolveListTail := none
  curitem _ := none

def sendrequestInverse (s : Resolver) (ip : Address) (times : List UInt64) (rand : Nat) :
    Option Resolver := do
  let (rp, cache) ← s.cache.prepareRequest ip times rand
  let newitm := s.allocated
  let s := { s with
    cache := cache
    links := Function.update s.links newitm (some ⟨rp, none⟩)
    allocated := s.allocated + 1 }
  match s.resolveListHead with
  | none => some { s with resolveListHead := some newitm, resolveListTail := some newitm }
  | some _ => do
      let tail ← s.resolveListTail
      let links ← s.links.write tail fun link => { link with next := some newitm }
      some { s with links := links, resolveListTail := some newitm }

/-- `thread_lookup`; returns the name. -/
def threadLookup (s : Resolver) (nameRes : Bool) (ip : Option Address) (times : List UInt64)
    (rand : Nat) : Option (Ipcache.NameIp × Resolver) :=
  match ip with
  | none => some (.empty, s)
  | some ip => do
      let (ipname, isExpired, cache) ← s.cache.getnameip nameRes (some ip)
      let s := { s with cache := cache }
      let s ← if isExpired = some true then s.sendrequestInverse ip times rand else some s
      some (ipname, s)

def dequeue (s : Resolver) (thread : Nat) : Option Resolver :=
  match s.resolveListHead with
  | none => some s
  | some head => do
      let el ← s.links head
      some { s with
        resolveListHead := el.next
        links := s.links.free head
        curitem := Function.update s.curitem thread (some el.itemToResolve) }

/-- A thread tells the cache what the name server said. -/
def answer (s : Resolver) (thread : Nat) (curitem : ItemRef) (hName : Option (Option String))
    (rand : Nat) : Option Resolver := do
  let cache ← match hName with
    | none => s.cache.requestFailed curitem rand
    | some hName => s.cache.requestSucceeded curitem (3600 * 24) hName rand
  some { s with cache := cache, curitem := Function.update s.curitem thread none }

/-- One step: a thread takes a request only when it has none, and answers only the one it has. -/
def step (s : Resolver) : ResolverEvent → Option Resolver
  | .tick => some { s with cache := s.cache.tick }
  | .lookup nameRes ip times rand => (s.threadLookup nameRes ip times rand).map Prod.snd
  | .dequeue thread =>
      match s.curitem thread with
      | none => s.dequeue thread
      | some _ => none
  | .answer thread hName rand =>
      match s.curitem thread with
      | none => none
      | some curitem => s.answer thread curitem hName rand

/-- A run from the opening of the resolver, with the state before each step. -/
inductive Run : List (Resolver × ResolverEvent) → Resolver → Prop
  | opened (time time' : UInt64) (pid : UInt16) : Run [] (threadOpen time time' pid)
  | step {past : List (Resolver × ResolverEvent)} {s s' : Resolver} (h : Run past s)
      (e : ResolverEvent) (hstep : s.step e = some s') : Run (past ++ [(s, e)]) s'

end Resolver

end EtherApe
