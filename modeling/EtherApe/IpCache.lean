import EtherApe.Lib.ChainTable
import EtherApe.Common

/-!
# The cache of host names

The cache of `ip-cache.c`: items that are found by address and by request id through two hash tables
of chains, and a ring of the items that were answered, from which the oldest are purged. Items live in
a heap; an access through a null or dangling pointer fails, and so does a loop that does not end.
-/

namespace EtherApe

inductive IpcacheState
  | finished
  | failed
  | ptrreq
deriving DecidableEq, Repr

/-- A pointer to an item. `malloc` never hands out the same twice. -/
abbrev ItemRef := Nat

structure IpcacheItem where
  nextid : Option ItemRef
  previousid : Option ItemRef
  nextip : Option ItemRef
  previousip : Option ItemRef
  nextActive : Option ItemRef
  previousActive : Option ItemRef
  expireTick : UInt64
  lastExpireTick : UInt64
  fqHostname : Option String
  ip : Address
  id : UInt16
  state : IpcacheState

def idLinks : LinkFields ItemRef IpcacheItem where
  next := IpcacheItem.nextid
  previous := IpcacheItem.previousid
  setNext item x := { item with nextid := x }
  setPrevious item x := { item with previousid := x }
  next_setNext _ _ := rfl
  next_setPrevious _ _ := rfl
  previous_setNext _ _ := rfl
  previous_setPrevious _ _ := rfl
  setNext_setNext _ _ _ := rfl
  setPrevious_setPrevious _ _ _ := rfl
  setNext_setPrevious _ _ _ := rfl

def ipLinks : LinkFields ItemRef IpcacheItem where
  next := IpcacheItem.nextip
  previous := IpcacheItem.previousip
  setNext item x := { item with nextip := x }
  setPrevious item x := { item with previousip := x }
  next_setNext _ _ := rfl
  next_setPrevious _ _ := rfl
  previous_setNext _ _ := rfl
  previous_setPrevious _ _ := rfl
  setNext_setNext _ _ _ := rfl
  setPrevious_setPrevious _ _ _ := rfl
  setNext_setPrevious _ _ _ := rfl

def activeLinks : LinkFields ItemRef IpcacheItem where
  next := IpcacheItem.nextActive
  previous := IpcacheItem.previousActive
  setNext item x := { item with nextActive := x }
  setPrevious item x := { item with previousActive := x }
  next_setNext _ _ := rfl
  next_setPrevious _ _ := rfl
  previous_setNext _ _ := rfl
  previous_setPrevious _ _ := rfl
  setNext_setNext _ _ _ := rfl
  setPrevious_setPrevious _ _ _ := rfl
  setNext_setPrevious _ _ _ := rfl

/-! ### Hashing -/

abbrev bashSize : Nat := 8192

def bashModulo (x : Nat) : Fin bashSize := ⟨x &&& 8191, Nat.lt_succ_of_le Nat.and_le_right⟩

def ipcacheGetidbash (id : UInt16) : Fin bashSize := bashModulo id.toNat

/-- `addr32[i]`. -/
def Address.addr32 (ip : Address) (i : Nat) : UInt32 :=
  let byte (j : Nat) : Nat := (ip.bytesFrom 4 (4 * i + j)).toNat
  UInt32.ofNat (byte 0 + 256 * byte 1 + 65536 * byte 2 + 16777216 * byte 3)

def ipcacheGetipbash (ip : Address) : Fin bashSize :=
  let bash := ip.addr32 0 ^^^ ip.addr32 1 ^^^ ip.addr32 2 ^^^ ip.addr32 3
  let bash := (bash >>> 16) ^^^ bash
  let bash := (bash >>> 8) ^^^ bash
  bashModulo bash.toNat

def Address.compare (a b : Address) : Int := memcmp (List.ofFn a) (List.ofFn b)

instance : ThreeWay Address.compare where
  swap _ _ := Memcmp.swap _ _
  trans _ _ _ := Memcmp.le_trans (by simp) (by simp)

def idCompare (a b : UInt16) : Int := (a.toNat : Int) - b.toNat

instance : ThreeWay idCompare where
  swap a b := by
    unfold idCompare
    omega
  trans a b c := by
    unfold idCompare
    omega

theorem idCompare_eq_zero {a b : UInt16} (h : idCompare a b = 0) : a = b := by
  unfold idCompare at h
  exact UInt16.toNat_inj.mp (by omega)

/-! ### Expiry -/

/-- `ipcache_calc_expire_tick`, with the current tick and what `rand` returns. -/
def calcExpireTick (currentTick : UInt64) (item : IpcacheItem) (delay : UInt64) (isRequest : Bool)
    (rand : Nat) : IpcacheItem :=
  let delay := if delay > 86400 then 86400 else delay
  let expireTick :=
    if isRequest then delay + currentTick + UInt64.ofNat (rand % 12)
    else delay + currentTick + UInt64.ofNat (rand % 720)
  { item with expireTick := expireTick, lastExpireTick := expireTick }

def IpcacheItem.requested (currentTick : UInt64) (rand : Nat) (item : IpcacheItem) : IpcacheItem :=
  let item :=
    match item.state with
    | .finished | .failed => calcExpireTick currentTick item 18 true rand
    | .ptrreq => calcExpireTick currentTick item (item.lastExpireTick * 2) true rand
  { item with state := .ptrreq }

def IpcacheItem.failed (currentTick : UInt64) (rand : Nat) (item : IpcacheItem) : IpcacheItem :=
  calcExpireTick currentTick { item with state := .failed } 8640 false rand

def IpcacheItem.succeeded (currentTick : UInt64) (ttl : Int64) (ipname : Option String) (rand : Nat)
    (item : IpcacheItem) : IpcacheItem :=
  let item :=
    calcExpireTick currentTick { item with state := .finished } (ttl / 12).toUInt64 false rand
  { item with fqHostname := ipname.or item.fqHostname }

/-! ### The tables -/

def idTable : ChainTable ItemRef IpcacheItem UInt16 (Fin bashSize) where
  links := idLinks
  key := IpcacheItem.id
  compare := idCompare
  hash := ipcacheGetidbash
  key_setNext _ _ := rfl
  key_setPrevious _ _ := rfl
  threeWay := inferInstance
  eq_of_compare := idCompare_eq_zero

def ipTable : ChainTable ItemRef IpcacheItem Address (Fin bashSize) where
  links := ipLinks
  key := IpcacheItem.ip
  compare := Address.compare
  hash := ipcacheGetipbash
  key_setNext _ _ := rfl
  key_setPrevious _ _ := rfl
  threeWay := inferInstance
  eq_of_compare := Address.isAddrEq_iff.mp

/-! ### The cache -/

structure Ipcache where
  heap : Heap ItemRef IpcacheItem
  /-- How many items were allocated so far, and the pointer the next one gets. -/
  allocated : ItemRef
  idbash : Fin bashSize → Option ItemRef
  ipbash : Fin bashSize → Option ItemRef
  activeList : Option ItemRef
  numActive : Int
  idseed : UInt64
  aseed : UInt64
  currentTick : UInt64

def maxActive : Int := 1024

namespace Ipcache

def start : Ipcache where
  heap _ := none
  allocated := 0
  idbash _ := none
  ipbash _ := none
  activeList := none
  numActive := 0
  idseed := 0xdeadbeef
  aseed := 0
  currentTick := 0

/-- `ipcache_init`; the clock is read twice. -/
def init (s : Ipcache) (time time' : UInt64) (pid : UInt16) : Ipcache :=
  { s with
    aseed := time ^^^ (time' <<< 3) ^^^ pid.toUInt64
    idbash := fun _ => none
    ipbash := fun _ => none }

def tick (s : Ipcache) : Ipcache := { s with currentTick := s.currentTick + 1 }

def isExpiredTick (s : Ipcache) (tick : UInt64) : Bool := tick < s.currentTick

/-! ### The two tables

No chain is longer than the number of items ever allocated, so a longer walk has no end. -/

def linkresolveid (s : Ipcache) (addrp : ItemRef) : Option Ipcache := do
  let (heap, idbash) ← idTable.link s.allocated s.heap s.idbash addrp
  some { s with heap := heap, idbash := idbash }

def unlinkresolveid (s : Ipcache) (rp : ItemRef) : Option Ipcache := do
  let (heap, idbash) ← idTable.unlink s.heap s.idbash rp
  some { s with heap := heap, idbash := idbash }

def linkresolveip (s : Ipcache) (addrp : ItemRef) : Option Ipcache := do
  let (heap, ipbash) ← ipTable.link s.allocated s.heap s.ipbash addrp
  some { s with heap := heap, ipbash := ipbash }

def unlinkresolveip (s : Ipcache) (rp : ItemRef) : Option Ipcache := do
  let (heap, ipbash) ← ipTable.unlink s.heap s.ipbash rp
  some { s with heap := heap, ipbash := ipbash }

def findid (s : Ipcache) (id : UInt16) : Option (Option ItemRef × Ipcache) := do
  let (found, idbash) ← idTable.find s.allocated s.heap s.idbash id
  some (found, { s with idbash := idbash })

def findip (s : Ipcache) (ip : Address) : Option (Option ItemRef × Ipcache) := do
  let (found, ipbash) ← ipTable.find s.allocated s.heap s.ipbash ip
  some (found, { s with ipbash := ipbash })

/-! ### The ring of active items -/

def unlinkActivelist (s : Ipcache) (rp : ItemRef) : Option Ipcache := do
  let item ← s.heap rp
  match item.nextActive with
  | none => some s
  | some next =>
      if next = rp then some { s with activeList := none, numActive := 0 }
      else do
        -- Unlike in the chains, the neighbours are not tested for null.
        let _ ← item.previousActive
        let heap ← activeLinks.detach s.heap rp
        some { s with
          heap := heap
          activeList := if s.activeList = some rp then item.nextActive else s.activeList
          numActive := s.numActive - 1 }

def unlinkresolve (s : Ipcache) (rp : ItemRef) : Option Ipcache := do
  let s ← s.unlinkActivelist rp
  let s ← s.unlinkresolveid rp
  s.unlinkresolveip rp

/-- Removes and frees the tail of the active list. -/
def dropTail (s : Ipcache) : Option Ipcache := do
  let head ← s.activeList
  let item ← s.heap head
  let rp ← item.previousActive
  let s ← s.unlinkresolve rp
  some { s with heap := s.heap.free rp }

/-- The loop that removes items from the tail while `more` holds of their number. -/
def dropWhile (more : Int → Bool) : Nat → Ipcache → Option Ipcache
  | 0, s => if s.activeList.isSome ∧ s.numActive > 0 ∧ more s.numActive then none else some s
  | fuel + 1, s =>
      if s.activeList.isSome ∧ s.numActive > 0 ∧ more s.numActive then do
        let s ← s.dropTail
        dropWhile more fuel s
      else some s

def purgeActivelist (s : Ipcache) : Option Ipcache :=
  if s.numActive > maxActive ∧ s.numActive > 10 then
    s.dropWhile (fun numActive => numActive ≥ maxActive - 10) s.numActive.toNat
  else some s

def clear (s : Ipcache) : Option Ipcache := s.dropWhile (fun _ => true) s.numActive.toNat

def linkActivelist (s : Ipcache) (rp : ItemRef) : Option Ipcache :=
  if s.activeList = some rp then some s
  else
    match s.activeList with
    | none => do
        let heap ← s.heap.write rp fun item =>
          { item with nextActive := some rp, previousActive := some rp }
        some { s with heap := heap, activeList := some rp, numActive := 1 }
    | some _ => do
        let item ← s.heap rp
        let s ← if item.nextActive = none then s.purgeActivelist else s.unlinkActivelist rp
        let head ← s.activeList
        let heap ← activeLinks.insertHead s.heap head rp
        some { s with heap := heap, activeList := some rp, numActive := s.numActive + 1 }

/-! ### Requests and answers -/

/-- Draws ids for a new item until one is free, reading the clock once for each. -/
def drawId (s : Ipcache) (rp : ItemRef) : List UInt64 → Option Ipcache
  | [] => none
  | time :: times => do
      let idseed := (((s.idseed + s.idseed) ||| time) + s.idseed - 0x54bad4a) ^^^ s.aseed
      let aseed := s.aseed ^^^ idseed
      let heap ← s.heap.write rp fun item => { item with id := idseed.toUInt16 }
      let s := { s with heap := heap, idseed := idseed, aseed := aseed }
      let (found, s) ← s.findid idseed.toUInt16
      match found with
      | none => some s
      | some _ => drawId s rp times

def blankItem (ip : Address) : IpcacheItem where
  nextid := none
  previousid := none
  nextip := none
  previousip := none
  nextActive := none
  previousActive := none
  expireTick := 0
  lastExpireTick := 0
  fqHostname := none
  ip := ip
  id := 0
  state := .ptrreq

def allocItem (s : Ipcache) (ip : Address) (times : List UInt64) : Option (ItemRef × Ipcache) := do
  let rp := s.allocated
  let s := { s with
    heap := Function.update s.heap rp (some (blankItem ip))
    allocated := s.allocated + 1 }
  let s ← s.linkresolveip rp
  let s ← s.drawId rp times
  let s ← s.linkresolveid rp
  some (rp, s)

def prepareRequest (s : Ipcache) (ip : Address) (times : List UInt64) (rand : Nat) :
    Option (ItemRef × Ipcache) := do
  let (found, s) ← s.findip ip
  let (rp, s) ← match found with
    | some rp => some (rp, s)
    | none => s.allocItem ip times
  let heap ← s.heap.write rp (IpcacheItem.requested s.currentTick rand)
  some (rp, { s with heap := heap })

def requestFailed (s : Ipcache) (rp : ItemRef) (rand : Nat) : Option Ipcache := do
  let item ← s.heap rp
  if item.state = .finished then some s
  else do
    let heap ← s.heap.write rp (IpcacheItem.failed s.currentTick rand)
    { s with heap := heap }.linkActivelist rp

def requestSucceeded (s : Ipcache) (rp : ItemRef) (ttl : Int64) (ipname : Option String)
    (rand : Nat) : Option Ipcache := do
  let heap ← s.heap.write rp (IpcacheItem.succeeded s.currentTick ttl ipname rand)
  { s with heap := heap }.linkActivelist rp

/-- What `ipcache_getnameip` returns: a host name or the text of an address. -/
inductive NameIp
  | empty
  | address (ip : Address)
  | hostname (name : String)
deriving DecidableEq

/-- `ipcache_getnameip`; returns the name and what is written to `is_expired`, if anything is. -/
def getnameip (s : Ipcache) (nameRes : Bool) (ip : Option Address) :
    Option (NameIp × Option Bool × Ipcache) :=
  match ip with
  | none => some (.empty, none, s)
  | some ip =>
      if !nameRes then some (.address ip, none, s)
      else do
        let (found, s) ← s.findip ip
        match found with
        | none => some (.address ip, some true, s)
        | some rp => do
            let item ← s.heap rp
            let isExpired := s.isExpiredTick item.expireTick
            if item.state = .finished ∨ item.state = .failed then do
              let s ← s.linkActivelist rp
              match item.state, item.fqHostname with
              | .finished, some name => some (.hostname name, some isExpired, s)
              | _, _ => some (.address ip, some isExpired, s)
            else some (.address ip, some isExpired, s)

end Ipcache

/-! ### Runs -/

/-- What the program may call. -/
inductive IpcacheEvent
  | tick
  | prepareRequest (ip : Address) (times : List UInt64) (rand : Nat)
  | getnameip (nameRes : Bool) (ip : Option Address)
  | findid (id : UInt16)
  | requestFailed (rp : ItemRef) (rand : Nat)
  | requestSucceeded (rp : ItemRef) (ttl : Int64) (ipname : Option String) (rand : Nat)
  | clear

namespace Ipcache

/-- One call. An answer for an item that is not live fails. -/
def step (s : Ipcache) : IpcacheEvent → Option Ipcache
  | .tick => some s.tick
  | .prepareRequest ip times rand => (s.prepareRequest ip times rand).map Prod.snd
  | .getnameip nameRes ip => (s.getnameip nameRes ip).map fun result => result.2.2
  | .findid id => (s.findid id).map Prod.snd
  | .requestFailed rp rand => s.requestFailed rp rand
  | .requestSucceeded rp ttl ipname rand => s.requestSucceeded rp ttl ipname rand
  | .clear => s.clear

/-- A run from the start of the program, with the state before each call. -/
inductive Run : List (Ipcache × IpcacheEvent) → Ipcache → Prop
  | init (time time' : UInt64) (pid : UInt16) : Run [] (start.init time time' pid)
  | step {past : List (Ipcache × IpcacheEvent)} {s s' : Ipcache} (h : Run past s)
      (e : IpcacheEvent) (hstep : s.step e = some s') : Run (past ++ [(s, e)]) s'

end Ipcache

end EtherApe
