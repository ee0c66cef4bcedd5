import EtherApe.Lib.Chains
import EtherApe.Lib.Tokens
import EtherApe.Scanf
import EtherApe.Util

/-!
# Names of hardware addresses

The model of `resolv.c`. A file that is open is its contents with what is left to read. The buffer of a
line and the entry read last are static in the source, but are written before each use, so they are passed
as values here. The paths of the files stand for their contents, which do not change.
-/

namespace EtherApe.Resolv

open Printf

def maxNameLen : Nat := 64

def maxManufLen : Nat := 9

def hashEthSize : Nat := 1024

def hashManufSize : Nat := 256

structure EtherAddr where
  a0 : UInt8
  a1 : UInt8
  a2 : UInt8
  a3 : UInt8
  a4 : UInt8
  a5 : UInt8
deriving DecidableEq

def EtherAddr.bytes (addr : EtherAddr) : List UInt8 :=
  [addr.a0, addr.a1, addr.a2, addr.a3, addr.a4, addr.a5]

def EtherAddr.manuf (addr : EtherAddr) : UInt8 × UInt8 × UInt8 := (addr.a0, addr.a1, addr.a2)

/-- `ether_t`. -/
structure Ether where
  addr : EtherAddr
  name : List UInt8

structure HashManuf where
  addr : UInt8 × UInt8 × UInt8
  name : List UInt8

structure HashEther where
  addr : EtherAddr
  name : List UInt8
  isNameFromFile : Bool

/-! ### Lines -/

/-- A `FILE` that is open. -/
structure EthFile where
  content : List UInt8
  rest : List UInt8
  eof : Bool

def EthFile.fopen (content : List UInt8) : EthFile := ⟨content, content, false⟩

def EthFile.rewind (fp : EthFile) : EthFile := ⟨fp.content, fp.content, false⟩

/-- `fgetline`; `none` is the result -1. -/
def fgetline (fp : EthFile) : EthFile × Option (List UInt8) :=
  if fp.eof then (fp, none)
  else
    let line := fp.rest.takeWhile (· ≠ 10)
    match fp.rest.dropWhile (· ≠ 10) with
    | _ :: rest => ({ fp with rest := rest }, some line)
    | [] => ({ fp with rest := [], eof := true }, if line = [] then none else some line)

/-- The delimiters of `strtok (line, " \t\n")`. -/
def isDelimiter (b : UInt8) : Bool := b = 32 ∨ b = 9 ∨ b = 10

/-- The numbers of an address with one of its separators. -/
def scanAddress (numbers : Nat) (cp : List UInt8) : Option (List Nat) :=
  (scanHexes 58 numbers cp).or ((scanHexes 45 numbers cp).or (scanHexes 46 numbers cp))

/-- `parse_ether_line`; the buffer is a string up to its first NUL. -/
def parseEtherLine (sixBytes : Bool) (buf : List UInt8) : Option Ether :=
  let line := (buf.takeWhile (· ≠ 0)).takeWhile (· ≠ 35)
  match splitTokens isDelimiter line with
  | [] => none
  | cp :: rest =>
      match scanAddress (if sixBytes then 6 else 3) cp with
      | none => none
      | some a =>
          match rest with
          | [] => none
          | name :: _ =>
              let byte (i : Nat) : UInt8 := UInt8.ofNat (a.getD i 0)
              some ⟨⟨byte 0, byte 1, byte 2, byte 3, byte 4, byte 5⟩, safeStrncpy [] name maxNameLen⟩

theorem fgetline_rest_lt {fp fp' : EthFile} {line : List UInt8} (h : fgetline fp = (fp', some line)) :
    fp'.rest.length < fp.rest.length := by
  rw [fgetline] at h
  split at h
  · exact absurd (congrArg Prod.snd h) (Option.some_ne_none line).symm
  have hsplit := congrArg List.length (@List.takeWhile_append_dropWhile _ (· ≠ (10 : UInt8)) fp.rest)
  rw [List.length_append] at hsplit
  dsimp only at h
  split at h
  next b rest hrest =>
    obtain ⟨rfl, _⟩ := Prod.mk.inj h
    rw [hrest, List.length_cons] at hsplit
    dsimp only
    omega
  next hrest =>
    obtain ⟨rfl, hline⟩ := Prod.mk.inj h
    split at hline
    · exact absurd hline (Option.some_ne_none line).symm
    next hne =>
      have hpos := List.length_pos_iff_ne_nil.mpr hne
      rw [hrest, List.length_nil] at hsplit
      dsimp only [List.length_nil]
      omega

/-- `get_ethent` for a file that is open. -/
def getEthent (sixBytes : Bool) (fp : EthFile) : EthFile × Option Ether :=
  match _h : fgetline fp with
  | (fp', none) => (fp', none)
  | (fp', some buf) =>
      match parseEtherLine sixBytes buf with
      | some eth => (fp', some eth)
      | none => getEthent sixBytes fp'
termination_by fp.rest.length
decreasing_by exact fgetline_rest_lt _h

theorem getEthent_rest_lt {sixBytes : Bool} {fp fp' : EthFile} {eth : Ether}
    (h : getEthent sixBytes fp = (fp', some eth)) : fp'.rest.length < fp.rest.length := by
  fun_induction getEthent sixBytes fp with
  | case1 => exact absurd (congrArg Prod.snd h) (Option.some_ne_none eth).symm
  | case2 fp fp₁ buf hline eth₁ hparse =>
      rw [← (Prod.mk.inj h).1]
      exact fgetline_rest_lt hline
  | case3 fp fp₁ buf hline hparse ih => exact (ih h).trans (fgetline_rest_lt hline)

/-- The loop of `get_ethbyaddr` over a file that is open. -/
def searchEthent (addr : EtherAddr) (fp : EthFile) : EthFile × Option Ether :=
  match _h : getEthent true fp with
  | (fp', none) => (fp', none)
  | (fp', some eth) => if addr = eth.addr then (fp', some eth) else searchEthent addr fp'
termination_by fp.rest.length
decreasing_by exact getEthent_rest_lt _h

/-! ### Open files -/

/-- The contents of the files, if they can be opened. -/
structure EtherFiles where
  ethers : Option (List UInt8)
  pethers : Option (List UInt8)
  manuf : Option (List UInt8)

def setEthent (path : Option (List UInt8)) (ethP : Option EthFile) : Option EthFile :=
  match ethP with
  | some fp => some fp.rewind
  | none => path.map EthFile.fopen

def endEthent (_ethP : Option EthFile) : Option EthFile := none

def searchOpen (addr : EtherAddr) (ethP : Option EthFile) : Option EthFile × Option Ether :=
  match ethP with
  | none => (none, none)
  | some fp => ((searchEthent addr fp).1, (searchEthent addr fp).2)

def getEthbyaddr (files : EtherFiles) (addr : EtherAddr) (ethP : Option EthFile) :
    Option EthFile × Option Ether :=
  let (ethP, eth) := searchOpen addr (setEthent files.ethers ethP)
  match eth with
  | some eth => (ethP, some eth)
  | none =>
      let (ethP, eth) := searchOpen addr (setEthent files.pethers (endEthent ethP))
      (endEthent ethP, eth)

/-! ### Tables -/

def manufHash (addr : UInt8 × UInt8 × UInt8) : Nat := addr.2.2.toNat &&& (hashManufSize - 1)

/-- `(i ^ j) & (HASHETHSIZE - 1)`. -/
def ethHash (addr : EtherAddr) : Nat :=
  let j := addr.a2.toNat <<< 8 ||| addr.a3.toNat
  let i := addr.a4.toNat <<< 8 ||| addr.a5.toNat
  (i ^^^ j) &&& (hashEthSize - 1)

abbrev ManufTable := Nat → List HashManuf

abbrev EthTable := Nat → List HashEther

def addManufName (table : ManufTable) (eth : Ether) : ManufTable :=
  Chains.add HashManuf.addr manufHash table ⟨eth.addr.manuf, safeStrncpy [] eth.name maxManufLen⟩

def manufNameLookup (table : ManufTable) (addr : EtherAddr) : Option HashManuf :=
  Chains.lookup HashManuf.addr manufHash table addr.manuf

/-- The loop of `initialize_ethers`. -/
def loadManuf (fp : EthFile) (table : ManufTable) : ManufTable :=
  match _h : getEthent false fp with
  | (_, none) => table
  | (fp', some eth) => loadManuf fp' (addManufName table eth)
termination_by fp.rest.length
decreasing_by exact getEthent_rest_lt _h

/-- The static variables. -/
structure EthResolution where
  ethP : Option EthFile
  manufTable : ManufTable
  ethTable : EthTable
  initialized : Bool

def EthResolution.initial : EthResolution := ⟨none, Chains.empty, Chains.empty, false⟩

def initializeEthers (files : EtherFiles) (s : EthResolution) : EthResolution :=
  match setEthent files.manuf s.ethP with
  | none => { s with ethP := none }
  | some fp => { s with ethP := endEthent fp, manufTable := loadManuf fp s.manufTable }

def snprintf (size : Nat) (text : List UInt8) : List UInt8 := text.take (size - 1)

/-- `%02x`. -/
def hexByte (b : UInt8) : List UInt8 := padded 2 (hex b.toNat)

def newEther (s : EthResolution) (addr : EtherAddr) (eth : Option Ether) : HashEther :=
  match eth with
  | none =>
      match manufNameLookup s.manufTable addr with
      | none => ⟨addr, snprintf maxNameLen (etherToStr addr.bytes), false⟩
      | some manufp =>
          ⟨addr, snprintf maxNameLen (manufp.name ++ lit "_" ++ hexByte addr.a3 ++ lit ":" ++
            hexByte addr.a4 ++ lit ":" ++ hexByte addr.a5), false⟩
  | some eth => ⟨addr, safeStrncpy [] eth.name maxNameLen, true⟩

def HashEther.answer (tp : HashEther) (onlyEthers : Bool) : Option (List UInt8) :=
  if !onlyEthers || tp.isNameFromFile then some tp.name else none

def ethNameLookup (files : EtherFiles) (addr : EtherAddr) (onlyEthers : Bool) (s : EthResolution) :
    EthResolution × Option (List UInt8) :=
  match Chains.lookup HashEther.addr ethHash s.ethTable addr with
  | some tp => (s, tp.answer onlyEthers)
  | none =>
      let (ethP, eth) := getEthbyaddr files addr s.ethP
      let tp := newEther s addr eth
      ({ s with ethP := ethP, ethTable := Chains.add HashEther.addr ethHash s.ethTable tp },
        tp.answer onlyEthers)

def getEtherName (files : EtherFiles) (addr : EtherAddr) (onlyEthers : Bool) (s : EthResolution) :
    EthResolution × Option (List UInt8) :=
  let s := if s.initialized then s else { initializeEthers files s with initialized := true }
  ethNameLookup files addr onlyEthers s

end EtherApe.Resolv
