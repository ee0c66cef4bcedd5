import EtherApe.Lib.CInt
import EtherApe.Util

/-!
# NetBIOS names

The model of `names_netbios.c`, on a platform with a signed `gchar`. The packet is read through a pointer
that may leave it, so the bytes of the memory around it are part of the model. The loop of
`get_dns_name` is cut off after a given number of rounds.
-/

namespace EtherApe

open Printf CInt

/-- A captured packet, at the indices `0..packetSize-1` of a memory. -/
structure RawPacket where
  p : Int → UInt8
  packetSize : Nat
  packetSize_lt : packetSize < 65536

/-- The size of a packet is a `guint16`. -/
def RawPacket.sized (packetSize : UInt16) (p : Int → UInt8) : RawPacket :=
  ⟨p, packetSize.toNat, packetSize.toNat_lt⟩

def indicesFrom (i : Int) (n : Nat) : List Int := (List.range n).map fun k : Nat => i + (k : Int)

theorem mem_indicesFrom {i j : Int} {n : Nat} : j ∈ indicesFrom i n ↔ i ≤ j ∧ j < i + n := by
  simp only [indicesFrom, List.mem_map, List.mem_range]
  constructor
  · rintro ⟨k, hk, rfl⟩
    omega
  · rintro ⟨hle, hlt⟩
    exact ⟨(j - i).toNat, by omega, by omega⟩

def maxdname : Nat := 1025

def netbiosNameLen : Nat := 16

def nameTypeVals : List (Int × String) :=
  [(0x00, "Workstation/Redirector"), (0x01, "Browser"), (0x02, "Workstation/Redirector"),
    (0x03, "Messenger service/Main name"), (0x05, "Forwarded name"), (0x06, "RAS Server service"),
    (0x1b, "PDC Domain name"), (0x1c, "BDC Domain name"), (0x1d, "Master Browser backup"),
    (0x1e, "Browser Election Service"), (0x1f, "Net DDE Service"), (0x20, "Server service"),
    (0x21, "RAS client service"), (0x22, "Exchange Interchange (MSMail Connector)"),
    (0x23, "Exchange Store"), (0x24, "Exchange Directory"), (0x2b, "Lotus Notes Server service"),
    (0x30, "Modem sharing server service"), (0x31, "Modem sharing client service"),
    (0x43, "SMS Clients Remote Control"), (0x44, "SMS Administrators Remote Control Tool"),
    (0x45, "SMS Clients Remote Chat"), (0x46, "SMS Clients Remote Transfer"),
    (0x4c, "DEC Pathworks TCP/IP Service on Windows NT"),
    (0x52, "DEC Pathworks TCP/IP Service on Windows NT"), (0x6a, "Microsoft Exchange IMC"),
    (0x87, "Microsoft Exchange MTA"), (0xbe, "Network Monitor Agent"),
    (0xbf, "Network Monitor Analyzer")]

def getNetbiosHostType (type : Int) : String := (nameTypeVals.lookup type).getD "Unknown"

/-! ### Domain names -/

/-- The variables of `get_dns_name`; `dp` always points to `offset`, and the string is kept up to
`np`. -/
structure DnsName where
  offset : Int
  maxname : Nat
  name : List UInt8
  len : Option Int
  reads : List Int

/-- How a round of the loop ends. -/
inductive DnsRound
  | more (s : DnsName)
  | terminated (s : DnsName)
  | overflow (s : DnsName)

def DnsRound.state : DnsRound → DnsName
  | more s => s
  | terminated s => s
  | overflow s => s

/-- `*np++ = c`, if there is room. -/
def DnsName.put (s : DnsName) (c : UInt8) : DnsName :=
  if 0 < s.maxname then { s with name := s.name ++ [c], maxname := s.maxname - 1 } else s

/-- Copies a label as far as there is room; what has no room is not read. -/
def DnsName.putLabel (pd : RawPacket) : Nat → DnsName → DnsName
  | 0, s => s
  | componentLen + 1, s =>
      let s := if 0 < s.maxname then
          { s with
            name := s.name ++ [pd.p s.offset]
            maxname := s.maxname - 1
            reads := s.reads ++ [s.offset] }
        else s
      putLabel pd componentLen { s with offset := s.offset + 1 }

def dnsLabel (pd : RawPacket) (componentLen : Nat) (s : DnsName) : DnsRound :=
  let s := if s.name ≠ [] then s.put 46 else s
  if ¬unsigned 32 (s.offset + componentLen) < pd.packetSize then .overflow s
  else .more (s.putLabel pd componentLen)

/-- Where a pointer leads, in the arithmetic of the source. -/
def pointerTarget (dnsDataOffset : Int) (componentLen : Nat) (low : UInt8) : Int :=
  signed 32 (unsigned 32 dnsDataOffset +
    ((componentLen &&& 0xffffff3f) * 256 % 2 ^ 32 ||| unsigned 32 (ofChar low)))

def dnsPointer (pd : RawPacket) (dnsDataOffset : Int) (componentLen : Nat) (s : DnsName) : DnsRound :=
  if ¬s.offset + 1 < pd.packetSize then .overflow s
  else
    .more { s with
      offset := pointerTarget dnsDataOffset componentLen (pd.p s.offset)
      len := some (s.len.getD (s.offset + 1 - dnsDataOffset))
      reads := s.reads ++ [s.offset] }

def dnsRound (pd : RawPacket) (dnsDataOffset : Int) (s : DnsName) : DnsRound :=
  if ¬s.offset + 1 < pd.packetSize then .overflow s
  else
    let componentLen := unsigned 32 (ofChar (pd.p s.offset))
    let s := { s with offset := s.offset + 1, reads := s.reads ++ [s.offset] }
    if componentLen = 0 then .terminated s
    else if componentLen &&& 0xc0 = 0 then dnsLabel pd componentLen s
    else if componentLen &&& 0xc0 = 0xc0 then dnsPointer pd dnsDataOffset componentLen s
    else .terminated s

/-- The loop, with as many rounds as given; it is still running where the last round wants more. -/
def dnsLoop (pd : RawPacket) (dnsDataOffset : Int) : Nat → DnsName → DnsRound
  | 0, s => .more s
  | rounds + 1, s =>
      match dnsRound pd dnsDataOffset s with
      | .more s => dnsLoop pd dnsDataOffset rounds s
      | .terminated s => .terminated s
      | .overflow s => .overflow s

/-- A returned name and the length of its field. -/
structure DnsReturn where
  name : List UInt8
  len : Int

/-- What follows `dns_name_terminated`. -/
def dnsTerminated (offset : Int) (s : DnsName) : DnsReturn :=
  let name := s.name.takeWhile (· ≠ 0)
  { name := if name = [] then safeStrncpy name (lit "<Root>") s.maxname else name
    len := s.len.getD (s.offset - offset) }

/-- What follows `overflow`. A name that fills its buffer has no NUL, and goes on with the bytes that are
on the stack behind it. -/
def dnsOverflow (stack : List UInt8) (offset : Int) (s : DnsName) : DnsReturn :=
  { name := safeStrncpy ((s.name ++ stack).takeWhile (· ≠ 0))
      (lit "<Name goes past end of captured data in packet>") s.maxname
    len := s.len.getD (s.offset - offset) }

/-- `get_dns_name`: what it returns, unless it is still running, and the indices it has read. -/
def getDnsName (stack : List UInt8) (rounds : Nat) (pd : RawPacket) (offset : Int) :
    Option DnsReturn × List Int :=
  if pd.packetSize ≤ offset then (some (dnsOverflow stack offset ⟨offset, maxdname, [], none, []⟩), [])
  else
    match dnsLoop pd offset rounds ⟨offset, maxdname - 1, [], none, []⟩ with
    | .more s => (none, s.reads)
    | .terminated s => (some (dnsTerminated offset s), s.reads)
    | .overflow s => (some (dnsOverflow stack offset s), s.reads)

/-! ### First-level encoding -/

def hexDigits : List UInt8 := lit "0123456780abcdef"

/-- The bytes of a run that the program does not determine: those before `hex_digits`, and those on the
stack behind a full name. -/
structure StrayBytes where
  hexDigits : Int → UInt8
  stack : List UInt8

/-- `hex_digits[i]`. -/
def hexDigit (stray : StrayBytes) (i : Int) : UInt8 :=
  if 0 ≤ i then hexDigits.getD i.toNat 0 else stray.hexDigits i

def shownChar (stray : StrayBytes) (nameChar : UInt8) : List UInt8 :=
  if 32 ≤ ofChar nameChar ∧ ofChar nameChar ≤ 126 then [nameChar]
  else
    lit "<" ++ [hexDigit stray (ofChar nameChar / 16), hexDigit stray (ofChar nameChar % 16)] ++ lit ">"

/-- `outname_size-1` in the arithmetic of `size_t`. -/
def lastIndex (outnameSize : Nat) : Nat := if outnameSize = 0 then 2 ^ 64 - 1 else outnameSize - 1

/-- `process_netbios_name`: the name without its last character, and that character as its type. -/
def processNetbiosName (stray : StrayBytes) (name : List UInt8) (outnameSize : Nat) :
    List UInt8 × Int :=
  ((name.take (netbiosNameLen - 1)).foldl (fun out nameChar =>
      if out.length < lastIndex outnameSize then out ++ shownChar stray nameChar else out) [],
    ofChar (name.getD (netbiosNameLen - 1) 0))

/-- What comes of the pairs of letters of a name. -/
inductive FirstLevel
  | decoded (nbname rest : List UInt8)
  | notLetter
  | odd

def isLetter (c : UInt8) : Prop := 65 ≤ ofChar c ∧ ofChar c ≤ 90

instance (c : UInt8) : Decidable (isLetter c) := inferInstanceAs (Decidable (_ ∧ _))

/-- Undoes the first-level encoding up to the scope. -/
def firstLevel : List UInt8 → FirstLevel
  | [] => .decoded [] []
  | [c] => if c = 46 then .decoded [] [c] else if ¬isLetter c then .notLetter else .odd
  | c :: c' :: cs =>
      if c = 46 then .decoded [] (c :: c' :: cs)
      else if ¬isLetter c then .notLetter
      else if c' = 46 then .odd
      else if ¬isLetter c' then .notLetter
      else
        match firstLevel cs with
        | .decoded nbname rest => .decoded (((c - 65) <<< 4 ||| (c' - 65)) :: nbname) rest
        | .notLetter => .notLetter
        | .odd => .odd

/-- What `ethereal_nbns_name` returns. -/
structure NbnsName where
  outname : List UInt8
  nameType : Int
  nameLen : Int

/-- `ethereal_nbns_name` after the domain name has been read. -/
def nbnsOfDns (stray : StrayBytes) (outnameSize : Nat) (dns : DnsReturn) : NbnsName :=
  let bad (nbname : List UInt8) : NbnsName := ⟨safeStrncpy [] nbname outnameSize, -1, dns.len⟩
  match firstLevel dns.name with
  | .notLetter =>
      bad (lit "Illegal NetBIOS name (character not between A and Z in first-level encoding)")
  | .odd => bad (lit "Illegal NetBIOS name (odd number of bytes)")
  | .decoded nbname rest =>
      if nbname.length ≠ netbiosNameLen then
        bad (lit "Illegal NetBIOS name (" ++ decimal nbname.length ++ lit " bytes long)")
      else
        let (outname, nameType) := processNetbiosName stray nbname outnameSize
        let buf := lit "<" ++ padded 2 (hex (unsigned 32 nameType)) ++ lit ">"
        let outname := safeStrncat (outname.takeWhile (· ≠ 0)) buf outnameSize
        ⟨safeStrncat outname rest outnameSize, nameType, dns.len⟩

/-- `ethereal_nbns_name`: the name, unless the loop is still running, and the indices that were read. -/
def etherealNbnsName (stray : StrayBytes) (rounds : Nat) (pd : RawPacket) (offset : Int)
    (outnameSize : Nat) : Option NbnsName × List Int :=
  let (dns, reads) := getDnsName stray.stack rounds pd offset
  (dns.map (nbnsOfDns stray outnameSize), reads)

end EtherApe
