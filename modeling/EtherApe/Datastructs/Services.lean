import EtherApe.Datastructs
import EtherApe.Lib.CInt
import EtherApe.Lib.SortedTree
import EtherApe.Scanf

/-!
# Services

The part of `datastructs.c` that reads the file of services. A file is a text without NUL. The variable
`port_number` keeps its value from line to line, and has none before the first number is scanned.
-/

namespace EtherApe.Services

open Printf CInt

def lineSize : Nat := 1024

def gAsciiToupper (c : UInt8) : UInt8 := if 97 ≤ c ∧ c ≤ 122 then c - 32 else c

def gAsciiStrup (str : List UInt8) : List UInt8 := str.map gAsciiToupper

/-- The sign of `g_ascii_strcasecmp`. -/
def gAsciiStrcasecmp : List UInt8 → List UInt8 → Int
  | [], [] => 0
  | [], _ :: _ => -1
  | _ :: _, [] => 1
  | a :: as, b :: bs =>
      if gAsciiTolower a = gAsciiTolower b then gAsciiStrcasecmp as bs
      else if gAsciiTolower a < gAsciiTolower b then -1
      else 1

/-- `g_strdelimit (line, " \t\n", ' ')`. -/
def gStrdelimit (line : List UInt8) : List UInt8 :=
  line.map fun b => if b = 32 ∨ b = 9 ∨ b = 10 then 32 else b

/-- `port_service_t`. -/
structure PortService where
  port : UInt16
  name : List UInt8
  preferred : Bool
deriving DecidableEq

def servicesPortCmp (a b : UInt16) : Int := if b < a then 1 else if a < b then -1 else 0

def servicesNameCmp (a b : List UInt8) : Int := gAsciiStrcasecmp a b

/-! ### The trees -/

theorem servicesPortCmp_eq (a b : UInt16) :
    servicesPortCmp a b = if b.toNat < a.toNat then 1 else if a.toNat < b.toNat then -1 else 0 := by
  simp only [servicesPortCmp, UInt16.lt_iff_toNat_lt]

theorem servicesPortCmp_eq_zero_iff {a b : UInt16} : servicesPortCmp a b = 0 ↔ a = b := by
  rw [servicesPortCmp_eq, ← UInt16.toNat_inj]
  rcases lt_trichotomy a.toNat b.toNat with hlt | heq | hgt
  · rw [if_neg (by omega), if_pos hlt]
    exact iff_of_false (by decide) (ne_of_lt hlt)
  · rw [if_neg (by omega), if_neg (by omega)]
    exact iff_of_true rfl heq
  · rw [if_pos hgt]
    exact iff_of_false (by decide) (ne_of_gt hgt)

instance : ThreeWay servicesPortCmp where
  swap a b := by
    rw [servicesPortCmp_eq, servicesPortCmp_eq]
    rcases lt_trichotomy a.toNat b.toNat with hlt | heq | hgt
    · rw [if_pos hlt, if_neg (by omega), if_pos hlt]
      rfl
    · rw [if_neg (by omega), if_neg (by omega), if_neg (by omega), if_neg (by omega)]
      rfl
    · rw [if_neg (by omega), if_pos hgt, if_pos hgt]
  trans a b c := by
    rw [servicesPortCmp_eq, servicesPortCmp_eq, servicesPortCmp_eq]
    intro hab hbc
    split_ifs at * <;> omega

theorem gAsciiStrcasecmp_eq_zero_iff {a b : List UInt8} :
    gAsciiStrcasecmp a b = 0 ↔ a.map gAsciiTolower = b.map gAsciiTolower := by
  induction a generalizing b with
  | nil => cases b <;> simp [gAsciiStrcasecmp]
  | cons x xs ih =>
      cases b with
      | nil => simp [gAsciiStrcasecmp]
      | cons y ys =>
          rw [gAsciiStrcasecmp, List.map_cons, List.map_cons, List.cons.injEq]
          by_cases hxy : gAsciiTolower x = gAsciiTolower y
          · rw [if_pos hxy, ih]
            exact (and_iff_right hxy).symm
          · rw [if_neg hxy]
            refine iff_of_false ?_ fun h => hxy h.1
            split <;> decide

theorem gAsciiStrcasecmp_cons (x y : UInt8) (xs ys : List UInt8) :
    gAsciiStrcasecmp (x :: xs) (y :: ys) =
      if (gAsciiTolower x).toNat = (gAsciiTolower y).toNat then gAsciiStrcasecmp xs ys
      else if (gAsciiTolower x).toNat < (gAsciiTolower y).toNat then -1
      else 1 := by
  simp only [gAsciiStrcasecmp, UInt8.lt_iff_toNat_lt, UInt8.toNat_inj]

instance : ThreeWay servicesNameCmp where
  swap a b := by
    unfold servicesNameCmp
    induction a generalizing b with
    | nil => cases b <;> rfl
    | cons x xs ih =>
        cases b with
        | nil => rfl
        | cons y ys =>
            have hrest := ih ys
            rw [gAsciiStrcasecmp_cons, gAsciiStrcasecmp_cons]
            split_ifs <;> omega
  trans a b c := by
    unfold servicesNameCmp
    induction a generalizing b c with
    | nil => cases b <;> cases c <;> simp [gAsciiStrcasecmp]
    | cons x xs ih =>
        cases b with
        | nil => simp [gAsciiStrcasecmp]
        | cons y ys =>
            cases c with
            | nil => simp [gAsciiStrcasecmp]
            | cons z zs =>
                have hrest := ih ys zs
                rw [gAsciiStrcasecmp_cons, gAsciiStrcasecmp_cons, gAsciiStrcasecmp_cons]
                intro hab hbc
                split_ifs at * <;> omega

inductive Transport
  | tcp
  | udp
deriving DecidableEq, Repr

/-- How a transport is written in the file. -/
def Transport.text : Transport → List UInt8
  | .tcp => lit "tcp"
  | .udp => lit "udp"

/-- `tcp_services`, `udp_services` and `service_names`. -/
structure ServiceTrees where
  tcpServices : SortedTree servicesPortCmp PortService
  udpServices : SortedTree servicesPortCmp PortService
  serviceNames : SortedTree servicesNameCmp PortService

/-- The trees while the file is read, and `port_number`. -/
structure Loading where
  tcpServices : SortedTree servicesPortCmp PortService
  udpServices : SortedTree servicesPortCmp PortService
  portNumber : UInt16

def PortService.create (port : UInt16) (name : List UInt8) : PortService := ⟨port, name, false⟩

/-! ### Lines -/

/-- The string that `fgets` reads, and what is left; `n` more bytes have room. -/
def fgets : Nat → List UInt8 → List UInt8 × List UInt8
  | 0, file => ([], file)
  | _, [] => ([], [])
  | n + 1, b :: file =>
      if b = 10 then ([b], file)
      else
        let (line, rest) := fgets n file
        (b :: line, rest)

theorem fgets_append (n : Nat) (file : List UInt8) : (fgets n file).1 ++ (fgets n file).2 = file := by
  fun_induction fgets n file with
  | case1 => rfl
  | case2 => rfl
  | case3 => rfl
  | case4 n b file hb line rest hrest ih =>
      rw [hrest] at ih
      rw [List.cons_append, ih]

theorem fgets_rest_lt (n : Nat) {file : List UInt8} (h : file ≠ []) :
    (fgets (n + 1) file).2.length < file.length := by
  obtain ⟨b, rest, rfl⟩ := List.exists_cons_of_ne_nil h
  have hall := congrArg List.length (fgets_append (n + 1) (b :: rest))
  have hsome : (fgets (n + 1) (b :: rest)).1 ≠ [] := by
    rw [fgets]
    split <;> exact List.cons_ne_nil _ _
  rw [List.length_append] at hall
  have hpos := List.length_pos_iff_ne_nil.mpr hsome
  omega

def fgetsAll (file : List UInt8) : List (List UInt8) :=
  if h : file = [] then []
  else (fgets (lineSize - 1) file).1 :: fgetsAll (fgets (lineSize - 1) file).2
termination_by file.length
decreasing_by exact fgets_rest_lt _ h

/-- The loop over the tokens behind the first that are empty. -/
def secondToken (t1 : List (List UInt8)) : Option (List UInt8) := t1.tail.find? fun token => token ≠ []

/-- A line that is parsed without an error: the first token in capitals, and what follows the slash. -/
structure ParsedLine where
  name : List UInt8
  transport : List UInt8

/-- `sscanf (str, "%hd", &port_number)`; `none` is the result zero. -/
def scanShort (portNumber : UInt16) (str : List UInt8) : Option UInt16 :=
  match scanInt str with
  | .failed => none
  | .eof => some portNumber
  | .number value => some (UInt16.ofNat (unsigned 16 value))

def UnknownTransport (transport : List UInt8) : Prop :=
  gAsciiStrcasecmp (lit "udp") transport ≠ 0 ∧ gAsciiStrcasecmp (lit "tcp") transport ≠ 0 ∧
    gAsciiStrcasecmp (lit "ddp") transport ≠ 0 ∧ gAsciiStrcasecmp (lit "sctp") transport ≠ 0

instance (transport : List UInt8) : Decidable (UnknownTransport transport) :=
  inferInstanceAs (Decidable (_ ∧ _))

/-- Parses the token behind the name; `none` is an error. -/
def parseSecond (portNumber : UInt16) (name str : List UInt8) : UInt16 × Option ParsedLine :=
  let t2 := gStrsplit str 47
  match scanShort portNumber (t2.headD []) with
  | none => (portNumber, none)
  | some portNumber =>
      if portNumber < 1 then (portNumber, none)
      else
        match t2[1]? with
        | none => (portNumber, none)
        | some transport =>
            if UnknownTransport transport then (portNumber, none)
            else (portNumber, some ⟨name, transport⟩)

/-- Parses a line with the given value of `port_number`, and gives it the value it has then. -/
def parseLine (portNumber : UInt16) (line : List UInt8) : UInt16 × Option ParsedLine :=
  let t1 := gStrsplit (gStrdelimit line) 32
  match secondToken t1 with
  | none => (portNumber, none)
  | some str => parseSecond portNumber (gAsciiStrup (t1.headD [])) str

def Skipped (line : List UInt8) : Prop :=
  line.head? = some 35 ∨ line.head? = some 32 ∨ line.head? = some 10 ∨ line.head? = some 9

instance (line : List UInt8) : Decidable (Skipped line) := inferInstanceAs (Decidable (_ ∨ _))

/-- Maps the port of a parsed line to its name. -/
def storeService (s : Loading) (parsed : ParsedLine) : Loading :=
  if gAsciiStrcasecmp (lit "ddp") parsed.transport = 0 then s
  else if gAsciiStrcasecmp (lit "sctp") parsed.transport = 0 then s
  else
    let portService := PortService.create s.portNumber parsed.name
    if gAsciiStrcasecmp (lit "tcp") parsed.transport = 0 then
      { s with tcpServices := s.tcpServices.insert s.portNumber portService }
    else if gAsciiStrcasecmp (lit "udp") parsed.transport = 0 then
      { s with udpServices := s.udpServices.insert s.portNumber portService }
    else s

def readLine (s : Loading) (line : List UInt8) : Loading :=
  if Skipped line then s
  else
    match parseLine s.portNumber line with
    | (portNumber, none) => { s with portNumber := portNumber }
    | (portNumber, some parsed) => storeService { s with portNumber := portNumber } parsed

/-! ### The trees after reading -/

/-- `services_port_trv` for every service of a tree. -/
def servicesPortTrv (serviceNames : SortedTree servicesNameCmp PortService)
    (services : SortedTree servicesPortCmp PortService) : SortedTree servicesNameCmp PortService :=
  services.values.foldl (fun names svc => names.insert svc.name (PortService.create svc.port svc.name))
    serviceNames

/-- `services_pref_trv` for every service of a tree. -/
def servicesPrefTrv (isPreferred : List UInt8 → Bool) (services : SortedTree servicesPortCmp PortService) :
    SortedTree servicesPortCmp PortService :=
  (services.traverse (fun _ _ svc => ((), { svc with preferred := isPreferred svc.name })) ()).2

def servicesFillPreferred (isPreferred : List UInt8 → Bool) (trees : ServiceTrees) : ServiceTrees :=
  { trees with
    udpServices := servicesPrefTrv isPreferred trees.udpServices
    tcpServices := servicesPrefTrv isPreferred trees.tcpServices }

/-- The trees before the first line; `uninit` is what `port_number` holds then. -/
def Loading.initial (uninit : UInt16) : Loading := ⟨SortedTree.empty, SortedTree.empty, uninit⟩

/-- The loop that reads the file. -/
def readFile (uninit : UInt16) (file : List UInt8) : Loading :=
  (fgetsAll file).foldl readLine (Loading.initial uninit)

def readServices (uninit : UInt16) (file : List UInt8) : ServiceTrees :=
  let s := readFile uninit file
  let serviceNames := servicesPortTrv (servicesPortTrv SortedTree.empty s.udpServices) s.tcpServices
  ⟨s.tcpServices, s.udpServices, serviceNames⟩

/-- `services_init` for a file that could be opened, when no services have been loaded. -/
def servicesInit (isPreferred : List UInt8 → Bool) (uninit : UInt16) (file : List UInt8) : ServiceTrees :=
  servicesFillPreferred isPreferred (readServices uninit file)

def servicesTcpFind (trees : ServiceTrees) (port : UInt16) : Option PortService :=
  trees.tcpServices.lookup port

def servicesUdpFind (trees : ServiceTrees) (port : UInt16) : Option PortService :=
  trees.udpServices.lookup port

def servicesPortFind (trees : ServiceTrees) (name : List UInt8) : Option PortService :=
  trees.serviceNames.lookup name

end EtherApe.Services
