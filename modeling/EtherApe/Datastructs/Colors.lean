import EtherApe.Datastructs.Services

/-!
# Colors of protocols

The part of `datastructs.c` that gives a protocol its color, with the requests that use it. A color string
is parsed by `gdk_color_parse`, a parameter here; what it cannot parse leaves the color of the string before
it, and before the first string the color is whatever the stack holds. A request fails, with `none`, where
an assertion does or where a NULL is dereferenced.
-/

namespace EtherApe.Colors

open Printf Services

structure GdkColor where
  red : UInt16
  green : UInt16
  blue : UInt16
deriving DecidableEq

structure ColorHashItem where
  color : GdkColor
  preferred : Bool
deriving DecidableEq

def ProtoTable := List UInt8 → Option ColorHashItem

def ProtoTable.new : ProtoTable := fun _ => none

def ProtoTable.insert (table : ProtoTable) (name : List UInt8) (item : ColorHashItem) : ProtoTable :=
  fun other => if other = name then some item else table other

/-- The variables of the file. `current_cycle` is the place of a node in `cycle_color_list`; the services
are NULL until they are loaded. -/
structure ProtoColors where
  protohash : Option ProtoTable
  cycleColorList : List ColorHashItem
  currentCycle : Option Nat
  services : Option ServiceTrees

def ProtoColors.initial : ProtoColors := ⟨none, [], none, none⟩

def protohashClear (s : ProtoColors) : ProtoColors :=
  { s with protohash := none, cycleColorList := [], currentCycle := none }

def protohashSet (protoname : Option (List UInt8)) (protocolor : GdkColor) (s : ProtoColors) :
    ProtoColors :=
  let table := s.protohash.getD ProtoTable.new
  let name := protoname.getD []
  if name ≠ [] then { s with protohash := some (table.insert name ⟨protocolor, true⟩) }
  else
    { s with
      protohash := some table
      cycleColorList := ⟨protocolor, false⟩ :: s.cycleColorList
      currentCycle := some 0 }

/-- The first node of the list, which is NULL when it is empty. -/
def ProtoColors.firstCycle (s : ProtoColors) : Option Nat :=
  if s.cycleColorList = [] then none else some 0

def protohashResetCycle (s : ProtoColors) : ProtoColors := { s with currentCycle := s.firstCycle }

/-- `current_cycle->next`, or the first node again. -/
def ProtoColors.advanced (s : ProtoColors) (place : Nat) : Option Nat :=
  if place + 1 < s.cycleColorList.length then some (place + 1) else s.firstCycle

def protohashColor (protoname : List UInt8) (s : ProtoColors) : Option (ProtoColors × GdkColor) :=
  match s.protohash with
  | none => none
  | some table =>
      match table protoname with
      | some item => some (s, item.color)
      | none =>
          match s.currentCycle with
          | none => none
          | some place =>
              match s.cycleColorList[place]? with
              | none => none
              | some item =>
                  some ({ s with
                    protohash := some (table.insert protoname item)
                    currentCycle := s.advanced place }, item.color)

def ProtoTable.isPreferred (table : ProtoTable) (protoname : List UInt8) : Bool :=
  match table protoname with
  | none => false
  | some item => item.preferred

def protohashIsPreferred (s : ProtoColors) (protoname : List UInt8) : Option Bool :=
  s.protohash.map fun table => table.isPreferred protoname

/-- `services_fill_preferred`. Without a hash the first service fails the assertion. -/
def fillPreferred (s : ProtoColors) : Option ProtoColors :=
  match s.services with
  | none => some s
  | some trees =>
      match s.protohash with
      | none =>
          if trees.udpServices.entries.isEmpty ∧ trees.tcpServices.entries.isEmpty then some s else none
      | some table =>
          some { s with services := some (servicesFillPreferred table.isPreferred trees) }

/-- `services_init`; there is no file when none can be opened. -/
def loadServices (file : Option (UInt16 × List UInt8)) (s : ProtoColors) : Option ProtoColors :=
  if s.services.isSome then some s
  else
    match file with
    | none => some s
    | some (uninit, bytes) => fillPreferred { s with services := some (readServices uninit bytes) }

/-! ### The color vector -/

def protoDelimiters : List UInt8 := lit ", \t\n"

/-- The protocols in the second field of an entry. -/
def protosOf (field : List UInt8) : List (List UInt8) :=
  (gStrsplitSet field protoDelimiters).filter fun proto => proto ≠ []

section Prefvect

variable (gdkColorParse : List UInt8 → Option GdkColor)

def setProtos (gdkColor : GdkColor) (protos : List (List UInt8)) (s : ProtoColors) : ProtoColors :=
  protos.foldl (fun s proto => protohashSet (some proto) gdkColor s) s

/-- One entry of the vector; `gdk_color` keeps its value from entry to entry. -/
def readEntry (read : GdkColor × ProtoColors) (entry : List UInt8) : GdkColor × ProtoColors :=
  match gStrsplitSet entry colorDelimiters with
  | [] => read
  | color :: rest =>
      let gdkColor := (gdkColorParse color).getD read.1
      match rest.head? with
      | none => (gdkColor, protohashSet none gdkColor read.2)
      | some field =>
          if field = [] then (gdkColor, protohashSet (some field) gdkColor read.2)
          else (gdkColor, setProtos gdkColor (protosOf field) read.2)

/-- The list is turned over while `current_cycle` stays on its node; without a color there is a grey one. -/
def finishCycle (gdkColor : GdkColor) (s : ProtoColors) : ProtoColors :=
  if s.cycleColorList = [] then
    protohashSet none ((gdkColorParse (lit "#7f7f7f")).getD gdkColor) s
  else
    { s with
      cycleColorList := s.cycleColorList.reverse
      currentCycle := s.currentCycle.map fun place => s.cycleColorList.length - 1 - place }

def protohashReadPrefvect (uninit : GdkColor) (colors : List (List UInt8)) (s : ProtoColors) :
    Option ProtoColors :=
  let read := colors.foldl (readEntry gdkColorParse) (uninit, protohashClear s)
  fillPreferred (finishCycle gdkColorParse read.1 read.2)

end Prefvect

/-! ### Requests -/

inductive Request
  | color (protoname : List UInt8)
  | resetCycle
  | servicesInit (file : Option (UInt16 × List UInt8))

def step : Request → ProtoColors → Option ProtoColors
  | .color protoname, s => (protohashColor protoname s).map Prod.fst
  | .resetCycle, s => some (protohashResetCycle s)
  | .servicesInit file, s => loadServices file s

def run : List Request → ProtoColors → Option ProtoColors
  | [], s => some s
  | request :: requests, s => (step request s).bind (run requests)

def colorAfter (s : ProtoColors) (requests : List Request) (protoname : List UInt8) : Option GdkColor :=
  (run requests s).bind fun s => (protohashColor protoname s).map Prod.snd

end EtherApe.Colors
