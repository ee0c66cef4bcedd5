import EtherApe.Datastructs.Colors
import EtherApe.Lib.ListStore
import EtherApe.Protocols
import EtherApe.UiUtils

/-!
# The table of protocols

The model of the table of protocols in `info_windows.c`. The protocols of a level are gone through in their
order while an iterator goes through the rows of the store, which is sorted by the column that the user
selected. A row is refreshed where it stands; when it is moved to its sorted position then, the iterator
goes on from there.
-/

namespace EtherApe.InfoWindows

open Printf Services Colors

inductive ProtoColumn
  | color
  | name
  | port
  | instantaneous
  | accumulated
  | avgsize
  | lastheard
  | packets
deriving DecidableEq, Repr

/-- `GtkSortType`. -/
inductive SortType
  | ascending
  | descending
deriving DecidableEq, Repr

/-- `protocol_list_item_t`. -/
structure ProtocolListItem where
  name : CString
  color : GdkColor
  rowstats : BasicStats

/-- A row of the store, with the item that its last column points to; a text that is not set is NULL. The
first column shows the color of the item. -/
structure ProtocolRow where
  item : ProtocolListItem
  texts : ProtoColumn → Option (List UInt8)

/-- What an update reads beside the protocols: the color that `protohash_color` gives a name stays the same
during an update, and the memory that a new item is put in holds arbitrary statistics. -/
structure TableEnv where
  clock : Clock
  services : Option ServiceTrees
  protohashColor : CString → GdkColor
  uninit : Export.Protocol → BasicStats

/-! ### The order of the rows -/

/-- The sign of `strcmp`. -/
def strcmp (a b : CString) : Int := compareValues (a.bytes.map UInt8.toNat) (b.bytes.map UInt8.toNat)

def protocolsTableCompare (idcol : ProtoColumn) (a b : ProtocolRow) : Int :=
  let stats1 := a.item.rowstats
  let stats2 := b.item.rowstats
  match idcol with
  | .color | .port | .name => strcmp a.item.name b.item.name
  | .instantaneous => compareValues stats1.average stats2.average
  | .accumulated => compareValues stats1.accumulated stats2.accumulated
  | .avgsize => compareValues stats1.avgSize stats2.avgSize
  | .lastheard => compareValues (substractTimesMs stats1.lastTime stats2.lastTime) 0
  | .packets => compareValues stats1.accuPackets stats2.accuPackets

def sortedBy (idcol : ProtoColumn) (order : SortType) (a b : ProtocolRow) : Int :=
  match order with
  | .ascending => protocolsTableCompare idcol a b
  | .descending => -protocolsTableCompare idcol a b

theorem substractTimesMs_eq_sub (a b : Timeval) :
    substractTimesMs a b = -substractTimesMs ⟨0, 0⟩ a - -substractTimesMs ⟨0, 0⟩ b := by
  rw [← substractTimesMs_sub ⟨0, 0⟩ a b]
  ring

theorem compareValues_sub_zero (a b : ℚ) : compareValues (a - b) 0 = compareValues a b := by
  simp only [compareValues, sub_eq_zero, sub_neg]

instance (idcol : ProtoColumn) : ThreeWay (protocolsTableCompare idcol) := by
  cases idcol with
  | color => exact ThreeWay.ofKey fun row : ProtocolRow => row.item.name.bytes.map UInt8.toNat
  | name => exact ThreeWay.ofKey fun row : ProtocolRow => row.item.name.bytes.map UInt8.toNat
  | port => exact ThreeWay.ofKey fun row : ProtocolRow => row.item.name.bytes.map UInt8.toNat
  | instantaneous => exact ThreeWay.ofKey fun row : ProtocolRow => row.item.rowstats.average
  | accumulated => exact ThreeWay.ofKey fun row : ProtocolRow => row.item.rowstats.accumulated
  | avgsize => exact ThreeWay.ofKey fun row : ProtocolRow => row.item.rowstats.avgSize
  | packets => exact ThreeWay.ofKey fun row : ProtocolRow => row.item.rowstats.accuPackets
  | lastheard =>
      have hcompare : protocolsTableCompare .lastheard = fun a b =>
          compareValues (-substractTimesMs ⟨0, 0⟩ a.item.rowstats.lastTime)
            (-substractTimesMs ⟨0, 0⟩ b.item.rowstats.lastTime) := by
        funext a b
        rw [protocolsTableCompare, substractTimesMs_eq_sub, compareValues_sub_zero]
      rw [hcompare]
      exact ThreeWay.ofKey fun row : ProtocolRow => -substractTimesMs ⟨0, 0⟩ row.item.rowstats.lastTime

instance (idcol : ProtoColumn) (order : SortType) : ThreeWay (sortedBy idcol order) := by
  cases order with
  | ascending => exact inferInstanceAs (ThreeWay (protocolsTableCompare idcol))
  | descending => exact @ThreeWay.reversed _ (protocolsTableCompare idcol) _

/-- In the columns for the color, the name and the port the rows are sorted by their names. -/
def ByName (idcol : ProtoColumn) : Prop := idcol = .color ∨ idcol = .name ∨ idcol = .port

theorem sortedBy_congr {idcol : ProtoColumn} (h : ByName idcol) (order : SortType)
    {a a' b b' : ProtocolRow} (ha : a.item.name = a'.item.name) (hb : b.item.name = b'.item.name) :
    sortedBy idcol order a b = sortedBy idcol order a' b' := by
  have hcompare : protocolsTableCompare idcol a b = protocolsTableCompare idcol a' b' := by
    obtain rfl | rfl | rfl := h <;> simp only [protocolsTableCompare, ha, hb]
  cases order with
  | ascending => exact hcompare
  | descending => exact congrArg Neg.neg hcompare

/-! ### An update -/

def updateProtocolsRow (env : TableEnv) (row : ProtocolRow) : ProtocolRow :=
  let rowstats := row.item.rowstats
  { row with
    texts := fun
      | .accumulated => some (trafficToStr rowstats.accumulated false)
      | .packets => some (decimal rowstats.accuPackets)
      | .port =>
          some (((env.services.bind fun trees => servicesPortFind trees row.item.name.bytes).map
            fun ps => decimal ps.port.toNat).getD (lit "-"))
      | .instantaneous => some (trafficToStr (binary64 rowstats.average) true)
      | .lastheard => timevalToStr env.clock rowstats.lastTime
      | .avgsize => some (trafficToStr (binary64 rowstats.avgSize) false)
      | column => row.texts column }

def refreshed (env : TableEnv) (stackProto : Export.Protocol) (row : ProtocolRow) : ProtocolRow :=
  updateProtocolsRow env { row with item := { row.item with rowstats := stackProto.stats } }

def ProtocolRow.create (env : TableEnv) (stackProto : Export.Protocol) : ProtocolRow where
  item := ⟨stackProto.name, env.protohashColor stackProto.name, env.uninit stackProto⟩
  texts := fun column => if column = .name then some stackProto.name.bytes else none

section Update

variable (cmp : ProtocolRow → ProtocolRow → Int) (env : TableEnv)

def protocolsTableIterate (stackProto : Export.Protocol) (gs : RowCursor ProtocolRow) :
    RowCursor ProtocolRow :=
  match _h : gs.current with
  | none =>
      let row := ProtocolRow.create env stackProto
      let gs := (gs.append row).setSorted cmp row
      (gs.setSorted cmp (refreshed env stackProto row)).finish
  | some row =>
      if row.item.name.bytes ≠ stackProto.name.bytes then protocolsTableIterate stackProto gs.remove
      else (gs.setSorted cmp (refreshed env stackProto row)).next
termination_by gs.ahead.length
decreasing_by exact RowCursor.length_remove _h

/-- The loop over the protocols; the rows that are left then are removed. -/
def synchronise (protos : List Export.Protocol) (gs : RowCursor ProtocolRow) : List ProtocolRow :=
  (protos.foldl (fun gs stackProto => protocolsTableIterate cmp env stackProto gs) gs).passed

/-- The protocols that are displayed; the stack can be NULL. -/
def displayed (pstk : Option (Level → List Export.Protocol)) (stackLevel : Level) : List Export.Protocol :=
  (pstk.map fun protostack => protostack stackLevel).getD []

end Update

def updateProtocolsTable (env : TableEnv) (idcol : ProtoColumn) (order : SortType)
    (pstk : Option (Level → List Export.Protocol)) (stackLevel : Level) (rows : List ProtocolRow) :
    List ProtocolRow :=
  synchronise (sortedBy idcol order) env (displayed pstk stackLevel) (RowCursor.first rows)

end EtherApe.InfoWindows
