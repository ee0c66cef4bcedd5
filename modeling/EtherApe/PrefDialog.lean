import EtherApe.Datastructs.Colors
import EtherApe.Lib.Runs
import EtherApe.Preferences

/-!
# The preferences dialog

The part of `pref_dialog.c` that changes the preferences while its dialog is open, and gives them up or keeps
them when it is closed. The colors are shown in a list of rows that is filled from the color vector and
written back to it. Variables that are not set hold whatever is on the stack, and a handler fails, with
`none`, where it dereferences a NULL. What GTK shows is left out but for the rows; the handlers get the row at
the cursor, the chosen color and the texts of the entries as arguments.

The compaction of a vector is taken for the vector it gives, for the string of a config file as well, though
it writes past the end of its vectors of tokens for some of them, as `not_all_vectors_terminated` shows.
-/

namespace EtherApe.PrefDialog

open Printf Colors

/-- The variables of the stack, read before they are set. -/
abbrev Stack := Nat → GdkColor

/-- A row of the color list: the color of its cell and the protocols. -/
structure ColorRow where
  gdkColor : GdkColor
  protocol : List UInt8
deriving DecidableEq

/-- The preferences, the colors of the protocols and the variables of the dialog. -/
structure Dialog where
  pref : PrefStruct
  protoColors : ProtoColors
  colorsChanged : Bool
  tmpPref : Option PrefStruct
  colorStore : List ColorRow
  isadd : Bool

/-! ### The color list -/

/-- `"%02x"` of a component without its low byte. -/
def hexByte (component : UInt16) : List UInt8 := padded 2 (hex (component >>> 8).toNat)

/-- `"#%02x%02x%02x;%s"`. -/
def ColorRow.entry (row : ColorRow) : List UInt8 :=
  lit "#" ++ hexByte row.gdkColor.red ++ hexByte row.gdkColor.green ++ hexByte row.gdkColor.blue ++
    lit ";" ++ row.protocol

/-- Since only 24 bits are going to be saved, no more are displayed. -/
def truncated (gdkColor : GdkColor) : GdkColor where
  red := gdkColor.red >>> 8 <<< 8
  green := gdkColor.green >>> 8 <<< 8
  blue := gdkColor.blue >>> 8 <<< 8

section

variable (gdkColorParse : List UInt8 → Option GdkColor)

/-- The row of an entry. An empty entry has no color string to be parsed. -/
def colorRow (uninit : GdkColor) (entry : List UInt8) : Option ColorRow :=
  match gStrsplit entry 59 with
  | [] => none
  | color :: protocols => some ⟨(gdkColorParse color).getD uninit, protocols.headD []⟩

def prefToColorList (stack : Stack) : List (List UInt8) → Option (List ColorRow)
  | [] => some []
  | entry :: entries =>
      match colorRow gdkColorParse (stack 0) entry,
        prefToColorList (fun i => stack (i + 1)) entries with
      | some row, some rows => some (row :: rows)
      | _, _ => none

/-- `protohash_read_prefvect(pref.colors)`. -/
def readPrefColors (stack : Stack) (s : Dialog) : Option Dialog :=
  (protohashReadPrefvect gdkColorParse (stack 0) s.pref.colors s.protoColors).map fun protoColors =>
    { s with protoColors }

def colorListToPref (stack : Stack) (s : Dialog) : Option Dialog :=
  readPrefColors gdkColorParse stack
    { s with pref := { s.pref with colors := protohashCompact (s.colorStore.map ColorRow.entry) } }

/-! ### Changes of the list -/

def onColorAddButtonClicked (s : Dialog) : Dialog := { s with isadd := true }

def Dialog.rowAt (s : Dialog) (cursor : Option Nat) : Option ColorRow := cursor.bind (s.colorStore[·]?)

def onColorChangeButtonClicked (cursor : Option Nat) (s : Dialog) : Dialog :=
  match s.rowAt cursor with
  | none => s
  | some _ => { s with isadd := false }

def onColorRemoveButtonClicked (stack : Stack) (cursor : Option Nat) (s : Dialog) : Option Dialog :=
  match cursor with
  | none => some s
  | some gpath =>
      if gpath < s.colorStore.length then
        colorListToPref gdkColorParse stack
          { s with colorStore := s.colorStore.eraseIdx gpath, colorsChanged := true }
      else some s

/-- The list with a row of the chosen color, or with the color of the row at the cursor changed. -/
def storeColor (cursor : Option Nat) (gdkColor : GdkColor) (s : Dialog) : Option (List ColorRow) :=
  match s.isadd, cursor with
  | true, some gpath =>
      if gpath < s.colorStore.length then some (s.colorStore.insertIdx gpath ⟨truncated gdkColor, []⟩)
      else none
  | true, none => some (s.colorStore ++ [⟨truncated gdkColor, []⟩])
  | false, some gpath =>
      if gpath < s.colorStore.length then
        some (s.colorStore.modify gpath fun row => { row with gdkColor := truncated gdkColor })
      else none
  | false, none => none

def onColordiagOkClicked (stack : Stack) (cursor : Option Nat) (gdkColor : GdkColor) (s : Dialog) :
    Option Dialog :=
  match storeColor cursor gdkColor s with
  | none => some s
  | some colorStore =>
      (colorListToPref gdkColorParse stack { s with colorStore }).map fun s =>
        { s with colorsChanged := true }

/-- The text is turned into upper case by `g_utf8_strup`. -/
def onProtocolEditOkClicked (gUtf8Strup : List UInt8 → List UInt8) (stack : Stack) (cursor : Option Nat)
    (protoString : List UInt8) (s : Dialog) : Option Dialog :=
  match cursor with
  | none => some s
  | some gpath =>
      if gpath < s.colorStore.length then
        colorListToPref gdkColorParse stack
          { s with
            colorStore := s.colorStore.modify gpath fun row =>
              { row with protocol := removeSpaces (gUtf8Strup protoString) }
            colorsChanged := true }
      else some s

end

/-! ### The other controls -/

/-- `MILLI`, from the seconds of a spin button. -/
def milli : Float := 1000.0

/-- The controls that set a preference each, with what they are set to. -/
inductive Control
  | nodeRadiusSlider (value : Float)
  | linkWidthSlider (value : Float)
  | averagingSpin (value : Float)
  | refreshSpin (newperiod : UInt32)
  | nodeToSpin (value : Float)
  | guiNodeToSpin (value : Float)
  | protoNodeToSpin (value : Float)
  | linkToSpin (value : Float)
  | guiLinkToSpin (value : Float)
  | protoLinkToSpin (value : Float)
  | protoToSpin (value : Float)
  | sizeMode (active : UInt32)
  | sizeVariable (active : UInt32)
  | stackLevel (active : UInt32)
  | textFont (name : Option (List UInt8))
  | textColor (name : List UInt8)
  | diagramOnlyToggle (active : Bool)
  | groupUnkCheck (active : Bool)
  | numericToggle (active : Bool)

def Control.changed (pref : PrefStruct) : Control → PrefStruct
  | nodeRadiusSlider value => { pref with nodeRadiusMultiplier := Float.exp (value * Float.log 10) }
  | linkWidthSlider value => { pref with linkNodeRatio := value }
  | averagingSpin value => { pref with averagingTime := value }
  | refreshSpin newperiod => { pref with refreshPeriod := newperiod }
  | nodeToSpin value => { pref with nodeTimeoutTime := value * milli }
  | guiNodeToSpin value => { pref with guiNodeTimeoutTime := value * milli }
  | protoNodeToSpin value => { pref with protoNodeTimeoutTime := value * milli }
  | linkToSpin value => { pref with linkTimeoutTime := value * milli }
  | guiLinkToSpin value => { pref with guiLinkTimeoutTime := value * milli }
  | protoLinkToSpin value => { pref with protoLinkTimeoutTime := value * milli }
  | protoToSpin value => { pref with protoTimeoutTime := value * milli }
  | sizeMode active => { pref with sizeMode := active }
  | sizeVariable active => { pref with nodeSizeVariable := active }
  | stackLevel active => { pref with stackLevel := active }
  | textFont name => { pref with fontname := name.or pref.fontname }
  | textColor name => { pref with textColor := some name }
  | diagramOnlyToggle active => { pref with diagramOnly := active }
  | groupUnkCheck active => { pref with groupUnk := active }
  | numericToggle active => { pref with nameRes := active }

/-! ### Opening and closing -/

/-- `copy_config`; nothing of the old data is left. -/
def copyConfig (src : PrefStruct) : PrefStruct where
  nameRes := src.nameRes
  diagramOnly := src.diagramOnly
  groupUnk := src.groupUnk
  stationary := src.stationary
  nodeRadiusMultiplier := src.nodeRadiusMultiplier
  linkNodeRatio := src.linkNodeRatio
  sizeMode := src.sizeMode
  nodeSizeVariable := src.nodeSizeVariable
  filter := src.filter
  textColor := src.textColor
  fontname := src.fontname
  centerNode := src.centerNode
  stackLevel := src.stackLevel
  colors := src.colors
  protoTimeoutTime := src.protoTimeoutTime
  guiNodeTimeoutTime := src.guiNodeTimeoutTime
  nodeTimeoutTime := src.nodeTimeoutTime
  protoNodeTimeoutTime := src.protoNodeTimeoutTime
  guiLinkTimeoutTime := src.guiLinkTimeoutTime
  linkTimeoutTime := src.linkTimeoutTime
  protoLinkTimeoutTime := src.protoLinkTimeoutTime
  refreshPeriod := src.refreshPeriod
  averagingTime := src.averagingTime

def duplicateConfig (src : PrefStruct) : PrefStruct := copyConfig src

/-- The texts of the entries for the filter and the center node. -/
structure Entries where
  filter : Option (List UInt8)
  centerNode : Option (List UInt8)

section

variable (gdkColorParse : List UInt8 → Option GdkColor)

/-- `initialize_pref_controls`, as far as it fills the rows. -/
def initializePrefControls (stack : Stack) (s : Dialog) : Option Dialog :=
  (prefToColorList gdkColorParse stack s.pref.colors).map fun colorStore => { s with colorStore }

def onPreferences1Activate (stack : Stack) (s : Dialog) : Option Dialog :=
  initializePrefControls gdkColorParse stack { s with tmpPref := some (duplicateConfig s.pref) }

def onFilterEntryChanged (str : Option (List UInt8)) (s : Dialog) : Dialog :=
  { s with pref := { s.pref with filter := str } }

def onCenterNodeChanged (str : Option (List UInt8)) (s : Dialog) : Dialog :=
  { s with pref := { s.pref with centerNode := str } }

def confirmChanges (stack : Stack) (entries : Entries) (s : Dialog) : Option Dialog :=
  let s := onCenterNodeChanged entries.centerNode (onFilterEntryChanged entries.filter s)
  if s.colorsChanged then colorListToPref gdkColorParse stack s else some s

/-- Frees the copy of the preferences, of which there has to be one. -/
def hidePrefDialog (s : Dialog) : Option Dialog :=
  match s.tmpPref with
  | none => none
  | some _ => some { s with tmpPref := none, colorsChanged := false }

def onOkPrefButtonClicked (stack : Stack) (entries : Entries) (s : Dialog) : Option Dialog :=
  (confirmChanges gdkColorParse stack entries s).bind hidePrefDialog

def onCancelPrefButtonClicked (stack : Stack) (s : Dialog) : Option Dialog :=
  match s.tmpPref with
  | none => none
  | some tmpPref =>
      let s := { s with pref := copyConfig tmpPref }
      (if s.colorsChanged then readPrefColors gdkColorParse stack s else some s).bind hidePrefDialog

/-- Confirms, and gives what is saved. -/
def onSavePrefButtonClicked (stack : Stack) (entries : Entries) (s : Dialog) : Option (Dialog × PrefStruct) :=
  (confirmChanges gdkColorParse stack entries s).bind fun s =>
    (hidePrefDialog s).map fun closed => (closed, s.pref)

/-! ### The start of the program -/

/-- The options that set preferences. -/
structure Options where
  diagramOnly : Bool
  stationary : Bool
  numeric : Bool
  filter : Option (Option (List UInt8))

def Options.applied (options : Options) (pref : PrefStruct) : PrefStruct :=
  { pref with
    diagramOnly := options.diagramOnly || pref.diagramOnly
    stationary := options.stationary || pref.stationary
    nameRes := !(options.numeric || !pref.nameRes)
    filter := options.filter.getD pref.filter }

section

variable (K : GKeyFiles)

/-- The color string of the file that is loaded, if there is one. -/
def colorString (files : ConfigFiles K.Data) : Option (List UInt8) :=
  ((loadFromFile K files.config).or (loadFromFile K files.oldConfig)).bind fun gkey =>
    readStringConfig K none gkey "colors"

def loadColors (files : ConfigFiles K.Data) (stack : Stack) : Option ProtoColors :=
  (protohashReadPrefvect gdkColorParse (stack 0) setDefaultConfig.colors ProtoColors.initial).bind
    fun protoColors =>
      match colorString K files with
      | none => some protoColors
      | some tmpstr =>
          protohashReadPrefvect gdkColorParse (stack 1) (protohashCompact (gStrsplit tmpstr 32)) protoColors

/-- The dialog when `init_diagram` has initialized it, behind `load_config` and `services_init`. -/
def startup (files : ConfigFiles K.Data) (options : Options) (services : Option (UInt16 × List UInt8))
    (stack : Stack) : Option Dialog :=
  ((loadColors gdkColorParse K files stack).bind (loadServices services)).bind fun protoColors =>
    initializePrefControls gdkColorParse (fun i => stack (i + 2))
      { pref := options.applied (loadConfig K files)
        protoColors
        colorsChanged := false
        tmpPref := none
        colorStore := []
        isadd := false }

end

/-! ### Runs -/

/-- What happens to the dialog, with the requests for the colors of protocols in between. -/
inductive Action
  | activate
  | control (control : Control)
  | colorAdd
  | colorChange (cursor : Option Nat)
  | colorRemove (cursor : Option Nat)
  | colordiagOk (cursor : Option Nat) (gdkColor : GdkColor)
  | protocolEditOk (cursor : Option Nat) (protoString : List UInt8)
  | ok (entries : Entries)
  | save (entries : Entries)
  | cancel
  | request (request : Request)

variable (gUtf8Strup : List UInt8 → List UInt8)

def step (stack : Stack) : Action → Dialog → Option Dialog
  | .activate, s => onPreferences1Activate gdkColorParse stack s
  | .control control, s => some { s with pref := control.changed s.pref }
  | .colorAdd, s => some (onColorAddButtonClicked s)
  | .colorChange cursor, s => some (onColorChangeButtonClicked cursor s)
  | .colorRemove cursor, s => onColorRemoveButtonClicked gdkColorParse stack cursor s
  | .colordiagOk cursor gdkColor, s => onColordiagOkClicked gdkColorParse stack cursor gdkColor s
  | .protocolEditOk cursor protoString, s =>
      onProtocolEditOkClicked gdkColorParse gUtf8Strup stack cursor protoString s
  | .ok entries, s => onOkPrefButtonClicked gdkColorParse stack entries s
  | .save entries, s => (onSavePrefButtonClicked gdkColorParse stack entries s).map Prod.fst
  | .cancel, s => onCancelPrefButtonClicked gdkColorParse stack s
  | .request request, s => (Colors.step request s.protoColors).map fun protoColors => { s with protoColors }

def machine (start : Dialog) : Machine Dialog (Stack × Action) where
  start := start
  step s event := step gdkColorParse gUtf8Strup event.1 event.2 s

end

end EtherApe.PrefDialog
