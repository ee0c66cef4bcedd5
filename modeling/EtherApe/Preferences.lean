import EtherApe.Datastructs
import EtherApe.Lib.KeyFile

/-!
# Preferences

The model of `preferences.c` as far as it sets, saves and loads the preferences. Saving stores fields
under the keys of one group and writes the group to a file; loading sets the defaults and reads a file
over them. The key files are those of any library that returns what was stored.
-/

namespace EtherApe

open Printf

inductive ConfigKind
  | string
  | boolean
  | integer
  | double
  deriving DecidableEq

abbrev ConfigKind.Value : ConfigKind → Type
  | .string => List UInt8
  | .boolean => Bool
  | .integer => Int32
  | .double => Float

abbrev GKeyFiles := KeyFiles ConfigKind ConfigKind.Value

/-- `pref_struct`. A string may be `NULL`, and an enumeration holds any integer that was read into it. -/
structure PrefStruct where
  nameRes : Bool
  diagramOnly : Bool
  groupUnk : Bool
  stationary : Bool
  nodeRadiusMultiplier : Float
  linkNodeRatio : Float
  sizeMode : UInt32
  nodeSizeVariable : UInt32
  filter : Option (List UInt8)
  textColor : Option (List UInt8)
  fontname : Option (List UInt8)
  centerNode : Option (List UInt8)
  stackLevel : UInt32
  protoTimeoutTime : Float
  guiNodeTimeoutTime : Float
  nodeTimeoutTime : Float
  protoNodeTimeoutTime : Float
  colors : List (List UInt8)
  guiLinkTimeoutTime : Float
  linkTimeoutTime : Float
  protoLinkTimeoutTime : Float
  refreshPeriod : UInt32
  averagingTime : Float

def linear : UInt32 := 0

def instOutbound : UInt32 := 2

/-- What `set_default_config` leaves, which sets every field. -/
def setDefaultConfig : PrefStruct where
  diagramOnly := false
  groupUnk := true
  stationary := false
  nameRes := true
  nodeTimeoutTime := 120000.0
  guiNodeTimeoutTime := 60000.0
  protoNodeTimeoutTime := 60000.0
  linkTimeoutTime := 20000.0
  guiLinkTimeoutTime := 20000.0
  protoLinkTimeoutTime := 20000.0
  protoTimeoutTime := 600000.0
  averagingTime := 2000.0
  nodeRadiusMultiplier := 0.0005
  linkNodeRatio := 1.0
  refreshPeriod := 100
  sizeMode := linear
  nodeSizeVariable := instOutbound
  stackLevel := 0
  filter := some (lit "ip or ip6")
  fontname := some (lit "Sans 8")
  textColor := some (lit "#ffff00")
  colors := protohashCompact (gStrsplit (lit ("#ff0000;WWW,HTTP #0000ff;DOMAIN #00ff00 #ffff00 " ++
    "#ff00ff #00ffff #ffffff #ff7700 #ff0077 #ffaa77 #7777ff #aaaa33")) 32)
  centerNode := some []

/-- The contents of the files that hold preferences. -/
structure ConfigFiles (Data : Type) where
  config : Option Data
  oldConfig : Option Data

def prefGroup : String := "Diagram"

section

variable (K : GKeyFiles)

/-! ### Loading -/

def readStringConfig (item : Option (List UInt8)) (gkey : K.KeyFile) (key : String) :
    Option (List UInt8) :=
  (K.get gkey prefGroup key .string).or item

def readBooleanConfig (item : Bool) (gkey : K.KeyFile) (key : String) : Bool :=
  (K.get gkey prefGroup key .boolean).getD item

/-- The unsigned fields are read through pointers to `gint`. -/
def readIntConfig (item : UInt32) (gkey : K.KeyFile) (key : String) : UInt32 :=
  ((K.get gkey prefGroup key .integer).map Int32.toUInt32).getD item

def readDoubleConfig (item : Float) (gkey : K.KeyFile) (key : String) : Float :=
  (K.get gkey prefGroup key .double).getD item

def readConfig (gkey : K.KeyFile) (pref : PrefStruct) : PrefStruct where
  filter := readStringConfig K pref.filter gkey "filter"
  fontname := readStringConfig K pref.fontname gkey "fontname"
  textColor := readStringConfig K pref.textColor gkey "text_color"
  centerNode := readStringConfig K pref.centerNode gkey "center_node"
  diagramOnly := readBooleanConfig K pref.diagramOnly gkey "diagram_only"
  groupUnk := readBooleanConfig K pref.groupUnk gkey "group_unk"
  stationary := readBooleanConfig K pref.stationary gkey "stationary"
  nameRes := readBooleanConfig K pref.nameRes gkey "name_res"
  refreshPeriod := readIntConfig K pref.refreshPeriod gkey "refresh_period"
  sizeMode := readIntConfig K pref.sizeMode gkey "size_mode"
  nodeSizeVariable := readIntConfig K pref.nodeSizeVariable gkey "node_size_variable"
  stackLevel := readIntConfig K pref.stackLevel gkey "stack_level"
  nodeTimeoutTime := readDoubleConfig K pref.nodeTimeoutTime gkey "node_timeout_time"
  guiNodeTimeoutTime := readDoubleConfig K pref.guiNodeTimeoutTime gkey "gui_node_timeout_time"
  protoNodeTimeoutTime :=
    readDoubleConfig K pref.protoNodeTimeoutTime gkey "proto_node_timeout_time"
  linkTimeoutTime := readDoubleConfig K pref.linkTimeoutTime gkey "link_timeout_time"
  guiLinkTimeoutTime := readDoubleConfig K pref.guiLinkTimeoutTime gkey "gui_link_timeout_time"
  protoLinkTimeoutTime :=
    readDoubleConfig K pref.protoLinkTimeoutTime gkey "proto_link_timeout_time"
  protoTimeoutTime := readDoubleConfig K pref.protoTimeoutTime gkey "proto_timeout_time"
  averagingTime := readDoubleConfig K pref.averagingTime gkey "averaging_time"
  nodeRadiusMultiplier :=
    readDoubleConfig K pref.nodeRadiusMultiplier gkey "node_radius_multiplier"
  linkNodeRatio := readDoubleConfig K pref.linkNodeRatio gkey "link_node_ratio"
  colors := ((readStringConfig K none gkey "colors").map fun tmpstr =>
    protohashCompact (gStrsplit tmpstr 32)).getD pref.colors

def loadFromFile (file : Option K.Data) : Option K.KeyFile := file.bind K.loadFromData

/-- The old file is tried when there is no new one. -/
def loadConfig (files : ConfigFiles K.Data) : PrefStruct :=
  match (loadFromFile K files.config).or (loadFromFile K files.oldConfig) with
  | none => setDefaultConfig
  | some gkey => readConfig K gkey setDefaultConfig

/-! ### Saving -/

/-- The library refuses a string that is `NULL`. -/
def setString (gkey : K.KeyFile) (key : String) (string : Option (List UInt8)) : K.KeyFile :=
  K.setSome gkey prefGroup key .string string

def setBoolean (gkey : K.KeyFile) (key : String) (value : Bool) : K.KeyFile :=
  K.set gkey prefGroup key .boolean value

def setInteger (gkey : K.KeyFile) (key : String) (value : UInt32) : K.KeyFile :=
  K.set gkey prefGroup key .integer value.toInt32

def setDouble (gkey : K.KeyFile) (key : String) (value : Float) : K.KeyFile :=
  K.set gkey prefGroup key .double value

/-- The key file that `save_config` builds. -/
def savedConfig (version : List UInt8) (pref : PrefStruct) : K.KeyFile :=
  let gkey := K.new
  let gkey := setBoolean K gkey "diagram_only" pref.diagramOnly
  let gkey := setBoolean K gkey "group_unk" pref.groupUnk
  let gkey := setBoolean K gkey "name_res" pref.nameRes
  let gkey := setDouble K gkey "node_timeout_time" pref.nodeTimeoutTime
  let gkey := setDouble K gkey "gui_node_timeout_time" pref.guiNodeTimeoutTime
  let gkey := setDouble K gkey "proto_node_timeout_time" pref.protoNodeTimeoutTime
  let gkey := setDouble K gkey "link_timeout_time" pref.linkTimeoutTime
  let gkey := setDouble K gkey "gui_link_timeout_time" pref.guiLinkTimeoutTime
  let gkey := setDouble K gkey "proto_link_timeout_time" pref.protoLinkTimeoutTime
  let gkey := setDouble K gkey "proto_timeout_time" pref.protoTimeoutTime
  let gkey := setDouble K gkey "averaging_time" pref.averagingTime
  let gkey := setDouble K gkey "node_radius_multiplier" pref.nodeRadiusMultiplier
  let gkey := setDouble K gkey "link_node_ratio" pref.linkNodeRatio
  let gkey := setInteger K gkey "refresh_period" pref.refreshPeriod
  let gkey := setInteger K gkey "size_mode" pref.sizeMode
  let gkey := setInteger K gkey "node_size_variable" pref.nodeSizeVariable
  let gkey := setInteger K gkey "stack_level" pref.stackLevel
  let gkey := setString K gkey "filter" pref.filter
  let gkey := setString K gkey "fontname" pref.fontname
  let gkey := setString K gkey "text_color" pref.textColor
  let gkey := setString K gkey "center_node" pref.centerNode
  let gkey := setString K gkey "colors" (some (gStrjoinv (lit " ") pref.colors))
  K.set gkey "General" "version" .string version

/-- `res` tells whether the file could be written. -/
def saveConfig (version : List UInt8) (res : Bool) (pref : PrefStruct)
    (files : ConfigFiles K.Data) : ConfigFiles K.Data :=
  if res then { files with config := some (K.toData (savedConfig K version pref)) } else files

/-! ### Saving and loading again -/

@[simp]
theorem get_setString (gkey : K.KeyFile) (key : String) (string : Option (List UInt8)) :
    K.get (setString K gkey key string) prefGroup key .string =
      string.or (K.get gkey prefGroup key .string) :=
  K.get_setSome gkey prefGroup key .string string

@[simp]
theorem get_setBoolean (gkey : K.KeyFile) (key : String) (value : Bool) :
    K.get (setBoolean K gkey key value) prefGroup key .boolean = some value :=
  K.get_set gkey prefGroup key .boolean value

@[simp]
theorem get_setInteger (gkey : K.KeyFile) (key : String) (value : UInt32) :
    K.get (setInteger K gkey key value) prefGroup key .integer = some value.toInt32 :=
  K.get_set gkey prefGroup key .integer value.toInt32

@[simp]
theorem get_setDouble (gkey : K.KeyFile) (key : String) (value : Float) :
    K.get (setDouble K gkey key value) prefGroup key .double = some value :=
  K.get_set gkey prefGroup key .double value

section

variable (gkey : K.KeyFile) {key key' : String} (kind : ConfigKind) (hne : key ≠ key')

include hne

theorem get_setString_of_ne (string : Option (List UInt8)) :
    K.get (setString K gkey key string) prefGroup key' kind = K.get gkey prefGroup key' kind :=
  K.get_setSome_of_ne gkey .string string kind (by simp [hne])

theorem get_setBoolean_of_ne (value : Bool) :
    K.get (setBoolean K gkey key value) prefGroup key' kind = K.get gkey prefGroup key' kind :=
  K.get_set_of_ne gkey .boolean value kind (by simp [hne])

theorem get_setInteger_of_ne (value : UInt32) :
    K.get (setInteger K gkey key value) prefGroup key' kind = K.get gkey prefGroup key' kind :=
  K.get_set_of_ne gkey .integer value.toInt32 kind (by simp [hne])

theorem get_setDouble_of_ne (value : Float) :
    K.get (setDouble K gkey key value) prefGroup key' kind = K.get gkey prefGroup key' kind :=
  K.get_set_of_ne gkey .double value kind (by simp [hne])

end

theorem get_setVersion (gkey : K.KeyFile) (key : String) (kind : ConfigKind)
    (version : List UInt8) :
    K.get (K.set gkey "General" "version" .string version) prefGroup key kind =
      K.get gkey prefGroup key kind :=
  K.get_set_of_ne gkey .string version kind (by simp [prefGroup])

/-- What is read from the saved key file. Nothing is stored of `stationary`. -/
theorem readConfig_savedConfig (version : List UInt8) (pref start : PrefStruct) :
    readConfig K (savedConfig K version pref) start =
      { pref with
        stationary := start.stationary
        filter := pref.filter.or start.filter
        fontname := pref.fontname.or start.fontname
        textColor := pref.textColor.or start.textColor
        centerNode := pref.centerNode.or start.centerNode
        colors := protohashCompact (gStrsplit (gStrjoinv (lit " ") pref.colors) 32) } := by
  simp (disch := decide) [readConfig, savedConfig, readStringConfig, readBooleanConfig,
    readIntConfig, readDoubleConfig, get_setVersion, get_setString_of_ne, get_setBoolean_of_ne,
    get_setInteger_of_ne, get_setDouble_of_ne, K.get_new]

theorem readConfig_congr {gkey gkey' : K.KeyFile}
    (h : ∀ group key kind, K.get gkey' group key kind = K.get gkey group key kind)
    (start : PrefStruct) : readConfig K gkey' start = readConfig K gkey start := by
  simp only [readConfig, readStringConfig, readBooleanConfig, readIntConfig, readDoubleConfig, h]

theorem loadConfig_saveConfig (version : List UInt8) (pref : PrefStruct)
    (files : ConfigFiles K.Data) :
    loadConfig K (saveConfig K version true pref files) =
      readConfig K (savedConfig K version pref) setDefaultConfig := by
  obtain ⟨gkey, hload, hget⟩ := K.load_toData (savedConfig K version pref)
  have hfile : loadFromFile K (saveConfig K version true pref files).config = some gkey := hload
  rw [loadConfig, hfile, Option.some_or]
  exact readConfig_congr K hget setDefaultConfig

theorem or_some_eq_iff {α : Type*} {item : Option α} {a : α} :
    item.or (some a) = item ↔ item ≠ none := by
  cases item with
  | none => simp
  | some item => simp

/-- Preferences are the same when they are loaded again exactly when `stationary` is not set and no string is
`NULL`. -/
theorem loadConfig_saveConfig_iff (version : List UInt8) (pref : PrefStruct)
    (files : ConfigFiles K.Data) (entries : List (List UInt8))
    (hcolors : pref.colors = protohashCompact entries) :
    loadConfig K (saveConfig K version true pref files) = pref ↔
      pref.stationary = false ∧ pref.filter ≠ none ∧ pref.fontname ≠ none ∧
        pref.textColor ≠ none ∧ pref.centerNode ≠ none := by
  have hkept : protohashCompact (gStrsplit (gStrjoinv (lit " ") pref.colors) 32) = pref.colors := by
    rw [hcolors, gStrsplit_gStrjoinv, protohashCompact_idempotent]
  rw [loadConfig_saveConfig, readConfig_savedConfig, hkept, ← or_some_eq_iff (a := lit "ip or ip6"),
    ← or_some_eq_iff (a := lit "Sans 8"), ← or_some_eq_iff (a := lit "#ffff00"),
    ← or_some_eq_iff (a := [])]
  constructor
  · intro h
    exact ⟨(congrArg PrefStruct.stationary h).symm, congrArg PrefStruct.filter h,
      congrArg PrefStruct.fontname h, congrArg PrefStruct.textColor h,
      congrArg PrefStruct.centerNode h⟩
  · rintro ⟨hstationary, hfilter, hfontname, htextColor, hcenterNode⟩
    obtain ⟨⟩ := pref
    simp_all [setDefaultConfig]

end

/-- Preferences of which every kind of field has another value than its default. -/
def changedConfig : PrefStruct :=
  { setDefaultConfig with
    nameRes := false
    averagingTime := 3000.0
    refreshPeriod := 250
    filter := some (lit "tcp port 80")
    centerNode := some (lit "10.0.0.1")
    colors := protohashCompact [lit "#ff0000;WWW", lit "#00ff00;SSH", lit "#ff0000;HTTP"] }

theorem loadConfig_saveConfig_changed : changedConfig ≠ setDefaultConfig ∧
    changedConfig.colors = [lit "#ff0000;WWW,HTTP", lit "#00ff00;SSH"] ∧
    loadConfig KeyFiles.table (saveConfig KeyFiles.table (lit "0.9.13") true changedConfig ⟨none, none⟩) =
      changedConfig := by
  refine ⟨fun h => ?_, by decide +kernel, ?_⟩
  · exact Bool.noConfusion (congrArg PrefStruct.nameRes h)
  · apply (loadConfig_saveConfig_iff KeyFiles.table (lit "0.9.13") changedConfig ⟨none, none⟩ _ rfl).mpr
    exact ⟨rfl, Option.some_ne_none _, Option.some_ne_none _, Option.some_ne_none _, Option.some_ne_none _⟩

/-- The defaults with the nodes kept in place come back without that choice. -/
theorem loadConfig_saveConfig_stationary :
    let pref := { setDefaultConfig with stationary := true }
    (∃ entries, (∀ entry ∈ entries, ∀ b ∈ entry, gAsciiIsspace b = false) ∧
      pref.colors = protohashCompact entries) ∧
      loadConfig KeyFiles.table (saveConfig KeyFiles.table (lit "0.9.13") true pref
        ⟨none, none⟩) ≠ pref := by
  refine ⟨⟨_, ?_, rfl⟩, fun h => ?_⟩
  · decide +kernel
  · exact Bool.noConfusion (congrArg PrefStruct.stationary h)

end EtherApe
