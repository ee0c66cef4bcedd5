import EtherApe.BasicStats
import EtherApe.Util

/-!
# The XML dump

The model of `export.c` and of the `*_xml` functions it calls: the catalog of nodes, with the names and
protocols of each, is written as one string. The records hold what the dump reads, and names are strings
of any bytes.
-/

namespace EtherApe.Export

open Printf

/-- `name_t`. -/
structure Name where
  nodeId : NodeId
  numericName : CString
  resName : Option CString
  accumulated : Int

/-- `protocol_t`. -/
structure Protocol where
  name : CString
  stats : BasicStats
  nodeNames : List Name

/-- `traffic_stats_t`, with the length of its packet queue. -/
structure TrafficStats where
  pktListLength : Nat
  stats : BasicStats
  statsIn : BasicStats
  statsOut : BasicStats
  statsProtos : Level → List Protocol

/-- `node_t`. -/
structure Node where
  nodeId : NodeId
  name : CString
  numericName : CString
  nodeStats : TrafficStats

abbrev NodesCatalog := SortedTree nodeIdCompare Node

/-- `struct tm`. -/
structure Tm where
  tmYear : Int
  tmMon : Nat
  tmMday : Nat
  tmHour : Nat
  tmMin : Nat
  tmSec : Nat
  tmGmtoff : Int

/-- The parts of `appdata` that the dump reads, and the local time of the dump. -/
structure Appdata where
  inputFile : Option CString
  interface : Option CString
  now : Timeval
  tmnow : Tm

/-! ### Statistics -/

def basicStatsXml (now : Timeval) (tfStat : BasicStats) : List UInt8 :=
  let diffms := substractTimesMs now tfStat.lastTime
  xmltag (lit "stats")
    (lit "\n<avg>" ++ fixed 0 tfStat.average ++ lit "</avg>\n" ++
      lit "<total>" ++ fixed 0 tfStat.accumulated ++ lit "</total>\n" ++
      lit "<avg_size>" ++ fixed 0 tfStat.avgSize ++ lit "</avg_size>\n" ++
      lit "<packets>" ++ decimal tfStat.accuPackets ++ lit "</packets>\n" ++
      lit "<last_heard>" ++ fixed 6 (diffms / 1000) ++ lit "</last_heard>\n")

/-- What stands in the tag of an id. -/
def nodeIdMsg (id : NodeId) : List UInt8 :=
  match id.nodeType with
  | .apemodeDefault => lit " "
  | .link6 => xmltag (lit "link") (etherToStr id.addr.eth)
  | .ip => xmltag (typeToStr id.addr.ip) (addressToStr id.addr.ip)
  | .tcp =>
      xmltag (typeToStr id.addr.tcp4Host) (addressToStr id.addr.tcp4Host) ++ lit " " ++
        xmltag (lit "port") (decimal id.addr.tcp4Port)

def nodeIdXml (id : NodeId) : List UInt8 := xmltag (lit "id") (lit "\n" ++ nodeIdMsg id)

def nodeNameXml (name : Name) : List UInt8 :=
  let nres :=
    match name.resName with
    | some res => xmltag (lit "resolved_name") res.bytes
    | none => []
  xmltag (lit "name")
    (lit "\n" ++ nodeIdXml name.nodeId ++ nres ++
      lit "<numeric_name>" ++ name.numericName.bytes ++ lit "</numeric_name>\n" ++
      lit "<accumulated>" ++ fixed 0 name.accumulated ++ lit "</accumulated>")

/-- The names of a protocol are joined by commas. -/
def protocolTXml (now : Timeval) (level : Level) (prot : Protocol) : List UInt8 :=
  xmltag (lit "protocol")
    (lit "\n<level>" ++ decimal level ++ lit "</level>\n<key>" ++ prot.name.bytes ++
      lit "</key>\n" ++ basicStatsXml now prot.stats ++
        separated (lit ",") (prot.nodeNames.map nodeNameXml))

/-- The levels from `1` on. -/
def dumpedLevels : List Level := (List.finRange (stackSize + 1)).tail

def protocolStackXml (now : Timeval) (pstk : Level → List Protocol) : List UInt8 :=
  xmltag (lit "protocols")
    (dumpedLevels.flatMap fun i => (pstk i).flatMap (protocolTXml now i))

def trafficStatsXml (now : Timeval) (pktStat : TrafficStats) : List UInt8 :=
  xmltag (lit "traffic_stats")
    (lit "\n<active_packets>" ++ decimal pktStat.pktListLength ++ lit "</active_packets>\n" ++
      lit "<in>\n" ++ basicStatsXml now pktStat.statsIn ++ lit "</in>\n" ++
      lit "<out>\n" ++ basicStatsXml now pktStat.statsOut ++ lit "</out>\n" ++
      lit "<tot>\n" ++ basicStatsXml now pktStat.stats ++ lit "</tot>\n" ++
      protocolStackXml now pktStat.statsProtos)

/-! ### Nodes -/

def nodeXml (now : Timeval) (node : Node) : List UInt8 :=
  let msgId := nodeIdXml node.nodeId
  let msgResolved := xmltag (lit "resolved_name") node.name.bytes
  let msgNumeric := xmltag (lit "numeric_name") node.numericName.bytes
  xmltag (lit "node")
    (lit "\n<name>\n" ++ msgId ++ msgResolved ++ msgNumeric ++ lit "</name>\n" ++
      trafficStatsXml now node.nodeStats)

def nodesCatalogXml (now : Timeval) (allNodes : NodesCatalog) : List UInt8 :=
  xmltag (lit "nodes") (lit "\n" ++ allNodes.entries.flatMap fun entry => nodeXml now entry.2)

/-! ### The dump -/

/-- `strftime` with the format `%F %T %z`. -/
def timebuf (tm : Tm) : List UInt8 :=
  let two (n : Nat) := padded 2 (decimal n)
  let minutes := tm.tmGmtoff.natAbs / 60
  signed (tm.tmYear + 1900) ++ lit "-" ++ two (tm.tmMon + 1) ++ lit "-" ++ two tm.tmMday ++
    lit " " ++ two tm.tmHour ++ lit ":" ++ two tm.tmMin ++ lit ":" ++ two tm.tmSec ++ lit " " ++
    (if tm.tmGmtoff < 0 then lit "-" else lit "+") ++ two (minutes / 60) ++ two (minutes % 60)

/-- The tag and the string that name what is captured from. -/
def captureName (appdata : Appdata) : Option (List UInt8 × CString) :=
  match appdata.inputFile, appdata.interface with
  | some inputFile, _ => some (lit "capture_file", inputFile)
  | none, some interface => some (lit "capture_device", interface)
  | none, none => none

/-- The name of the capture is passed as the format of its tag. -/
def captureXml (appdata : Appdata) : Option (List UInt8) :=
  match captureName appdata with
  | some (tagName, capture) => (unformatted capture.bytes).map (xmltag tagName)
  | none => some []

def headerXml (appdata : Appdata) : Option (List UInt8) := do
  let dvc ← captureXml appdata
  return xmltag (lit "header")
    (lit "\n" ++ dvc ++ lit "<timestamp>" ++ timebuf appdata.tmnow ++ lit "</timestamp>\n")

def generateXml (appdata : Appdata) (allNodes : NodesCatalog) : Option (List UInt8) := do
  let xmlh ← headerXml appdata
  let xmln := nodesCatalogXml appdata.now allNodes
  return lit "<?xml version=\"1.0\"?>\n" ++
    lit "<!-- traffic data in bytes. last_heard in seconds from dump time -->\n" ++
    lit "<etherape>\n" ++ xmlh ++ xmln ++ lit "</etherape>"

end EtherApe.Export
