import EtherApe.Export
import EtherApe.Lib.Xml.Printed

/-!
# Reading a dump back

The document that a dump is meant to be, as tags and the strings between them. What is printed is this
document written without escaping, so a reader gets the strings back only as long as none of them holds
markup, and the name of the capture only as long as it is no format.
-/

namespace EtherApe.Export

open Printf Xml

/-! ### The document -/

def tagLine (name : List UInt8) (body : List (Xml.Event UInt8)) : List (Xml.Event UInt8) :=
  tag name body ++ str (lit "\n")

def basicStatsDoc (now : Timeval) (tfStat : BasicStats) : List (Xml.Event UInt8) :=
  tagLine (lit "stats")
    (str (lit "\n") ++ (tagLine (lit "avg") (str (fixed 0 tfStat.average)) ++
      (tagLine (lit "total") (str (fixed 0 tfStat.accumulated)) ++
        (tagLine (lit "avg_size") (str (fixed 0 tfStat.avgSize)) ++
          (tagLine (lit "packets") (str (decimal tfStat.accuPackets)) ++
            tagLine (lit "last_heard")
              (str (fixed 6 (substractTimesMs now tfStat.lastTime / 1000))))))))

def nodeIdMsgDoc (id : NodeId) : List (Xml.Event UInt8) :=
  match id.nodeType with
  | .apemodeDefault => str (lit " ")
  | .link6 => tagLine (lit "link") (str (etherToStr id.addr.eth))
  | .ip => tagLine (typeToStr id.addr.ip) (str (addressToStr id.addr.ip))
  | .tcp =>
      tagLine (typeToStr id.addr.tcp4Host) (str (addressToStr id.addr.tcp4Host)) ++
        (str (lit " ") ++ tagLine (lit "port") (str (decimal id.addr.tcp4Port)))

def nodeIdDoc (id : NodeId) : List (Xml.Event UInt8) :=
  tagLine (lit "id") (str (lit "\n") ++ nodeIdMsgDoc id)

def resNameDoc (resName : Option CString) : List (Xml.Event UInt8) :=
  resName.toList.flatMap fun res => tagLine (lit "resolved_name") (str res.bytes)

def nodeNameDoc (name : Name) : List (Xml.Event UInt8) :=
  tagLine (lit "name")
    (str (lit "\n") ++ (nodeIdDoc name.nodeId ++ (resNameDoc name.resName ++
      (tagLine (lit "numeric_name") (str name.numericName.bytes) ++
        tag (lit "accumulated") (str (fixed 0 name.accumulated))))))

def nodeNamesDoc : List Name → List (Xml.Event UInt8)
  | [] => []
  | name :: names => nodeNameDoc name ++ names.flatMap fun n => str (lit ",") ++ nodeNameDoc n

def protocolDoc (now : Timeval) (level : Level) (prot : Protocol) : List (Xml.Event UInt8) :=
  tagLine (lit "protocol")
    (str (lit "\n") ++ (tagLine (lit "level") (str (decimal level)) ++
      (tagLine (lit "key") (str prot.name.bytes) ++
        (basicStatsDoc now prot.stats ++ nodeNamesDoc prot.nodeNames))))

def protocolStackDoc (now : Timeval) (pstk : Level → List Protocol) : List (Xml.Event UInt8) :=
  tagLine (lit "protocols")
    (dumpedLevels.flatMap fun i => (pstk i).flatMap (protocolDoc now i))

def trafficStatsDoc (now : Timeval) (pktStat : TrafficStats) : List (Xml.Event UInt8) :=
  tagLine (lit "traffic_stats")
    (str (lit "\n") ++ (tagLine (lit "active_packets") (str (decimal pktStat.pktListLength)) ++
      (tagLine (lit "in") (str (lit "\n") ++ basicStatsDoc now pktStat.statsIn) ++
        (tagLine (lit "out") (str (lit "\n") ++ basicStatsDoc now pktStat.statsOut) ++
          (tagLine (lit "tot") (str (lit "\n") ++ basicStatsDoc now pktStat.stats) ++
            protocolStackDoc now pktStat.statsProtos)))))

def nodeDoc (now : Timeval) (node : Node) : List (Xml.Event UInt8) :=
  tagLine (lit "node")
    (str (lit "\n") ++ (tagLine (lit "name")
      (str (lit "\n") ++ (nodeIdDoc node.nodeId ++
        (tagLine (lit "resolved_name") (str node.name.bytes) ++
          tagLine (lit "numeric_name") (str node.numericName.bytes)))) ++
      trafficStatsDoc now node.nodeStats))

def nodesCatalogDoc (now : Timeval) (allNodes : NodesCatalog) : List (Xml.Event UInt8) :=
  tagLine (lit "nodes")
    (str (lit "\n") ++ allNodes.entries.flatMap fun entry => nodeDoc now entry.2)

def captureDoc (appdata : Appdata) : List (Xml.Event UInt8) :=
  (captureName appdata).toList.flatMap fun c => tagLine c.1 (str c.2.bytes)

def headerDoc (appdata : Appdata) : List (Xml.Event UInt8) :=
  tagLine (lit "header")
    (str (lit "\n") ++ (captureDoc appdata ++
      tagLine (lit "timestamp") (str (timebuf appdata.tmnow))))

def dumpDoc (appdata : Appdata) (allNodes : NodesCatalog) : List (Xml.Event UInt8) :=
  tag (lit "etherape")
    (str (lit "\n") ++ (headerDoc appdata ++ nodesCatalogDoc appdata.now allNodes))

/-- The dump is well-formed XML, and what is read from it is the document it is meant to be. -/
def RoundTrips (appdata : Appdata) (allNodes : NodesCatalog) : Prop :=
  ∃ xml, generateXml appdata allNodes = some xml ∧ ReadsBytes xml (dumpDoc appdata allNodes)

/-! ### The dump is the document, written as it is -/

@[simp] theorem write_tagLine (name : List UInt8) (body : List (Xml.Event UInt8)) :
    write (tagLine name body) = xmltag name (write body) := by
  have hend : lit ">\n" = [62] ++ lit "\n" := rfl
  have hopen : lit "<" = [60] := rfl
  have hclose : lit ">" = [62] := rfl
  have hslash : lit "</" = [60, 47] := rfl
  simp [tagLine, write_tag, xmltag, hend, hopen, hclose, hslash]

theorem write_basicStatsDoc (now : Timeval) (tfStat : BasicStats) :
    write (basicStatsDoc now tfStat) = basicStatsXml now tfStat := by
  simp only [basicStatsDoc, write_tagLine, write_append, write_str, basicStatsXml, xmltag,
    List.append_assoc]
  rfl

theorem write_nodeIdMsgDoc (id : NodeId) : write (nodeIdMsgDoc id) = nodeIdMsg id := by
  unfold nodeIdMsgDoc nodeIdMsg
  cases id.nodeType with
  | apemodeDefault => exact write_str _
  | link6 => rw [write_tagLine, write_str]
  | ip => rw [write_tagLine, write_str]
  | tcp =>
      dsimp only
      simp only [write_append, write_tagLine, write_str, List.append_assoc]

theorem write_nodeIdDoc (id : NodeId) : write (nodeIdDoc id) = nodeIdXml id := by
  simp only [nodeIdDoc, write_tagLine, write_append, write_str, write_nodeIdMsgDoc, nodeIdXml]

theorem write_resNameDoc (resName : Option CString) :
    write (resNameDoc resName) =
      resName.elim [] fun res => xmltag (lit "resolved_name") res.bytes := by
  cases resName with
  | none => rfl
  | some res => simp [resNameDoc]

theorem write_nodeNameDoc (name : Name) : write (nodeNameDoc name) = nodeNameXml name := by
  simp only [nodeNameDoc, write_tagLine, write_append, write_str, write_nodeIdDoc,
    write_resNameDoc, write_tag, nodeNameXml]
  generalize nodeIdXml name.nodeId = nid
  simp only [xmltag, List.append_assoc]
  cases name.resName <;> rfl

theorem write_nodeNamesDoc (names : List Name) :
    write (nodeNamesDoc names) = separated (lit ",") (names.map nodeNameXml) := by
  cases names with
  | nil => rfl
  | cons name names =>
      simp only [nodeNamesDoc, write_append, write_flatMap, write_str, write_nodeNameDoc,
        List.map_cons, separated, List.flatMap_map]

theorem write_protocolDoc (now : Timeval) (level : Level) (prot : Protocol) :
    write (protocolDoc now level prot) = protocolTXml now level prot := by
  simp only [protocolDoc, write_tagLine, write_append, write_str, write_basicStatsDoc,
    write_nodeNamesDoc, protocolTXml]
  generalize basicStatsXml now prot.stats = msgStats
  simp only [xmltag, List.append_assoc]
  rfl

theorem write_protocolStackDoc (now : Timeval) (pstk : Level → List Protocol) :
    write (protocolStackDoc now pstk) = protocolStackXml now pstk := by
  simp only [protocolStackDoc, write_tagLine, write_flatMap, write_protocolDoc, protocolStackXml]

theorem write_trafficStatsDoc (now : Timeval) (pktStat : TrafficStats) :
    write (trafficStatsDoc now pktStat) = trafficStatsXml now pktStat := by
  simp only [trafficStatsDoc, write_tagLine, write_append, write_str, write_basicStatsDoc,
    write_protocolStackDoc, trafficStatsXml]
  generalize basicStatsXml now pktStat.statsIn = msgIn
  generalize basicStatsXml now pktStat.statsOut = msgOut
  generalize basicStatsXml now pktStat.stats = msgTot
  generalize protocolStackXml now pktStat.statsProtos = msgProto
  simp only [xmltag, List.append_assoc]
  rfl

theorem write_nodeDoc (now : Timeval) (node : Node) : write (nodeDoc now node) = nodeXml now node := by
  simp only [nodeDoc, write_tagLine, write_append, write_str, write_nodeIdDoc, write_trafficStatsDoc,
    nodeXml]
  generalize nodeIdXml node.nodeId = msgId
  generalize trafficStatsXml now node.nodeStats = msgStats
  simp only [xmltag, List.append_assoc]
  rfl

theorem write_nodesCatalogDoc (now : Timeval) (allNodes : NodesCatalog) :
    write (nodesCatalogDoc now allNodes) = nodesCatalogXml now allNodes := by
  simp only [nodesCatalogDoc, write_tagLine, write_append, write_str, write_flatMap, write_nodeDoc,
    nodesCatalogXml]

/-! ### What can be read back -/

theorem safe_of_isHexDigit {b : UInt8} (h : IsHexDigit b) : Safe b := by
  have hne : ∀ c : UInt8, c.toNat = 60 ∨ c.toNat = 38 ∨ c.toNat = 93 → b ≠ c := by
    rintro c hc rfl
    unfold IsHexDigit at h
    omega
  refine Or.inr ⟨?_, ?_, hne 60 (by decide), hne 38 (by decide), hne 93 (by decide)⟩
  · unfold IsHexDigit at h
    omega
  · unfold IsHexDigit at h
    omega

theorem safe_decimal (n : Nat) : ∀ b ∈ decimal n, Safe b :=
  fun _ hb => safe_of_isHexDigit (isHexDigit_of_mem_digits (by decide) (by decide) hb)

theorem safe_fixed (places : Nat) (q : ℚ) : ∀ b ∈ fixed places q, Safe b := by
  intro b hb
  rcases mem_fixed hb with h | rfl | rfl
  · exact safe_of_isHexDigit h
  · decide
  · decide

theorem safe_etherToStr (ad : List UInt8) : ∀ b ∈ etherToStr ad, Safe b := by
  intro b hb
  rcases mem_etherToStr hb with h | rfl
  · exact safe_of_isHexDigit h
  · decide

theorem safe_timebuf (tm : Tm) : ∀ b ∈ timebuf tm, Safe b := by
  have htwo : ∀ {n : Nat} {b : UInt8}, b ∈ padded 2 (decimal n) → Safe b := fun hb =>
    safe_of_isHexDigit (isHexDigit_of_mem_padded
      (fun _ hb => isHexDigit_of_mem_digits (by decide) (by decide) hb) hb)
  have hyear : ∀ {i : Int} {b : UInt8}, b ∈ signed i → Safe b := by
    intro i b hb
    rcases mem_signed hb with h | rfl
    · exact safe_of_isHexDigit h
    · decide
  have hdash : ∀ b ∈ lit "-", Safe b := by decide
  have hcolon : ∀ b ∈ lit ":", Safe b := by decide
  have hblank : ∀ b ∈ lit " ", Safe b := by decide
  have hsign : ∀ b ∈ (if tm.tmGmtoff < 0 then lit "-" else lit "+"), Safe b := by
    split <;> decide
  intro b hb
  simp only [timebuf, List.mem_append, or_assoc] at hb
  rcases hb with h | h | h | h | h | h | h | h | h | h | h | h | h | h | h
  all_goals first | exact htwo h | exact hyear h | exact hdash b h | exact hcolon b h
                  | exact hblank b h | exact hsign b h

/-- The families that addresses are written for. -/
def FamilyKnown (ad : Address) : Prop := ad.type = afInet ∨ ad.type = afInet6

instance (ad : Address) : Decidable (FamilyKnown ad) := inferInstanceAs (Decidable (_ ∨ _))

theorem safe_addressToStr {ad : Address} (h : FamilyKnown ad) : ∀ b ∈ addressToStr ad, Safe b := by
  intro b hb
  unfold addressToStr at hb
  split_ifs at hb with hinet hinet6
  · rcases mem_ipv4ToStr hb with h | rfl
    · exact safe_of_isHexDigit h
    · decide
  · rcases mem_ipv6ToStr hb with h | rfl | rfl
    · exact safe_of_isHexDigit h
    · decide
    · decide
  · exact (h.elim hinet hinet6).elim

theorem cleanName_lit {s : String} (h : IsName s.toList) : CleanName (lit s) := ⟨s.toList, rfl, h⟩

theorem cleanName_typeToStr {ad : Address} : CleanName (typeToStr ad) ↔ FamilyKnown ad := by
  unfold typeToStr FamilyKnown
  split_ifs with hinet hinet6
  · exact iff_of_true (cleanName_lit (by decide)) (Or.inl hinet)
  · exact iff_of_true (cleanName_lit (by decide)) (Or.inr hinet6)
  · refine iff_of_false ?_ (by simp [hinet, hinet6])
    rintro ⟨s, hs, hname⟩
    obtain rfl : s = "<invalid address family>".toList := utf8_injective hs
    exact absurd hname (by decide)

theorem clean_tagLine_append {name : List UInt8} {body rest : List (Xml.Event UInt8)} :
    Clean (tagLine name body ++ rest) ↔ CleanName name ∧ Clean body ∧ Clean rest := by
  rw [tagLine, List.append_assoc, clean_tag_append, clean_str_append (by decide)]

theorem clean_tagLine {name : List UInt8} {body : List (Xml.Event UInt8)} :
    Clean (tagLine name body) ↔ CleanName name ∧ Clean body := by
  have h := @clean_tagLine_append name body []
  simpa only [List.append_nil, clean_nil, and_true] using h

theorem closed_tagLine (name : List UInt8) (body : List (Xml.Event UInt8)) : Closed (tagLine name body) :=
  (closed_tag name body).append (closed_str (by decide))

section Lines

variable {s : String} {bytes : List UInt8} {body rest : List (Xml.Event UInt8)}

theorem clean_newline_append : Clean (str (lit "\n") ++ rest) ↔ Clean rest :=
  clean_str_append (by decide)

theorem clean_line (hname : IsName s.toList) : Clean (tagLine (lit s) body) ↔ Clean body :=
  clean_tagLine.trans (and_iff_right (cleanName_lit hname))

theorem clean_line_append (hname : IsName s.toList) :
    Clean (tagLine (lit s) body ++ rest) ↔ Clean body ∧ Clean rest :=
  clean_tagLine_append.trans (and_iff_right (cleanName_lit hname))

theorem clean_number (hname : IsName s.toList) (hbytes : ∀ b ∈ bytes, Safe b) :
    Clean (tagLine (lit s) (str bytes)) :=
  (clean_line hname).mpr (clean_str.mpr (cleanText_of_safe hbytes))

theorem clean_number_append (hname : IsName s.toList) (hbytes : ∀ b ∈ bytes, Safe b) :
    Clean (tagLine (lit s) (str bytes) ++ rest) ↔ Clean rest :=
  (clean_line_append hname).trans
    (and_iff_right (clean_str.mpr (cleanText_of_safe hbytes)))

end Lines

theorem clean_basicStatsDoc (now : Timeval) (tfStat : BasicStats) :
    Clean (basicStatsDoc now tfStat) := by
  rw [basicStatsDoc, clean_line (by decide), clean_newline_append,
    clean_number_append (by decide) (safe_fixed _ _),
    clean_number_append (by decide) (safe_fixed _ _),
    clean_number_append (by decide) (safe_fixed _ _),
    clean_number_append (by decide) (safe_decimal _)]
  exact clean_number (by decide) (safe_fixed _ _)

/-! ### Clean catalogs -/

/-- An id without an address, or with one of a family that is written. -/
def IdKnown (id : NodeId) : Prop :=
  match id.nodeType with
  | .apemodeDefault => True
  | .link6 => True
  | .ip => FamilyKnown id.addr.ip
  | .tcp => FamilyKnown id.addr.tcp4Host

structure Name.Clean (name : Name) : Prop where
  nodeId : IdKnown name.nodeId
  resName : ∀ res ∈ name.resName, CleanText res.bytes
  numericName : CleanText name.numericName.bytes

structure Protocol.Clean (prot : Protocol) : Prop where
  name : CleanText prot.name.bytes
  nodeNames : ∀ name ∈ prot.nodeNames, name.Clean

structure Node.Clean (node : Node) : Prop where
  nodeId : IdKnown node.nodeId
  name : CleanText node.name.bytes
  numericName : CleanText node.numericName.bytes
  statsProtos : ∀ i ∈ dumpedLevels, ∀ prot ∈ node.nodeStats.statsProtos i, prot.Clean

theorem clean_nodeIdMsgDoc {id : NodeId} : Clean (nodeIdMsgDoc id) ↔ IdKnown id := by
  have haddress : ∀ {ad : Address}, CleanName (typeToStr ad) ∧ Clean (str (addressToStr ad)) ↔
      FamilyKnown ad := by
    intro ad
    rw [cleanName_typeToStr, clean_str]
    exact and_iff_left_of_imp fun h => cleanText_of_safe (safe_addressToStr h)
  unfold nodeIdMsgDoc IdKnown
  cases id.nodeType with
  | apemodeDefault => exact iff_true_intro (clean_str.mpr (cleanText_of_safe (by decide)))
  | link6 => exact iff_true_intro (clean_number (by decide) (safe_etherToStr _))
  | ip => exact clean_tagLine.trans haddress
  | tcp =>
      dsimp only
      rw [clean_tagLine_append, clean_str_append (by decide), ← and_assoc, haddress]
      exact and_iff_left (clean_number (by decide) (safe_decimal _))

theorem clean_nodeIdDoc {id : NodeId} : Clean (nodeIdDoc id) ↔ IdKnown id := by
  rw [nodeIdDoc, clean_line (by decide), clean_newline_append, clean_nodeIdMsgDoc]

theorem closed_nodeIdDoc (id : NodeId) : Closed (nodeIdDoc id) := closed_tagLine _ _

theorem closed_resNameDoc (resName : Option CString) : Closed (resNameDoc resName) :=
  closed_flatMap fun _ _ => closed_tagLine _ _

theorem clean_resNameDoc {resName : Option CString} :
    Clean (resNameDoc resName) ↔ ∀ res ∈ resName, CleanText res.bytes := by
  rw [resNameDoc, clean_flatMap fun _ _ => closed_tagLine _ _]
  refine forall_congr' fun res => ?_
  rw [Option.mem_toList, clean_line (by decide), clean_str, Option.mem_def]

theorem clean_nodeNameDoc {name : Name} : Clean (nodeNameDoc name) ↔ name.Clean := by
  have hnumber : Clean (tag (lit "accumulated") (str (fixed 0 name.accumulated))) :=
    clean_tag.mpr ⟨cleanName_lit (by decide), clean_str.mpr (cleanText_of_safe (safe_fixed _ _))⟩
  rw [nodeNameDoc, clean_line (by decide), clean_newline_append, closed_nodeIdDoc, clean_nodeIdDoc,
    closed_resNameDoc, clean_resNameDoc, clean_line_append (by decide), clean_str,
    and_iff_left hnumber]
  exact ⟨fun ⟨hid, hres, hnumeric⟩ => ⟨hid, hres, hnumeric⟩,
    fun h => ⟨h.nodeId, h.resName, h.numericName⟩⟩

theorem closed_nodeNameDoc (name : Name) : Closed (nodeNameDoc name) := closed_tagLine _ _

theorem clean_nodeNamesDoc {names : List Name} :
    Clean (nodeNamesDoc names) ↔ ∀ name ∈ names, name.Clean := by
  have hclosed : ∀ name : Name, Closed (str (lit ",") ++ nodeNameDoc name) := fun name =>
    (closed_str (by decide)).append (closed_nodeNameDoc name)
  cases names with
  | nil => simp [nodeNamesDoc, clean_nil]
  | cons name names =>
      rw [nodeNamesDoc, closed_nodeNameDoc, clean_nodeNameDoc, clean_flatMap fun n _ => hclosed n,
        List.forall_mem_cons]
      refine and_congr_right fun _ => forall₂_congr fun n _ => ?_
      rw [clean_str_append (by decide), clean_nodeNameDoc]

theorem closed_basicStatsDoc (now : Timeval) (tfStat : BasicStats) :
    Closed (basicStatsDoc now tfStat) := closed_tagLine _ _

theorem clean_protocolDoc {now : Timeval} {level : Level} {prot : Protocol} :
    Clean (protocolDoc now level prot) ↔ prot.Clean := by
  rw [protocolDoc, clean_line (by decide), clean_newline_append,
    clean_number_append (by decide) (safe_decimal _), clean_line_append (by decide), clean_str,
    closed_basicStatsDoc, and_iff_right (clean_basicStatsDoc _ _), clean_nodeNamesDoc]
  exact ⟨fun ⟨hname, hnames⟩ => ⟨hname, hnames⟩, fun h => ⟨h.name, h.nodeNames⟩⟩

theorem clean_protocolStackDoc {now : Timeval} {pstk : Level → List Protocol} :
    Clean (protocolStackDoc now pstk) ↔ ∀ i ∈ dumpedLevels, ∀ prot ∈ pstk i, prot.Clean := by
  have hclosed : ∀ (i : Level), ∀ prot ∈ pstk i, Closed (protocolDoc now i prot) :=
    fun _ _ _ => closed_tagLine _ _
  rw [protocolStackDoc, clean_line (by decide),
    clean_flatMap fun i _ => closed_flatMap (hclosed i)]
  refine forall₂_congr fun i _ => ?_
  rw [clean_flatMap (hclosed i)]
  exact forall₂_congr fun _ _ => clean_protocolDoc

theorem clean_statsLine {now : Timeval} {tfStat : BasicStats} {s : String}
    (hname : IsName s.toList) {rest : List (Xml.Event UInt8)} :
    Clean (tagLine (lit s) (str (lit "\n") ++ basicStatsDoc now tfStat) ++ rest) ↔ Clean rest := by
  rw [clean_line_append hname, clean_newline_append, and_iff_right (clean_basicStatsDoc _ _)]

theorem clean_trafficStatsDoc {now : Timeval} {pktStat : TrafficStats} :
    Clean (trafficStatsDoc now pktStat) ↔
      ∀ i ∈ dumpedLevels, ∀ prot ∈ pktStat.statsProtos i, prot.Clean := by
  rw [trafficStatsDoc, clean_line (by decide), clean_newline_append,
    clean_number_append (by decide) (safe_decimal _), clean_statsLine (by decide),
    clean_statsLine (by decide), clean_statsLine (by decide), clean_protocolStackDoc]

theorem clean_nodeDoc {now : Timeval} {node : Node} : Clean (nodeDoc now node) ↔ node.Clean := by
  rw [nodeDoc, clean_line (by decide), clean_newline_append, clean_line_append (by decide),
    clean_newline_append, closed_nodeIdDoc, clean_nodeIdDoc, clean_line_append (by decide), clean_str,
    clean_line (by decide), clean_str, clean_trafficStatsDoc]
  exact ⟨fun ⟨⟨hid, hname, hnumeric⟩, hprotos⟩ => ⟨hid, hname, hnumeric, hprotos⟩,
    fun h => ⟨⟨h.nodeId, h.name, h.numericName⟩, h.statsProtos⟩⟩

theorem clean_nodesCatalogDoc {now : Timeval} {allNodes : NodesCatalog} :
    Clean (nodesCatalogDoc now allNodes) ↔ ∀ entry ∈ allNodes.entries, entry.2.Clean := by
  have hclosed : ∀ entry ∈ allNodes.entries, Closed (nodeDoc now entry.2) :=
    fun _ _ => closed_tagLine _ _
  rw [nodesCatalogDoc, clean_line (by decide), clean_newline_append, clean_flatMap hclosed]
  exact forall₂_congr fun _ _ => clean_nodeDoc

/-! ### The header -/

theorem unformatted_drops {bytes out : List UInt8} (h : unformatted bytes = some out) :
    Drops bytes out := by
  fun_induction unformatted bytes generalizing out with
  | case1 =>
      obtain rfl := Option.some.inj h
      exact .nil
  | case2 rest ih =>
      obtain ⟨out, hout, rfl⟩ := Option.map_eq_some_iff.mp h
      exact .drop (.keep _ (ih hout))
  | case3 => cases h
  | case4 b rest _ _ ih =>
      obtain ⟨out, hout, rfl⟩ := Option.map_eq_some_iff.mp h
      exact .keep _ (ih hout)

theorem not_mem_of_unformatted {bytes : List UInt8} (h : unformatted bytes = some bytes) :
    37 ∉ bytes := by
  have hshort : ∀ {bytes out : List UInt8}, unformatted bytes = some out → 37 ∈ bytes →
      out.length < bytes.length := by
    intro bytes out h
    fun_induction unformatted bytes generalizing out with
    | case1 => simp
    | case2 rest ih =>
        intro _
        obtain ⟨out, hout, rfl⟩ := Option.map_eq_some_iff.mp h
        have hle := (unformatted_drops hout).length_le
        simp only [List.length_cons]
        omega
    | case3 => cases h
    | case4 b rest hnot hnot' ih =>
        intro hmem
        obtain ⟨out, hout, rfl⟩ := Option.map_eq_some_iff.mp h
        rcases List.mem_cons.mp hmem with rfl | hmem
        · exact absurd rfl hnot'
        · simpa using ih hout hmem
  exact fun hmem => absurd (hshort h hmem) (lt_irrefl _)

theorem captureName_cases {appdata : Appdata} {c : List UInt8 × CString}
    (h : captureName appdata = some c) : c.1 = lit "capture_file" ∨ c.1 = lit "capture_device" := by
  unfold captureName at h
  split at h
  · obtain rfl := Option.some.inj h
    exact Or.inl rfl
  · obtain rfl := Option.some.inj h
    exact Or.inr rfl
  · cases h

theorem closed_captureDoc (appdata : Appdata) : Closed (captureDoc appdata) :=
  closed_flatMap fun _ _ => closed_tagLine _ _

theorem clean_captureDoc {appdata : Appdata} :
    Clean (captureDoc appdata) ↔ ∀ c ∈ captureName appdata, CleanText c.2.bytes := by
  rw [captureDoc, clean_flatMap fun _ _ => closed_tagLine _ _]
  refine forall_congr' fun c => ?_
  rw [Option.mem_toList, Option.mem_def]
  refine imp_congr_right fun hc => ?_
  rcases captureName_cases hc with hname | hname
  · rw [hname, clean_line (by decide), clean_str]
  · rw [hname, clean_line (by decide), clean_str]

theorem clean_dumpDoc {appdata : Appdata} {allNodes : NodesCatalog} :
    Clean (dumpDoc appdata allNodes) ↔
      (∀ c ∈ captureName appdata, CleanText c.2.bytes) ∧
        ∀ entry ∈ allNodes.entries, entry.2.Clean := by
  rw [dumpDoc, clean_tag, and_iff_right (cleanName_lit (by decide)), clean_newline_append, headerDoc,
    clean_line_append (by decide), clean_newline_append, closed_captureDoc, clean_captureDoc,
    and_iff_left (clean_number (by decide) (safe_timebuf _)), clean_nodesCatalogDoc]

/-- The tag of the capture can lose a `%` of the name, and is as it should be when there is none. -/
theorem captureXml_drops {appdata : Appdata} {dvc : List UInt8} (h : captureXml appdata = some dvc) :
    Drops (write (captureDoc appdata)) dvc := by
  unfold captureXml at h
  unfold captureDoc
  cases hname : captureName appdata with
  | none =>
      rw [hname] at h
      obtain rfl := Option.some.inj h
      exact .nil
  | some c =>
      rw [hname] at h
      obtain ⟨out, hout, rfl⟩ := Option.map_eq_some_iff.mp h
      simp only [Option.toList_some, List.flatMap_cons, List.flatMap_nil, List.append_nil,
        write_tagLine, write_str, xmltag]
      exact ((((Drops.refl _).append (unformatted_drops hout)).append (.refl _)).append
        (.refl _)).append (.refl _)

theorem captureXml_eq_iff {appdata : Appdata} :
    captureXml appdata = some (write (captureDoc appdata)) ↔
      ∀ c ∈ captureName appdata, 37 ∉ c.2.bytes := by
  unfold captureXml captureDoc
  cases hname : captureName appdata with
  | none => simp
  | some c =>
      simp only [Option.toList_some, List.flatMap_cons, List.flatMap_nil, List.append_nil,
        write_tagLine, write_str, Option.mem_def, Option.some.injEq, forall_eq',
        Option.map_eq_some_iff]
      constructor
      · rintro ⟨out, hout, hxml⟩
        simp only [xmltag, List.append_assoc, List.append_cancel_left_eq] at hxml
        obtain rfl : out = c.2.bytes := List.append_cancel_right hxml
        exact not_mem_of_unformatted hout
      · exact fun hnot => ⟨_, unformatted_of_not_mem hnot, rfl⟩

/-! ### Elements -/

theorem content_tagLine {name : List UInt8} {body : List (Xml.Event UInt8)} (h : Content body) :
    Content (tagLine name body) := (content_tag h).append (content_str _)

theorem content_line (name bytes : List UInt8) : Content (tagLine name (str bytes)) :=
  content_tagLine (content_str _)

theorem content_basicStatsDoc (now : Timeval) (tfStat : BasicStats) :
    Content (basicStatsDoc now tfStat) :=
  content_tagLine ((content_str _).append ((content_line _ _).append ((content_line _ _).append
    ((content_line _ _).append ((content_line _ _).append (content_line _ _))))))

theorem content_nodeIdDoc (id : NodeId) : Content (nodeIdDoc id) := by
  have hmsg : Content (nodeIdMsgDoc id) := by
    unfold nodeIdMsgDoc
    cases id.nodeType with
    | apemodeDefault => exact content_str _
    | link6 => exact content_line _ _
    | ip => exact content_line _ _
    | tcp => exact (content_line _ _).append ((content_str _).append (content_line _ _))
  exact content_tagLine ((content_str _).append hmsg)

theorem content_nodeNameDoc (name : Name) : Content (nodeNameDoc name) :=
  content_tagLine ((content_str _).append ((content_nodeIdDoc _).append
    ((content_flatMap fun _ _ => content_line _ _).append ((content_line _ _).append
      (content_tag (content_str _))))))

theorem content_nodeNamesDoc (names : List Name) : Content (nodeNamesDoc names) := by
  cases names with
  | nil => exact .nil
  | cons name names =>
      exact (content_nodeNameDoc name).append
        (content_flatMap fun n _ => (content_str _).append (content_nodeNameDoc n))

theorem content_protocolDoc (now : Timeval) (level : Level) (prot : Protocol) :
    Content (protocolDoc now level prot) :=
  content_tagLine ((content_str _).append ((content_line _ _).append ((content_line _ _).append
    ((content_basicStatsDoc _ _).append (content_nodeNamesDoc _)))))

theorem content_trafficStatsDoc (now : Timeval) (pktStat : TrafficStats) :
    Content (trafficStatsDoc now pktStat) := by
  have hstats : ∀ (name : List UInt8) (tfStat : BasicStats),
      Content (tagLine name (str (lit "\n") ++ basicStatsDoc now tfStat)) := fun _ _ =>
    content_tagLine ((content_str _).append (content_basicStatsDoc _ _))
  have hprotos : Content (protocolStackDoc now pktStat.statsProtos) :=
    content_tagLine (content_flatMap fun _ _ => content_flatMap fun _ _ => content_protocolDoc _ _ _)
  exact content_tagLine ((content_str _).append ((content_line _ _).append ((hstats _ _).append
    ((hstats _ _).append ((hstats _ _).append hprotos)))))

theorem content_nodeDoc (now : Timeval) (node : Node) : Content (nodeDoc now node) :=
  content_tagLine ((content_str _).append ((content_tagLine ((content_str _).append
    ((content_nodeIdDoc _).append ((content_line _ _).append (content_line _ _))))).append
      (content_trafficStatsDoc _ _)))

theorem isElement_dumpDoc (appdata : Appdata) (allNodes : NodesCatalog) :
    IsElement (dumpDoc appdata allNodes) := by
  have hheader : Content (headerDoc appdata) :=
    content_tagLine ((content_str _).append
      ((content_flatMap fun _ _ => content_line _ _).append (content_line _ _)))
  have hnodes : Content (nodesCatalogDoc appdata.now allNodes) :=
    content_tagLine ((content_str _).append (content_flatMap fun _ _ => content_nodeDoc _ _))
  exact ⟨_, _, _, (content_str _).append (hheader.append hnodes), rfl⟩

/-! ### The round trip -/

/-- The comment in front of the dump. -/
def prologComment : Text := " traffic data in bytes. last_heard in seconds from dump time ".toList

/-- The root element as it is printed, with `dvc` for the tag of the capture. -/
def printedXml (appdata : Appdata) (allNodes : NodesCatalog) (dvc : List UInt8) : List UInt8 :=
  lit "<etherape>\n" ++ xmltag (lit "header")
    (lit "\n" ++ dvc ++ lit "<timestamp>" ++ timebuf appdata.tmnow ++ lit "</timestamp>\n") ++
      nodesCatalogXml appdata.now allNodes ++ lit "</etherape>"

theorem generateXml_eq (appdata : Appdata) (allNodes : NodesCatalog) :
    generateXml appdata allNodes = (captureXml appdata).map fun dvc =>
      utf8 (prologText prologComment) ++ printedXml appdata allNodes dvc := by
  unfold generateXml headerXml
  cases captureXml appdata with
  | none => rfl
  | some dvc =>
      have hprolog : utf8 (prologText prologComment) = lit "<?xml version=\"1.0\"?>\n" ++
          lit "<!-- traffic data in bytes. last_heard in seconds from dump time -->\n" := by decide
      rw [hprolog]
      simp only [printedXml, Option.map_some, Option.bind_eq_bind, Option.bind_some, Option.pure_def,
        List.append_assoc]

theorem write_dumpDoc (appdata : Appdata) (allNodes : NodesCatalog) :
    write (dumpDoc appdata allNodes) =
      printedXml appdata allNodes (write (captureDoc appdata)) := by
  simp only [dumpDoc, write_tag, write_append, write_str, headerDoc, write_tagLine,
    write_nodesCatalogDoc, printedXml]
  generalize nodesCatalogXml appdata.now allNodes = xmln
  generalize write (captureDoc appdata) = dvc
  simp only [xmltag, List.append_assoc, List.cons_append]
  rfl

theorem printedXml_drops {appdata : Appdata} {allNodes : NodesCatalog} {dvc dvc' : List UInt8}
    (h : Drops dvc dvc') :
    Drops (printedXml appdata allNodes dvc) (printedXml appdata allNodes dvc') := by
  have hheader := ((((Drops.refl (lit "\n")).append h).append (.refl (lit "<timestamp>"))).append
    (.refl (timebuf appdata.tmnow))).append (.refl (lit "</timestamp>\n"))
  exact (((Drops.refl _).append ((((Drops.refl _).append hheader).append (.refl _)).append
    (.refl _) |>.append (.refl _))).append (.refl _)).append (.refl _)

theorem printedXml_inj {appdata : Appdata} {allNodes : NodesCatalog} {dvc dvc' : List UInt8} :
    printedXml appdata allNodes dvc = printedXml appdata allNodes dvc' ↔ dvc = dvc' := by
  constructor
  · intro h
    simp only [printedXml, xmltag, List.append_assoc, List.append_cancel_left_eq] at h
    exact List.append_cancel_right h
  · rintro rfl
    rfl

theorem prologComment_valid : (Token.comment prologComment).Valid :=
  ⟨by decide, by decide, by decide⟩

theorem readsBytes_printedXml {appdata : Appdata} {allNodes : NodesCatalog} {dvc : List UInt8}
    (hdvc : captureXml appdata = some dvc) :
    ReadsBytes (utf8 (prologText prologComment) ++ printedXml appdata allNodes dvc)
        (dumpDoc appdata allNodes) ↔
      dvc = write (captureDoc appdata) ∧ Clean (dumpDoc appdata allNodes) := by
  have hdrops : Drops (write (dumpDoc appdata allNodes)) (printedXml appdata allNodes dvc) := by
    rw [write_dumpDoc]
    exact printedXml_drops (captureXml_drops hdvc)
  rw [readsBytes_iff prologComment_valid (by decide) (isElement_dumpDoc _ _) hdrops, write_dumpDoc,
    printedXml_inj]

theorem roundTrips_iff_clean {appdata : Appdata} {allNodes : NodesCatalog} :
    RoundTrips appdata allNodes ↔
      captureXml appdata = some (write (captureDoc appdata)) ∧ Clean (dumpDoc appdata allNodes) := by
  rw [RoundTrips, generateXml_eq]
  constructor
  · rintro ⟨xml, hxml, hreads⟩
    obtain ⟨dvc, hdvc, rfl⟩ := Option.map_eq_some_iff.mp hxml
    obtain ⟨rfl, hclean⟩ := (readsBytes_printedXml hdvc).mp hreads
    exact ⟨hdvc, hclean⟩
  · rintro ⟨hdvc, hclean⟩
    exact ⟨_, by rw [hdvc, Option.map_some], (readsBytes_printedXml hdvc).mpr ⟨rfl, hclean⟩⟩

/-- A dump round-trips just when no string in it holds markup, every address is of a known family,
and the name of the capture has no `%`. -/
theorem roundTrips_iff (appdata : Appdata) (allNodes : NodesCatalog) :
    RoundTrips appdata allNodes ↔
      (∀ c ∈ captureName appdata, CleanText c.2.bytes ∧ 37 ∉ c.2.bytes) ∧
        ∀ entry ∈ allNodes.entries, entry.2.Clean := by
  have hsplit : (∀ c ∈ captureName appdata, CleanText c.2.bytes ∧ 37 ∉ c.2.bytes) ↔
      (∀ c ∈ captureName appdata, CleanText c.2.bytes) ∧
        ∀ c ∈ captureName appdata, 37 ∉ c.2.bytes :=
    forall₂_and
  rw [roundTrips_iff_clean, captureXml_eq_iff, clean_dumpDoc, hsplit]
  tauto

/-- The dump of a single node that has a name and no traffic. -/
def quietCatalog (name : CString) : NodesCatalog :=
  let nodeId : NodeId := ⟨.ip, NodeAddr.setIp Octets.zero (Address.clear.setType afInet)⟩
  let stats := BasicStats.reset ⟨0, 0⟩
  SortedTree.empty.insert nodeId
    { nodeId := nodeId
      name := name
      numericName := ⟨lit "0.0.0.0", by decide⟩
      nodeStats := ⟨0, stats, stats, stats, fun _ => []⟩ }

/-- A name with an ampersand in it makes a dump that is not XML. -/
theorem ampersand_not_roundTrips :
    ¬RoundTrips ⟨none, none, ⟨0, 0⟩, ⟨0, 0, 1, 0, 0, 0, 0⟩⟩ (quietCatalog ⟨lit "R&D", by decide⟩) := by
  rw [roundTrips_iff_clean, clean_dumpDoc]
  rintro ⟨_, _, hnodes⟩
  obtain ⟨s, hs, hplain, _⟩ := (hnodes _ List.mem_cons_self).name
  obtain rfl : s = "R&D".toList := utf8_injective hs
  exact absurd (hplain '&' (by decide)) (by decide)

end EtherApe.Export
