import EtherApe.Names.Layout
import EtherApe.NamesNetbios.Encoded

/-!
# NetBIOS names that are registered

A datagram names its source and its destination, and a session request the called and the calling side.
Of the text of a name the decoders take what is before its first blank, and the type that they show behind
it is cut off with the end of a full name. The decoder of session requests takes the length of the request
from a place in the called name, so a request has to be followed by thousands of bytes.
-/

namespace EtherApe

open Printf CInt

namespace NetbiosName

variable (name : NetbiosName)

/-- The text, the type in hexadecimal digits, and what it stands for. -/
def numeric : List UInt8 :=
  name.text ++ lit " " ++ (shownNumber name.type.toNat ++ (lit " (" ++
    lit (getNetbiosHostType name.type.toNat) ++ lit ")"))

/-- No blank inside the text, and not the text that stands for an error. -/
structure Registrable : Prop where
  noBlank : 32 ∉ name.text
  legal : name.text ≠ lit "Illegal"

/-- Besides, the text is not full, and the type is no negative character. -/
structure Renderable : Prop extends name.Registrable where
  notFull : name.text.length < 15
  type_lt : name.type.toNat < 128

theorem length_take : (name.bytes.take 15).length = 15 := by
  rw [List.length_take, name.length_eq]
  rfl

theorem takeWhile_eq_text_iff :
    (name.bytes.take 15).takeWhile (fun c => c ≠ 32) = name.text ↔ 32 ∉ name.text := by
  constructor
  · intro h hmem
    rw [← h] at hmem
    simpa using List.mem_takeWhile_imp hmem
  · intro h
    have hsplit := List.rdropWhile_append_rtakeWhile (p := fun c : UInt8 => decide (c = 32))
      (l := name.bytes.take 15)
    have hkept : ∀ c ∈ name.text, decide (c ≠ 32) = true := by
      intro c hc
      simp only [decide_eq_true_eq]
      rintro rfl
      exact h hc
    have hrest : ((name.bytes.take 15).rtakeWhile fun c => c = 32).takeWhile (fun c => c ≠ 32) = [] := by
      cases hblanks : (name.bytes.take 15).rtakeWhile fun c => c = 32 with
      | nil => rfl
      | cons c blanks =>
          have hc := List.mem_rtakeWhile_imp (hblanks ▸ List.mem_cons_self : c ∈ _)
          rw [List.takeWhile_cons_of_neg]
          simpa using hc
    rw [← hsplit]
    show (name.text ++ _).takeWhile _ = _
    rw [List.takeWhile_append_of_pos hkept, hrest, List.append_nil]

/-- What the decoders get for the name. -/
def found : NbnsName :=
  ⟨name.bytes.take 15 ++ shownType (ofChar name.type), ofChar name.type, 34⟩

/-- What the decoders take for the text. -/
def shown : List UInt8 := (name.bytes.take 15).takeWhile fun c => c ≠ 32

/-- What the decoders show behind the text. -/
def shownSuffix : List UInt8 := if name.shown.length = 15 then [] else shownType (ofChar name.type)

end NetbiosName

section Registered

variable {env : NamesEnv} {inp : NameInput} {rounds : Nat} {nt : NameAdd}

/-- A name that is registered next, as the decoders would do it. -/
def NameAdd.nextName (nt : NameAdd) (inp : NameInput) (numeric resolved : List UInt8) : AddedName :=
  ⟨nt.level, (inp.tokens.token nt.level).getD "", numeric, some resolved, nt.nodeId⟩

theorem addNetbiosName_found (name : NetbiosName) :
    (addNetbiosName inp name.found nt).names =
      if name.shown = lit "Illegal" then nt.names
      else nt.names ++ [nt.nextName inp (name.shown ++ lit " " ++ name.shownSuffix ++ lit " (" ++
        lit (getNetbiosHostType (ofChar name.type)) ++ lit ")") name.shown] := by
  have hlength : netbiosNameLen - 1 = (name.bytes.take 15).length := name.length_take.symm
  have hunpadded : unpadded name.found.outname = name.shown := by
    rw [unpadded, NetbiosName.found, hlength, List.take_left]
    rfl
  unfold addNetbiosName
  dsimp only
  rw [hunpadded, NetbiosName.found, hlength, List.drop_left]
  by_cases hillegal : name.shown = lit "Illegal"
  · rw [if_pos hillegal, if_pos hillegal]
  · rw [if_neg hillegal, if_neg hillegal, name.length_take]
    rfl

theorem addNetbiosName_resolved_iff (name : NetbiosName) :
    (∃ numeric, (addNetbiosName inp name.found nt).names =
      nt.names ++ [nt.nextName inp numeric name.text]) ↔ name.Registrable := by
  rw [addNetbiosName_found]
  constructor
  · rintro ⟨numeric, h⟩
    by_cases hillegal : name.shown = lit "Illegal"
    · rw [if_pos hillegal] at h
      simp at h
    · rw [if_neg hillegal, List.append_cancel_left_eq, List.cons.injEq] at h
      have htext : name.shown = name.text := Option.some.inj (congrArg AddedName.resolved h.1)
      exact ⟨name.takeWhile_eq_text_iff.mp htext, htext ▸ hillegal⟩
  · rintro ⟨hblank, hlegal⟩
    have htext : name.shown = name.text := name.takeWhile_eq_text_iff.mpr hblank
    rw [htext, if_neg hlegal]
    exact ⟨_, rfl⟩

/-- The text and the type are registered just when besides the text is not full and the type is no
negative character. -/
theorem addNetbiosName_numeric_iff (name : NetbiosName) :
    (addNetbiosName inp name.found nt).names =
      nt.names ++ [nt.nextName inp name.numeric name.text] ↔ name.Renderable := by
  have hle : name.text.length ≤ 15 :=
    name.length_take ▸ (List.rdropWhile_prefix (fun c : UInt8 => decide (c = 32)) _).length_le
  constructor
  · intro h
    have hregistrable := (addNetbiosName_resolved_iff name).mp ⟨_, h⟩
    have htext : name.shown = name.text := name.takeWhile_eq_text_iff.mpr hregistrable.noBlank
    rw [addNetbiosName_found, htext, if_neg hregistrable.legal, List.append_cancel_left_eq,
      List.cons.injEq] at h
    have hnumeric := congrArg AddedName.numeric h.1
    simp only [NameAdd.nextName, NetbiosName.numeric, List.append_assoc,
      List.append_cancel_left_eq] at hnumeric
    unfold NetbiosName.shownSuffix at hnumeric
    rw [htext] at hnumeric
    by_cases hfull : name.text.length = 15
    · -- the end of the text takes the place of the bracket
      rw [if_pos hfull, List.nil_append, show lit " (" = [32, 40] by decide, shownNumber,
        show lit "<" = [60] by decide] at hnumeric
      exact absurd (List.cons.inj hnumeric).1 (by decide)
    · rw [if_neg hfull] at hnumeric
      exact ⟨hregistrable, by omega, (shownType_append_iff.mp hnumeric).1⟩
  · rintro ⟨⟨hblank, hlegal⟩, hfull, hlt⟩
    have htext : name.shown = name.text := name.takeWhile_eq_text_iff.mpr hblank
    obtain ⟨hchar, hshown⟩ : ofChar name.type = name.type.toNat ∧
        shownType (ofChar name.type) = shownNumber name.type.toNat := by
      have hspec := (shownType_spec name.type).2.2
      rwa [if_pos hlt] at hspec
    have hsuffix : name.shownSuffix = shownNumber name.type.toNat := by
      rw [NetbiosName.shownSuffix, htext, if_neg (by omega), hshown]
    rw [addNetbiosName_found, htext, if_neg hlegal, hsuffix, hchar, NetbiosName.numeric]
    simp only [List.append_assoc]

theorem nameSize_gt : 25 < nameSize := by decide

theorem nbnsNames_first (name : NetbiosName) (hrounds : 2 ≤ rounds)
    (h : inp.packet.HasBytes nt.offset name.label) (hcaptured : nt.offset + 34 < inp.packet.packetSize) :
    ∃ reads, nbnsNames env inp rounds false nt = (some name.found, nt.touch reads) := by
  have hname := @etherealNbnsName_label _ _ env.stray _ _ name hrounds h hcaptured nameSize_gt
  unfold nbnsNames
  generalize etherealNbnsName env.stray rounds inp.packet nt.offset nameSize = result at hname
  obtain ⟨found, reads⟩ := result
  obtain rfl : found = some name.found := hname
  exact ⟨reads, rfl⟩

theorem nbnsNames_second (name second : NetbiosName) (hrounds : 2 ≤ rounds)
    (h : inp.packet.HasBytes nt.offset (name.label ++ second.label))
    (hcaptured : nt.offset + 68 < inp.packet.packetSize) :
    ∃ reads, nbnsNames env inp rounds true nt = (some second.found, nt.touch reads) := by
  have hlength : name.label.length = 34 := by
    rw [NetbiosName.label, List.length_cons, List.length_append, name.length_encoded]
    rfl
  have hname := @etherealNbnsName_label _ _ env.stray _ _ name hrounds h.append_left (by omega)
    nameSize_gt
  have hsecond := @etherealNbnsName_label _ _ env.stray _ _ second hrounds
    (hlength ▸ h.append_right) (by omega) nameSize_gt
  unfold nbnsNames
  generalize etherealNbnsName env.stray rounds inp.packet nt.offset nameSize = result at hname
  obtain ⟨found, reads⟩ := result
  obtain rfl : found = some name.found := hname
  have hoffset : (nt.offset : Int) + name.found.nameLen = ((nt.offset + 34 : Nat) : Int) := rfl
  dsimp only
  rw [if_pos rfl, hoffset]
  generalize etherealNbnsName env.stray rounds inp.packet ((nt.offset + 34 : Nat) : Int) nameSize =
    result at hsecond
  obtain ⟨found', reads'⟩ := result
  obtain rfl : found' = some second.found := hsecond
  exact ⟨reads ++ reads', rfl⟩

end Registered

/-! ### Datagrams -/

/-- A captured direct datagram with the name of its source. -/
structure DirectDatagram (inp : NameInput) (off : Nat) (source : NetbiosName) : Prop where
  type : inp.byte off = 0x10 ∨ inp.byte off = 0x11 ∨ inp.byte off = 0x12
  source : inp.packet.HasBytes (off + 14) source.label
  captured : off + 14 + 34 < inp.packet.packetSize

theorem getNbdgmName_names {env : NamesEnv} {inp : NameInput} {rounds : Nat} {nt : NameAdd}
    {source : NetbiosName} (h : DirectDatagram inp nt.offset source) (hdir : inp.dir = .outbound)
    (hrounds : 2 ≤ rounds) :
    (getNbdgmName env inp rounds nt).2.names = (addNetbiosName inp source.found nt).names := by
  obtain ⟨htype, hsource, hcaptured⟩ := h
  have hsize := inp.packet.packetSize_lt
  rw [getNbdgmName_eq, if_neg (by omega), if_pos htype]
  generalize hstate : ((nt.touch [(nt.offset : Int)]).advance 10).advance 4 = st
  have hoffset : st.offset = nt.offset + 14 := by
    rw [← hstate]
    show ((nt.offset + 10) % 65536 + 4) % 65536 = nt.offset + 14
    omega
  have hdirection : decide (inp.dir = .inbound) = false := by
    rw [hdir]
    rfl
  obtain ⟨reads, hnames⟩ := @nbnsNames_first env inp rounds st source hrounds
    (hoffset ▸ hsource) (hoffset ▸ hcaptured)
  rw [nbdgmName, hdirection, hnames]
  show (addNetbiosName inp source.found (st.touch reads)).names = _
  rw [addNetbiosName_found, addNetbiosName_found, ← hstate]
  rfl

/-- **Datagrams.** The source of a datagram is registered with its text and its type just when the text has
no blank inside, is shorter than fifteen characters and not the text of an error, and the type is below
128. -/
theorem getNbdgmName_faithful_iff (env : NamesEnv) (inp : NameInput) (rounds : Nat) (nt : NameAdd)
    (source : NetbiosName) (h : DirectDatagram inp nt.offset source) (hdir : inp.dir = .outbound)
    (hrounds : 2 ≤ rounds) :
    (getNbdgmName env inp rounds nt).2.names =
        nt.names ++ [nt.nextName inp source.numeric source.text] ↔ source.Renderable := by
  rw [getNbdgmName_names h hdir hrounds]
  exact addNetbiosName_numeric_iff source

/-- Names are neither solved nor looked up. -/
def plainNamesEnv : NamesEnv where
  mode := .ip
  nameRes := false
  getEtherName _ := none
  dnsLookup _ := []
  servicesTcpFind _ := none
  stray := ⟨fun _ => 0, []⟩

/-- A name of type zero with a text of at most fifteen printable characters. -/
def workstation (text : List UInt8) (hlength : text.length ≤ 15)
    (hprintable : ∀ b ∈ text, 32 ≤ b.toNat ∧ b.toNat ≤ 126) : NetbiosName where
  bytes := text ++ List.replicate (15 - text.length) 32 ++ [0]
  length_eq := by
    rw [List.length_append, List.length_append, List.length_replicate, List.length_singleton]
    omega
  printable := by
    intro b hb
    rw [List.take_left' (by rw [List.length_append, List.length_replicate]; omega)] at hb
    rcases List.mem_append.mp hb with hb | hb
    · exact hprintable b hb
    · rw [List.eq_of_mem_replicate hb]
      decide

def fileName : NetbiosName := workstation (lit "FILE") (by decide) (by decide +kernel)

def fileServerName : NetbiosName :=
  workstation (lit "FILE SERVER") (by decide) (by decide +kernel)

/-- A direct datagram of the given source at the start of a packet. -/
def datagramOf (source : NetbiosName) : NameInput where
  packet := RawPacket.ofBytes ((0x10 :: List.replicate 13 0) ++ (source.label ++ [])) 100
  dir := .outbound
  linkType := dltEn10mb
  tokens := PacketProtos.init

theorem directDatagram_datagramOf (source : NetbiosName) :
    DirectDatagram (datagramOf source) 0 source where
  type := Or.inl rfl
  source := RawPacket.ofBytes_hasBytes 100 (0x10 :: List.replicate 13 0) source.label []
  captured := (by decide : 0 + 14 + 34 < 100)

/-- A name without a blank is registered as it is. -/
theorem getNbdgmName_faithful_iff_file :
    (getNbdgmName plainNamesEnv (datagramOf fileName) 2 (NameAdd.start NodeId.clear)).2.names =
      [] ++ [(NameAdd.start NodeId.clear).nextName (datagramOf fileName) fileName.numeric
        (lit "FILE")] :=
  (getNbdgmName_faithful_iff plainNamesEnv (datagramOf fileName) 2 (NameAdd.start NodeId.clear) fileName
    (directDatagram_datagramOf fileName) rfl le_rfl).mpr
    ⟨⟨by decide +kernel, by decide +kernel⟩, by decide +kernel, by decide +kernel⟩

/-- Of a name with a blank in it only the first word is registered. -/
theorem not_all_datagrams_faithful :
    ¬∀ (env : NamesEnv) (inp : NameInput) (rounds : Nat) (nt : NameAdd) (source : NetbiosName),
      DirectDatagram inp nt.offset source → inp.dir = .outbound → 2 ≤ rounds →
      (getNbdgmName env inp rounds nt).2.names =
        nt.names ++ [nt.nextName inp source.numeric source.text] := by
  intro h
  have hdatagram := directDatagram_datagramOf fileServerName
  have hnames := h plainNamesEnv (datagramOf fileServerName) 2 (NameAdd.start NodeId.clear)
    fileServerName hdatagram rfl le_rfl
  rw [getNbdgmName_names hdatagram rfl le_rfl] at hnames
  exact absurd ((addNetbiosName_numeric_iff fileServerName).mp hnames).noBlank (by decide +kernel)

/-! ### Session requests -/

/-- A captured session request with the names of both sides. -/
structure SessionRequest (inp : NameInput) (off : Nat) (called calling : NetbiosName) : Prop where
  type : inp.byte off = 0x81
  names : inp.packet.HasBytes (off + 4) (called.label ++ calling.label)
  captured : off + 4 + 68 ≤ inp.packet.packetSize

/-- What is read in place of the length of a request: the bytes that the called name begins with. -/
def NetbiosName.readLength (name : NetbiosName) : Nat :=
  32 * 256 + (name.encoded.headD 0).toNat

/-- The names of both sides are registered. -/
structure SessionNamesFound (env : NamesEnv) (inp : NameInput) (rounds : Nat) (nt : NameAdd)
    (called calling : NetbiosName) : Prop where
  inbound : inp.dir = .inbound → ∃ numeric, (getNbssName env inp rounds nt).2.names =
    nt.names ++ [nt.nextName inp numeric called.text]
  outbound : inp.dir = .outbound → ∃ numeric, (getNbssName env inp rounds nt).2.names =
    nt.names ++ [nt.nextName inp numeric calling.text]

section SessionRequests

variable {env : NamesEnv} {inp : NameInput} {rounds : Nat} {nt : NameAdd}
  {called calling : NetbiosName}

theorem SessionRequest.readLength_eq {off : Nat} (h : SessionRequest inp off called calling) :
    inp.pntohs ((off + 4 : Nat) : Int) = called.readLength := by
  have hlabel := h.names.append_left
  obtain ⟨c, letters, hencoded⟩ := List.exists_cons_of_length_pos
    (called.length_encoded.symm ▸ (by decide : 0 < 32))
  have hfirst : inp.packet.p ((off + 4 : Nat) : Int) = 32 := hlabel.head
  have hletter : inp.packet.p (((off + 4 : Nat) : Int) + 1) = c := by
    have htail := hlabel.tail
    rw [hencoded] at htail
    exact htail.head
  rw [NameInput.pntohs, NameInput.byte, NameInput.byte, hfirst, hletter, NetbiosName.readLength,
    hencoded]
  rfl

/-- The request is followed by as many bytes as are read for its length. -/
def Followed (inp : NameInput) (off : Nat) (called : NetbiosName) : Prop :=
  off + 4 + called.readLength < inp.packet.packetSize

instance (off : Nat) : Decidable (Followed inp off called) := inferInstanceAs (Decidable (_ < _))

theorem SessionRequest.sessionRequest_eq {off : Nat} (h : SessionRequest inp off called calling) :
    sessionRequest inp off =
      if Followed inp off called then some (off + 4, called.readLength) else none := by
  have hsize := inp.packet.packetSize_lt
  have hcaptured := h.captured
  have hoff : (off + 2) % 65536 + 2 = off + 4 := by omega
  have hstart : (off + 4) % 65536 = off + 4 := Nat.mod_eq_of_lt (by omega)
  rw [sessionRequest, hoff, hstart, h.readLength_eq, if_neg (by omega)]
  by_cases hfollowed : Followed inp off called
  · rw [if_pos hfollowed, if_neg (not_le.mpr hfollowed)]
  · rw [if_neg hfollowed, if_pos (not_lt.mp hfollowed)]

theorem getNbssName_names (h : SessionRequest inp nt.offset called calling) (hrounds : 2 ≤ rounds) :
    (getNbssName env inp rounds nt).2.names =
      if Followed inp nt.offset called then
        (addNetbiosName inp (if inp.dir = .outbound then calling else called).found nt).names
      else nt.names := by
  have hsize := inp.packet.packetSize_lt
  have hcaptured := h.captured
  have hrequest := getSessionRequestName_eq env inp rounds
    ((nt.touch [(nt.offset : Int)]).advance 2) nt.offset rfl
  rw [getNbssName, if_neg (by omega)]
  dsimp only
  rw [if_pos h.type]
  rw [h.sessionRequest_eq] at hrequest
  by_cases hfollowed : Followed inp nt.offset called
  · rw [if_pos hfollowed] at hrequest ⊢
    obtain ⟨reads, hrequest⟩ := hrequest
    have hmore : nt.offset + 4 + 68 < inp.packet.packetSize := by
      unfold Followed NetbiosName.readLength at hfollowed
      omega
    -- the state in which the names are read
    generalize hstate : (((nt.touch [(nt.offset : Int)]).advance 2).touch reads).advance 2 = st
      at hrequest
    have hoffset : st.offset = nt.offset + 4 := by
      rw [← hstate]
      show ((nt.offset + 2) % 65536 + 2) % 65536 = nt.offset + 4
      omega
    have hregistered : ∀ (name : NetbiosName) (reads : List Int),
        (addNetbiosName inp name.found (st.touch reads)).names =
          (addNetbiosName inp name.found nt).names := by
      intro name reads
      rw [addNetbiosName_found, addNetbiosName_found, ← hstate]
      rfl
    by_cases hdir : inp.dir = .outbound
    · obtain ⟨reads', hnames⟩ := @nbnsNames_second env inp rounds st called
        calling hrounds (hoffset ▸ h.names) (hoffset ▸ hmore)
      rw [if_pos hdir, (hrequest (some calling.found) (st.touch reads')
        (by rw [decide_eq_true hdir, hnames])).2]
      exact hregistered calling reads'
    · obtain ⟨reads', hnames⟩ := @nbnsNames_first env inp rounds st called
        hrounds (hoffset ▸ h.names.append_left) (by omega)
      rw [if_neg hdir, (hrequest (some called.found) (st.touch reads')
        (by rw [decide_eq_false hdir, hnames])).2]
      exact hregistered called reads'
  · rw [if_neg hfollowed] at hrequest ⊢
    obtain ⟨nt', heq, _, _, hnames⟩ := hrequest
    rw [heq]
    exact hnames

end SessionRequests

/-- **Session requests.** The names of a request are registered just when it is followed by as many bytes
as are read for its length, and the name that is asked for has no blank inside and is not the text of an
error. -/
theorem getNbssName_found_iff (env : NamesEnv) (inp : NameInput) (rounds : Nat) (nt : NameAdd)
    (called calling : NetbiosName) (h : SessionRequest inp nt.offset called calling)
    (hrounds : 2 ≤ rounds) :
    SessionNamesFound env inp rounds nt called calling ↔
      (inp.dir = .inbound → Followed inp nt.offset called ∧ called.Registrable) ∧
      (inp.dir = .outbound → Followed inp nt.offset called ∧ calling.Registrable) := by
  have hnames := @getNbssName_names env _ _ _ _ _ h hrounds
  have hiff : ∀ name : NetbiosName, (if inp.dir = .outbound then calling else called) = name →
      ((∃ numeric, (getNbssName env inp rounds nt).2.names =
        nt.names ++ [nt.nextName inp numeric name.text]) ↔
          Followed inp nt.offset called ∧ name.Registrable) := by
    rintro name rfl
    rw [hnames]
    by_cases hfollowed : Followed inp nt.offset called
    · rw [if_pos hfollowed, addNetbiosName_resolved_iff]
      exact (and_iff_right hfollowed).symm
    · rw [if_neg hfollowed]
      refine iff_of_false ?_ fun h => hfollowed h.1
      simp
  constructor
  · intro hfound
    refine ⟨fun hdir => ?_, fun hdir => ?_⟩
    · exact (hiff called (by rw [hdir]; rfl)).mp (hfound.inbound hdir)
    · exact (hiff calling (if_pos hdir)).mp (hfound.outbound hdir)
  · rintro ⟨hinbound, houtbound⟩
    refine ⟨fun hdir => ?_, fun hdir => ?_⟩
    · exact (hiff called (by rw [hdir]; rfl)).mpr (hinbound hdir)
    · exact (hiff calling (if_pos hdir)).mpr (houtbound hdir)

/-- A session request for a called and from a calling side at the start of a packet, which may go on. -/
def requestOf (called calling : NetbiosName) (dir : PacketDirection) (size : UInt16) : NameInput where
  packet := RawPacket.ofBytes ([0x81, 0, 0, 68] ++ (called.label ++ calling.label ++ [])) size
  dir := dir
  linkType := dltEn10mb
  tokens := PacketProtos.init

theorem sessionRequest_requestOf (called calling : NetbiosName) (dir : PacketDirection) {size : UInt16}
    (hsize : 72 ≤ size.toNat) : SessionRequest (requestOf called calling dir size) 0 called calling where
  type := rfl
  names := RawPacket.ofBytes_hasBytes size [0x81, 0, 0, 68] (called.label ++ calling.label) []
  captured := hsize

/-- A request with thousands of bytes behind it. -/
theorem getNbssName_found_iff_long :
    SessionNamesFound plainNamesEnv (requestOf fileName fileName .inbound 9000) 2
      (NameAdd.start NodeId.clear) fileName fileName := by
  refine (getNbssName_found_iff _ _ 2 _ fileName fileName
    (sessionRequest_requestOf fileName fileName .inbound (by decide)) le_rfl).mpr
    ⟨fun _ => ⟨by decide +kernel, by decide +kernel, by decide +kernel⟩, fun h => by cases h⟩

/-- A request on its own is not looked at. -/
theorem not_all_session_names_found :
    ¬∀ (env : NamesEnv) (inp : NameInput) (rounds : Nat) (nt : NameAdd) (called calling : NetbiosName),
      SessionRequest inp nt.offset called calling → 2 ≤ rounds →
      SessionNamesFound env inp rounds nt called calling := by
  intro h
  have hrequest := @sessionRequest_requestOf fileName fileName .inbound 100 (by decide)
  obtain ⟨numeric, hnames⟩ := (h plainNamesEnv (requestOf fileName fileName .inbound 100) 2
    (NameAdd.start NodeId.clear) fileName fileName hrequest le_rfl).inbound rfl
  rw [getNbssName_names hrequest le_rfl, if_neg (by decide +kernel)] at hnames
  simp at hnames

end EtherApe
