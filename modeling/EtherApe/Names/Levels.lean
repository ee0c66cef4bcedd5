import EtherApe.DecodeProto.Stack
import EtherApe.Names.Filled

/-!
# Names of one level

The protocol decoder and the name decoder meet in the names on the stack: a level that the one has named
is where the other looks for a header and registers its name. What is registered for a level follows from
the headers up to there.
-/

namespace EtherApe

def PacketProtos.decoder (tokens : PacketProtos) (level : Nat) : Option NameFun :=
  (tokens.token level).bind fun name => protFunctionsTable.lookup name

theorem PacketProtos.lt_of_decoder {tokens : PacketProtos} {level : Nat} {fn : NameFun}
    (h : tokens.decoder level = some fn) : level < stackSize + 1 := by
  by_contra hge
  rw [PacketProtos.decoder, PacketProtos.token, dif_neg hge] at h
  cases h

/-- An environment in which no name is resolved. -/
def NamesEnv.bare (mode : ApeMode) : NamesEnv where
  mode := mode
  nameRes := false
  getEtherName _ := none
  dnsLookup _ := []
  servicesTcpFind _ := none
  stray := ⟨fun _ => 0, []⟩

/-- The node id that the name of a direction should have. -/
def DecodeState.endpoint (d : DecodeState) (dir : PacketDirection) : NodeId :=
  if dir = .inbound then d.dstNodeId else d.srcNodeId

/-! ### Names on the stack -/

section Tokens

variable {env : DecodeEnv} {calls : Nat} {packet : RawPacket} {conversations : Conversations}
  {pphLkentry : Option Linktype} {d : DecodeState} {names : List String}

theorem token_firstNames
    (h : getPacketProt env calls (packet.decodeStart conversations pphLkentry) = .finished d)
    (hnames : names <+: d.added.map Prod.fst) {i : Nat} (hi : i < names.length) (hlt : i < stackSize) :
    d.pr.token (i + 1) = some names[i] := by
  have hlevel : i + 1 < stackSize + 1 := Nat.succ_lt_succ hlt
  rw [PacketProtos.token, dif_pos hlevel, getPacketProt_protonames
    (namesRecorded_start _ packet.packetSize conversations pphLkentry) h (Nat.succ_pos i)]
  show (d.added.map Prod.fst)[i + 1 - 1]? = some names[i]
  rw [Nat.add_sub_cancel, List.prefix_iff_getElem?.mp hnames i hi]

theorem mem_added_of_token
    (h : getPacketProt env calls (packet.decodeStart conversations pphLkentry) = .finished d)
    {level : Nat} (hpos : 0 < level) {name : String} (htoken : d.pr.token level = some name) :
    (d.added.map Prod.fst)[level - 1]? = some name := by
  unfold PacketProtos.token at htoken
  split at htoken
  next hlt =>
    rwa [getPacketProt_protonames (namesRecorded_start _ packet.packetSize conversations pphLkentry) h
      (show (0 : Level) < ⟨level, hlt⟩ from hpos)] at htoken
  · cases htoken

end Tokens

/-! ### Headers of the levels -/

section Headers

variable {inp : NameInput} {levels level off next : Nat} {name : String} {fn : NameFun}

theorem headersFrom_of_decoder (hfn : inp.tokens.decoder level = some fn)
    (hlt : off < inp.packet.packetSize) (hnext : fn.next inp off = some next) :
    headersFrom inp (levels + 1) level off =
      ⟨level, fn, off⟩ :: headersFrom inp levels (level + 1) next := by
  obtain ⟨name, htoken, hlookup⟩ := Option.bind_eq_some_iff.mp hfn
  rw [headersFrom, htoken]
  dsimp only
  rw [hlookup]
  dsimp only
  rw [if_neg (Nat.not_le_of_lt hlt), hnext]

theorem headersFrom_isPrefix (hfn : inp.tokens.decoder level = some fn)
    (hlt : off < inp.packet.packetSize) :
    [⟨level, fn, off⟩] <+: headersFrom inp (levels + 1) level off := by
  obtain ⟨name, htoken, hlookup⟩ := Option.bind_eq_some_iff.mp hfn
  rw [headersFrom, htoken]
  dsimp only
  rw [hlookup]
  dsimp only
  rw [if_neg (Nat.not_le_of_lt hlt)]
  exact List.cons_prefix_cons.mpr ⟨rfl, List.nil_prefix⟩

theorem mem_headersFrom_of_decoder (hfn : inp.tokens.decoder level = some fn) {h : NameHeader}
    (hmem : h ∈ headersFrom inp (levels + 1) level off) :
    off < inp.packet.packetSize ∧ (h = ⟨level, fn, off⟩ ∨
      ∃ next, fn.next inp off = some next ∧ h ∈ headersFrom inp levels (level + 1) next) := by
  obtain ⟨name, htoken, hlookup⟩ := Option.bind_eq_some_iff.mp hfn
  rw [headersFrom, htoken] at hmem
  dsimp only at hmem
  rw [hlookup] at hmem
  dsimp only at hmem
  split at hmem
  · cases hmem
  next hlt =>
    refine ⟨Nat.lt_of_not_le hlt, ?_⟩
    rcases List.mem_cons.mp hmem with rfl | hmem
    · exact Or.inl rfl
    · cases hnext : fn.next inp off with
      | none =>
          rw [hnext] at hmem
          cases hmem
      | some next =>
          rw [hnext] at hmem
          exact Or.inr ⟨next, rfl, hmem⟩

theorem off_of_mem_headersFrom {h : NameHeader} (hlevel : level = h.level)
    (hfn : inp.tokens.decoder level = some fn) (hmem : h ∈ headersFrom inp (levels + 1) level off) :
    off = h.off := by
  obtain ⟨_, rfl | ⟨next, _, hmem⟩⟩ := mem_headersFrom_of_decoder hfn hmem
  · rfl
  · have habove : level + 1 ≤ h.level := level_le_of_mem_headersFrom hmem
    exact absurd hlevel (Nat.ne_of_lt habove)

theorem headersFrom_of_no_decoder (htoken : inp.tokens.token level = some name)
    (hlookup : protFunctionsTable.lookup name = none) :
    headersFrom inp (levels + 1) level off = headersFrom inp levels (level + 1) off := by
  rw [headersFrom, htoken]
  dsimp only
  rw [hlookup]

end Headers

/-! ### Names of a header -/

section Names

variable {env : NamesEnv} {inp : NameInput} {uninit : NodeId}

theorem idAfter_some (fill : Fill) : idAfter inp uninit (some fill) = fill.nodeId inp := rfl

theorem Fill.nodeId_of_fits {apemode : ApeMode} {off type : Nat} {disp portdisp : Int}
    (hfits : fillFits inp off disp portdisp (fillSize apemode type)) :
    Fill.nodeId inp ⟨apemode, off, disp, portdisp, type⟩ =
      filledNodeId inp apemode off disp portdisp type := if_pos hfits

theorem lastFill_of_fill {mode : ApeMode} {hs : List NameHeader} {h : NameHeader} {fill : Fill}
    (hfill : h.fn.fill mode inp h.off
      (idAfter inp uninit (lastFill mode inp uninit none hs)).addr.tcp4Host.type = some fill) :
    lastFill mode inp uninit none (hs ++ [h]) = some fill := by
  unfold lastFill at hfill ⊢
  rw [List.foldl_append, List.foldl_cons, List.foldl_nil, NameHeader.lastFill, hfill]
  rfl

/-- A header that registers a name is the only one that does so for its level. -/
theorem names_of_header {hs : List NameHeader} {h : NameHeader} (hbefore : hs ++ [h] <+: headers inp)
    (hread : ∀ h' ∈ hs ++ [h], h'.fn.encodedNames inp h'.off = [])
    (hregisters : h.fn.Registers env inp h.off) (rounds : Nat) :
    (∃ name ∈ (getPacketNames env inp uninit rounds).2.names, name.level = h.level) ∧
      ∀ name ∈ (getPacketNames env inp uninit rounds).2.names, name.level = h.level →
        NameOf env.mode inp uninit none hs h name := by
  have hafter : RegistersAfter env inp (EnoughRounds inp rounds) hs h (headers inp) := by
    refine ⟨hbefore, fun h' hmem start hstart => ?_, hregisters⟩
    rw [hread h' hmem] at hstart
    exact absurd hstart List.not_mem_nil
  obtain ⟨hsound, hcomplete⟩ := getPacketNames_names env inp uninit rounds
  constructor
  · obtain ⟨name, hname, hof⟩ := hcomplete hs h hafter
    exact ⟨name, hname, hof.1⟩
  · intro name hname hlevel
    obtain ⟨hs', h', hafter', hof⟩ := hsound name hname
    have hsame : hs' ++ [h'] = hs ++ [h] := by
      rw [← filter_level_le hafter, ← filter_level_le hafter', ← hof.1, hlevel]
    obtain ⟨rfl, hsingle⟩ := List.append_inj' hsame rfl
    obtain rfl : h' = h := List.singleton_inj.mp hsingle
    exact hof

theorem mem_headersFrom {levels level off : Nat} {h : NameHeader}
    (hmem : h ∈ headersFrom inp levels level off) :
    inp.tokens.decoder h.level = some h.fn ∧ h.off < inp.packet.packetSize := by
  induction levels generalizing level off with
  | zero => cases hmem
  | succ levels ih =>
      cases htoken : inp.tokens.token level with
      | none =>
          rw [headersFrom, htoken] at hmem
          cases hmem
      | some name =>
          cases hlookup : protFunctionsTable.lookup name with
          | none =>
              rw [headersFrom_of_no_decoder htoken hlookup] at hmem
              exact ih hmem
          | some fn =>
              have hdecoder : inp.tokens.decoder level = some fn := by
                rw [PacketProtos.decoder, htoken]
                exact hlookup
              obtain ⟨hlt, rfl | ⟨next, _, hmem⟩⟩ := mem_headersFrom_of_decoder hdecoder hmem
              · exact ⟨hdecoder, hlt⟩
              · exact ih hmem

theorem eq_of_level_eq {h h' : NameHeader} (hmem : h ∈ headers inp) (hmem' : h' ∈ headers inp)
    (hlevel : h.level = h'.level) : h = h' := by
  have hdistinct : ((headers inp).map NameHeader.level).Nodup :=
    List.pairwise_map.mpr ((pairwise_level_headersFrom stackSize 1 0).imp Nat.ne_of_lt)
  exact List.inj_on_of_nodup_map hdistinct hmem hmem' hlevel

end Names

end EtherApe
