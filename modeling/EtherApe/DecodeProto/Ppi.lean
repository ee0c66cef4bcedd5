import EtherApe.DecodeProto

/-!
# PPI headers

How `get_ppi` dispatches through the link type table it is itself an entry of, and for which captures
the nesting of PPI headers ends.
-/

namespace EtherApe

open DecodeState

/-! ### Dispatch through the table -/

def findLinktype (dlt : Nat) : Option Linktype :=
  linktypes.attach.find? (·.val.dltLinktype = dlt)

theorem linktypes_distinct :
    linktypes.attach.Pairwise fun a b => a.val.dltLinktype ≠ b.val.dltLinktype := by
  decide

theorem dltLinktype_injective {a b : Linktype} (h : a.val.dltLinktype = b.val.dltLinktype) : a = b := by
  by_contra hne
  have hsymm : Std.Symm fun a b : Linktype => a.val.dltLinktype ≠ b.val.dltLinktype :=
    ⟨fun _ _ h => h.symm⟩
  exact linktypes_distinct.forall (List.mem_attach _ _) (List.mem_attach _ _) hne h

theorem findLinktype_eq_some_iff {dlt : Nat} {entry : Linktype} :
    findLinktype dlt = some entry ↔ entry.val.dltLinktype = dlt := by
  unfold findLinktype
  constructor
  · intro h
    simpa using List.find?_some h
  · intro h
    cases hfind : linktypes.attach.find? (·.val.dltLinktype = dlt) with
    | none => exact absurd h (by simpa using List.find?_eq_none.mp hfind entry (List.mem_attach _ _))
    | some found =>
        have hfound : found.val.dltLinktype = dlt := by simpa using List.find?_some hfind
        rw [dltLinktype_injective (hfound.trans h.symm)]

theorem getFun_eq_getPpi_iff (entry : Linktype) :
    entry.val.getFun = .getPpi ↔ entry.val.dltLinktype = dltPpi := by
  have htable : ∀ entry ∈ linktypes,
      (entry.getFun = .getPpi ↔ entry.dltLinktype = dltPpi) := by decide
  exact htable entry.val entry.property

theorem Outcome.andThen_finished (o : Outcome) : o.andThen .finished = o := by
  cases o <;> rfl

/-- In a table without repeated link types the scan calls one decoder at most. -/
theorem scanLinktypes_eq {env : DecodeEnv} {ppi : DecodeState → Outcome} {pphDlt : Nat}
    {entries : List Linktype} {d : DecodeState}
    (hdistinct : entries.Pairwise fun a b => a.val.dltLinktype ≠ b.val.dltLinktype) :
    scanLinktypes env ppi pphDlt entries d =
      match entries.find? (·.val.dltLinktype = pphDlt) with
      | some entry => entry.val.getFun.call env ppi (d.setPphLkentry (some entry))
      | none => .finished d := by
  induction entries generalizing d with
  | nil => rfl
  | cons entry entries ih =>
      obtain ⟨hne, hrest⟩ := List.pairwise_cons.mp hdistinct
      rw [scanLinktypes]
      split
      next hdlt =>
        have hnone : entries.find? (·.val.dltLinktype = pphDlt) = none := by
          rw [List.find?_eq_none]
          intro other hother
          simpa [← hdlt] using (hne other hother).symm
        have hscan : scanLinktypes env ppi pphDlt entries = .finished := by
          funext d'
          rw [ih hrest, hnone]
        rw [hscan, Outcome.andThen_finished, List.find?_cons_of_pos (by simpa using hdlt)]
      next hdlt => rw [ih hrest, List.find?_cons_of_neg (by simpa using hdlt)]

/-- The state in which `get_ppi` calls the next decoder. -/
def ppiPayload (d : DecodeState) (entry : Option Linktype) : DecodeState :=
  (((d.touch 2 2).touch 4 4).addOffset (d.window.u16le 2)).setPphLkentry entry

/-- What one call of `get_ppi` does. The entry an earlier packet left makes no difference. -/
theorem getPpi_succ (env : DecodeEnv) (calls : Nat) (d : DecodeState) :
    getPpi env (calls + 1) d =
      if d.window.len < 64 then .finished (d.decodeProtoAdd "PPI")
      else
        match findLinktype (d.window.u32le 4) with
        | some entry => entry.val.getFun.call env (getPpi env calls) (ppiPayload d (some entry))
        | none => .finished (ppiPayload d none) := by
  rw [getPpi]
  dsimp only [readU16, readU32]
  split
  · rfl
  · split
    next entry hcached =>
      obtain ⟨hlkentry, hdlt⟩ := Option.filter_eq_some_iff.mp hcached
      have hfind : findLinktype (d.window.u32le 4) = some entry :=
        findLinktype_eq_some_iff.mpr (by simpa using hdlt)
      have hpayload : ppiPayload d (some entry) =
          ((d.touch 2 2).touch 4 4).addOffset (d.window.u16le 2) := by
        rw [ppiPayload, setPphLkentry, ← hlkentry]
      rw [hfind]
      dsimp only
      rw [hpayload]
    next hcached =>
      rw [scanLinktypes_eq linktypes_distinct, touch_window, ← findLinktype]
      cases findLinktype (d.window.u32le 4) with
      | none => rfl
      | some entry => rfl

/-! ### Nesting -/

/-- The windows at which `get_ppi` is called when it is called at `w`: a header of full size that
announces PPI leads to what is left after as many bytes as it says. -/
inductive PpiNested : Window → Window → Prop
  | here (w : Window) : PpiNested w w
  | nested {w w' : Window} (hlen : 64 ≤ w.len) (hdlt : w.u32le 4 = dltPpi)
      (h : PpiNested (w.advance (w.u16le 2)) w') : PpiNested w w'

/-- A PPI header that announces PPI and claims to have no bytes. -/
def EmptyPpiHeader (w : Window) : Prop := 64 ≤ w.len ∧ w.u32le 4 = dltPpi ∧ w.u16le 2 = 0

theorem GetFun.call_finished {f : GetFun} (hf : f ≠ .getPpi) (env : DecodeEnv)
    (ppi : DecodeState → Outcome) (d : DecodeState) : ∃ d', f.call env ppi d = .finished d' := by
  cases f with
  | getPpi => exact absurd rfl hf
  | _ => exact ⟨_, rfl⟩

@[simp] theorem ppiPayload_window (d : DecodeState) (entry : Option Linktype) :
    (ppiPayload d entry).window = d.window.advance (d.window.u16le 2) := rfl

theorem getPpi_succ_nested {env : DecodeEnv} {d : DecodeState} (hlen : 64 ≤ d.window.len)
    (hdlt : d.window.u32le 4 = dltPpi) :
    ∃ entry, ∀ calls, getPpi env (calls + 1) d = getPpi env calls (ppiPayload d entry) := by
  have hfind : findLinktype (d.window.u32le 4) = some (linktypeAt 9) :=
    findLinktype_eq_some_iff.mpr hdlt.symm
  refine ⟨some (linktypeAt 9), fun calls => ?_⟩
  rw [getPpi_succ, if_neg (not_lt.mpr hlen), hfind]
  rfl

/-- Without empty headers each call of `get_ppi` has fewer bytes than the one before. -/
theorem getPpi_finishes {env : DecodeEnv} {d : DecodeState}
    (h : ∀ w, PpiNested d.window w → ¬EmptyPpiHeader w) {calls : Nat} (hcalls : d.window.len < calls) :
    ∃ d', getPpi env calls d = .finished d' := by
  induction calls generalizing d with
  | zero => omega
  | succ calls ih =>
      rw [getPpi_succ]
      split
      · exact ⟨_, rfl⟩
      next hlong =>
        have hlen : 64 ≤ d.window.len := not_lt.mp hlong
        split
        next entry hfind =>
          have hentry := findLinktype_eq_some_iff.mp hfind
          by_cases hppi : entry.val.getFun = .getPpi
          · have hdlt : d.window.u32le 4 = dltPpi := by
              rw [← hentry, (getFun_eq_getPpi_iff entry).mp hppi]
            have hpos : d.window.u16le 2 ≠ 0 := fun h0 => h _ (.here _) ⟨hlen, hdlt, h0⟩
            rw [hppi]
            refine ih (fun w hw => h w (.nested hlen hdlt hw)) ?_
            rw [ppiPayload_window, Window.advance_len]
            omega
          · exact GetFun.call_finished hppi _ _ _
        · exact ⟨_, rfl⟩

/-- At an empty header `get_ppi` calls itself in the same place. -/
theorem getPpi_unfinished {env : DecodeEnv} {d d' : DecodeState} {calls : Nat}
    (hfinished : getPpi env calls d = .finished d') {w : Window} (hw : PpiNested d.window w) :
    ¬EmptyPpiHeader w := by
  rintro ⟨hlen, hdlt, hempty⟩
  induction calls generalizing d with
  | zero => simp [getPpi] at hfinished
  | succ calls ih =>
      cases hw with
      | here =>
          obtain ⟨entry, hnext⟩ := @getPpi_succ_nested env d hlen hdlt
          rw [hnext] at hfinished
          refine ih hfinished ?_
          rw [ppiPayload_window, hempty, Window.advance_zero]
          exact .here _
      | nested hlen' hdlt' hrest =>
          obtain ⟨entry, hnext⟩ := @getPpi_succ_nested env d hlen' hdlt'
          rw [hnext] at hfinished
          exact ih hfinished hrest

theorem getPpi_mono {env : DecodeEnv} {calls calls' : Nat} (hle : calls ≤ calls')
    {d d' : DecodeState} (h : getPpi env calls d = .finished d') :
    getPpi env calls' d = .finished d' := by
  induction calls generalizing d calls' with
  | zero => exact Outcome.noConfusion h
  | succ calls ih =>
      obtain ⟨more, rfl⟩ := Nat.exists_eq_add_of_lt (Nat.lt_of_succ_le hle)
      rw [getPpi_succ] at h ⊢
      split at h
      next hshort => rwa [if_pos hshort]
      next hlong =>
        rw [if_neg hlong]
        split at h
        next entry hfind =>
          by_cases hppi : entry.val.getFun = .getPpi
          · rw [hppi] at h ⊢
            exact ih (Nat.le_add_right _ _) h
          · rw [← h]
            cases hfun : entry.val.getFun with
            | getPpi => exact absurd hfun hppi
            | _ => rfl
        next => exact h

theorem getPpi_finishes_iff (env : DecodeEnv) (d : DecodeState) :
    (∃ calls d', getPpi env calls d = .finished d') ↔
      ∀ w, PpiNested d.window w → ¬EmptyPpiHeader w := by
  constructor
  · rintro ⟨calls, d', h⟩ w hw
    exact getPpi_unfinished h hw
  · intro h
    exact ⟨d.window.len + 1, getPpi_finishes h (Nat.lt_succ_self _)⟩

theorem getPacketProt_finishes_iff {env : DecodeEnv} {d : DecodeState} :
    (∃ calls d', getPacketProt env calls d = .finished d') ↔
      ∃ calls d', env.lkentry.val.getFun.call env (getPpi env calls) d = .finished d' := by
  constructor
  · rintro ⟨calls, d', h⟩
    cases hcall : env.lkentry.val.getFun.call env (getPpi env calls) d with
    | finished d'' => exact ⟨calls, d'', hcall⟩
    | unfinished d'' => simp [getPacketProt, hcall, Outcome.andThen] at h
  · rintro ⟨calls, d', h⟩
    exact ⟨calls, copyTopmost d', by simp [getPacketProt, h, Outcome.andThen]⟩

theorem getPacketProt_mono {env : DecodeEnv} {calls calls' : Nat} (hle : calls ≤ calls')
    {d d' : DecodeState} (h : getPacketProt env calls d = .finished d') :
    getPacketProt env calls' d = .finished d' := by
  by_cases hppi : env.lkentry.val.getFun = .getPpi
  · unfold getPacketProt at h ⊢
    rw [hppi] at h ⊢
    cases hcall : getPpi env calls d with
    | finished e =>
        rw [GetFun.call, getPpi_mono hle hcall]
        rwa [GetFun.call, hcall] at h
    | unfinished e =>
        rw [GetFun.call, hcall] at h
        exact Outcome.noConfusion h
  · rw [← h]
    unfold getPacketProt
    cases hfun : env.lkentry.val.getFun with
    | getPpi => exact absurd hfun hppi
    | _ => rfl

/-- One call more than there are bytes is enough, if any number is. -/
theorem getPacketProt_enough_calls {env : DecodeEnv} {calls : Nat} {d d' : DecodeState}
    (h : getPacketProt env calls d = .finished d') :
    getPacketProt env (d.window.len + 1) d = .finished d' := by
  have hfinishes : ∃ e, getPacketProt env (d.window.len + 1) d = .finished e := by
    by_cases hppi : env.lkentry.val.getFun = .getPpi
    · obtain ⟨calls', e, hcall⟩ := getPacketProt_finishes_iff.mp ⟨calls, d', h⟩
      rw [hppi] at hcall
      have hnested := (getPpi_finishes_iff env d).mp ⟨calls', e, hcall⟩
      obtain ⟨e', he'⟩ := @getPpi_finishes env d hnested _ (Nat.lt_add_one d.window.len)
      exact ⟨copyTopmost e', by simp [getPacketProt, hppi, GetFun.call, he', Outcome.andThen]⟩
    · obtain ⟨e', he'⟩ := GetFun.call_finished hppi env (getPpi env (d.window.len + 1)) d
      exact ⟨copyTopmost e', by simp [getPacketProt, he', Outcome.andThen]⟩
  obtain ⟨e, he⟩ := hfinishes
  rcases Nat.le_total calls (d.window.len + 1) with hle | hle
  · exact getPacketProt_mono hle h
  · rw [he, ← h, getPacketProt_mono hle he]

/-- Decoding a capture returns exactly when no PPI header announces PPI after zero bytes. -/
theorem getPacketProt_terminates_iff (env : DecodeEnv) (bytes : Nat → UInt8) (caplen : Nat)
    (conversations : Conversations) (pphLkentry : Option Linktype) :
    (∃ calls d, getPacketProt env calls (decodeProtoStart bytes caplen conversations pphLkentry) =
        .finished d) ↔
      (env.lkentry.val.getFun = .getPpi →
        ∀ w, PpiNested (Window.whole bytes caplen) w → ¬EmptyPpiHeader w) := by
  rw [getPacketProt_finishes_iff]
  by_cases hppi : env.lkentry.val.getFun = .getPpi
  · simp only [hppi, forall_const]
    exact getPpi_finishes_iff env _
  · have hfinished := GetFun.call_finished hppi env (getPpi env 0)
      (decodeProtoStart bytes caplen conversations pphLkentry)
    exact iff_of_true ⟨0, hfinished⟩ fun h => absurd h hppi

/-- A PPI header of 64 bytes that announces PPI and is otherwise zero. -/
def ppiInPpi (i : Nat) : UInt8 := if i = 4 then 192 else 0

theorem getPacketProt_ppiInPpi : ¬∃ calls d, getPacketProt
    (DecodeEnv.bare (linktypeAt 9) .ip) calls
      (decodeProtoStart ppiInPpi 64 Conversations.empty none) = .finished d := by
  rw [getPacketProt_finishes_iff]
  rintro ⟨calls, d, h⟩
  have hempty : EmptyPpiHeader (Window.whole ppiInPpi 64) := by
    refine ⟨le_rfl, ?_, ?_⟩ <;> decide
  exact getPpi_unfinished h (.here _) hempty

/-! ### The remembered entry -/

/-- A call of `get_ppi` forgets the entry it was called with, unless the header is too short. -/
theorem getPpi_setPphLkentry (env : DecodeEnv) (calls : Nat) {d : DecodeState}
    (hlen : 64 ≤ d.window.len) (entry : Option Linktype) :
    getPpi env (calls + 1) (d.setPphLkentry entry) = getPpi env (calls + 1) d := by
  have hlen' : ¬(d.setPphLkentry entry).window.len < 64 := not_lt.mpr hlen
  rw [getPpi_succ, getPpi_succ, if_neg hlen', if_neg (not_lt.mpr hlen)]
  rfl

theorem getPpi_of_short (env : DecodeEnv) (calls : Nat) {d : DecodeState}
    (hlen : d.window.len < 64) :
    getPpi env (calls + 1) d = .finished (d.decodeProtoAdd "PPI") := by
  rw [getPpi_succ, if_pos hlen]

/-- The entries that earlier packets left make no difference to a packet whose PPI headers all have
a length. -/
theorem getPpi_cache_transparent (env : DecodeEnv) (d : DecodeState)
    (hlengths : ∀ w, PpiNested d.window w → 64 ≤ w.len → w.u16le 2 ≠ 0)
    (entry entry' : Option Linktype) :
    ∃ enough, ∀ calls ≥ enough, ∃ d₁ d₂,
      getPpi env calls (d.setPphLkentry entry) = .finished d₁ ∧
      getPpi env calls (d.setPphLkentry entry') = .finished d₂ ∧
      d₁.pr = d₂.pr ∧ d₁.srcNodeId = d₂.srcNodeId ∧ d₁.dstNodeId = d₂.dstNodeId ∧
      d₁.globalSrcPort = d₂.globalSrcPort ∧ d₁.globalDstPort = d₂.globalDstPort ∧
      d₁.conversations = d₂.conversations := by
  refine ⟨d.window.len + 1, fun calls hcalls => ?_⟩
  obtain ⟨calls, rfl⟩ := Nat.exists_eq_add_of_lt (Nat.lt_of_succ_le hcalls)
  by_cases hlen : 64 ≤ d.window.len
  · have hnested : ∀ w, PpiNested d.window w → ¬EmptyPpiHeader w :=
      fun w hw hempty => hlengths w hw hempty.1 hempty.2.2
    obtain ⟨d', hd'⟩ := @getPpi_finishes env d hnested (d.window.len + calls + 1) (by omega)
    rw [getPpi_setPphLkentry env _ hlen, getPpi_setPphLkentry env _ hlen, hd']
    exact ⟨d', d', rfl, rfl, rfl, rfl, rfl, rfl, rfl, rfl⟩
  · have hshort : d.window.len < 64 := not_le.mp hlen
    exact ⟨_, _, getPpi_of_short env _ hshort, getPpi_of_short env _ hshort, rfl, rfl, rfl, rfl,
      rfl, rfl⟩

/-- A PPI header of 8 bytes in front of an Ethernet frame. -/
def ppiEthernet (i : Nat) : UInt8 := if i = 2 then 8 else if i = 4 then 1 else 0

theorem getPpi_cache_transparent_ethernet :
    ∃ enough, ∀ calls ≥ enough, ∃ d₁ d₂,
      getPpi (DecodeEnv.bare (linktypeAt 9) .ip) calls
        (decodeProtoStart ppiEthernet 64 Conversations.empty none) = .finished d₁ ∧
      getPpi (DecodeEnv.bare (linktypeAt 9) .ip) calls
        (decodeProtoStart ppiEthernet 64 Conversations.empty (some linktypeEthernet)) =
          .finished d₂ ∧
      d₁.pr = d₂.pr ∧ d₁.conversations = d₂.conversations := by
  have hlengths : ∀ w, PpiNested (Window.whole ppiEthernet 64) w → 64 ≤ w.len → w.u16le 2 ≠ 0 := by
    intro w hw _
    cases hw with
    | here => decide
    | nested _ hdlt _ => exact absurd hdlt (by decide)
  obtain ⟨enough, h⟩ := getPpi_cache_transparent (DecodeEnv.bare (linktypeAt 9) .ip)
    (decodeProtoStart ppiEthernet 64 Conversations.empty none) hlengths none (some linktypeEthernet)
  refine ⟨enough, fun calls hcalls => ?_⟩
  obtain ⟨d₁, d₂, h₁, h₂, hpr, _, _, _, _, hconversations⟩ := h calls hcalls
  exact ⟨d₁, d₂, h₁, h₂, hpr, hconversations⟩

end EtherApe
