import EtherApe.DecodeProto.Layers

/-!
# Framings of an IP packet

The link headers in front of an IP header give it one of a few sequences of names, since SNAP, Radiotap and
PPI headers have none. All of them look into the same captured bytes.
-/

namespace EtherApe

/-- The names that link headers give to what is in front of IP. -/
def framings : List (List String) :=
  [[], ["ETH_II"], ["802.3"], ["802.3", "LLC"], ["802.1Q", "ETH_II"], ["802.1Q", "802.3"],
    ["802.1Q", "802.3", "LLC"], ["FDDI", "LLC"], ["Token Ring", "LLC"], ["NULL"], ["LOOP"],
    ["LINUX-SLL"], ["IEE802.11"], ["IEE802.11", "LLC"]]

namespace Handover

/-- From `o` on one of the given sequences of names was added, in front of the same bytes. -/
structure Framed (suffixes : List (List String)) (o o' : Handover) : Prop where
  names : ∃ suffix ∈ suffixes, o'.names = o.names ++ suffix
  bytes : o'.window.bytes = o.window.bytes

variable {suffixes suffixes' : List (List String)} {o o' : Handover}

namespace Framed

theorem refl (hmem : [] ∈ suffixes) : Framed suffixes o o :=
  ⟨⟨[], hmem, (List.append_nil _).symm⟩, rfl⟩

theorem mono (h : Framed suffixes o o') (hsub : ∀ suffix ∈ suffixes, suffix ∈ suffixes') :
    Framed suffixes' o o' := by
  obtain ⟨suffix, hmem, hnames⟩ := h.names
  exact ⟨⟨suffix, hsub suffix hmem, hnames⟩, h.bytes⟩

theorem of_skip {n : Nat} (h : Framed suffixes (o.skip n) o') : Framed suffixes o o' :=
  ⟨h.names, h.bytes.trans (Window.advance_bytes _ _)⟩

theorem of_addMacs {dstofs srcofs : Nat} (h : Framed suffixes (o.addMacs dstofs srcofs) o') :
    Framed suffixes o o' := ⟨h.names, h.bytes⟩

theorem of_addName {name : String} (h : Framed suffixes (o.addName name) o') :
    Framed (suffixes.map (name :: ·)) o o' := by
  obtain ⟨suffix, hmem, hnames⟩ := h.names
  refine ⟨⟨name :: suffix, List.mem_map_of_mem hmem, ?_⟩, h.bytes⟩
  rw [hnames, List.append_cons]
  rfl

end Framed

/-! ### Link headers -/

theorem ethII_framed {etype : Nat} (h : o.ethII etype = some o') : Framed [[]] o o' := by
  unfold ethII at h
  split at h
  · cases h
    exact .refl (List.mem_singleton_self _)
  · cases h

theorem llc_framed (h : o.llc = some o') : Framed [[], ["LLC"]] o o' := by
  unfold llc at h
  split at h
  · cases h
  · split at h
    · exact (ethII_framed h).of_skip.mono (by decide)
    · split at h
      · cases h
        have hskip : Framed [[]] (o.addName "LLC") ((o.addName "LLC").skip 3) :=
          .of_skip (.refl (List.mem_singleton_self _))
        exact hskip.of_addName.mono (by decide)
      · cases h

theorem ethTypeAt_framed {sizeOffset ethsize : Nat} (h : o.ethTypeAt sizeOffset ethsize = some o') :
    Framed [["ETH_II"], ["802.3"], ["802.3", "LLC"]] o o' := by
  unfold ethTypeAt at h
  split at h
  · split at h
    · cases h
    · exact (llc_framed h).of_addName.of_skip.of_addMacs.mono (by decide)
  · exact (ethII_framed h).of_addName.of_skip.of_addMacs.mono (by decide)

theorem ethType_framed (h : o.ethType = some o') : Framed framings o o' := by
  unfold ethType at h
  split at h
  · cases h
  · split at h
    · exact (ethTypeAt_framed h).of_addName.mono (by decide)
    · exact (ethTypeAt_framed h).mono (by decide)

theorem fddi_framed (h : o.fddi = some o') : Framed framings o o' := by
  unfold fddi at h
  split at h
  · cases h
  · split at h
    · cases h
      exact ⟨⟨["FDDI", "LLC"], by decide, List.append_assoc _ _ _⟩, Window.advance_bytes _ _⟩
    · cases h

theorem tokenRing_framed (h : o.tokenRing = some o') : Framed framings o o' := by
  unfold tokenRing at h
  split at h
  · cases h
  · split at h
    · cases h
      exact ⟨⟨["Token Ring", "LLC"], by decide, List.append_assoc _ _ _⟩, Window.advance_bytes _ _⟩
    · cases h

theorem loop_framed {label : String} (hlabel : label = "NULL" ∨ label = "LOOP")
    (h : o.loop label = some o') : Framed framings o o' := by
  cases h
  refine ⟨⟨[label], ?_, rfl⟩, Window.advance_bytes _ _⟩
  rcases hlabel with rfl | rfl
  · decide
  · decide

theorem linuxSll_framed (h : o.linuxSll = some o') : Framed framings o o' :=
  (ethII_framed h).of_skip.of_addName.mono (by decide)

theorem wlan_framed (h : o.wlan = some o') : Framed framings o o' := by
  unfold wlan at h
  split at h
  · cases h
  · unfold wlanAddrs at h
    split at h
    · cases h
    · have hdata := llc_framed h
      have hframe : Framed [[], ["LLC"]] (o.addName "IEE802.11") o' := by
        split at hdata
        · exact hdata.of_skip.of_skip.of_addMacs
        · exact hdata.of_skip.of_addMacs
      exact hframe.of_addName.mono (by decide)

theorem radiotap_framed (h : o.radiotap = some o') : Framed framings o o' := by
  unfold radiotap at h
  split at h
  · cases h
  · exact (wlan_framed h).of_skip

/-! ### Dispatch -/

theorem call_framed {label : String} (hlabel : label = "NULL" ∨ label = "LOOP")
    {ppi : Handover → Option Handover}
    (hppi : ∀ o o', ppi o = some o' → Framed framings o o') (f : GetFun)
    (h : o.call label ppi f = some o') : Framed framings o o' := by
  cases f with
  | getEthType => exact ethType_framed h
  | getIp =>
      cases h
      exact .refl (by decide)
  | getLinuxSll => exact linuxSll_framed h
  | getLoop => exact loop_framed hlabel h
  | getFddiType => exact fddi_framed h
  | getIeee8025Type => exact tokenRing_framed h
  | getWlan => exact wlan_framed h
  | getRadiotap => exact radiotap_framed h
  | getPpi => exact hppi o o' h

theorem ppi_framed {label : String} (hlabel : label = "NULL" ∨ label = "LOOP") (calls : Nat)
    (h : ppi label calls o = some o') : Framed framings o o' := by
  induction calls generalizing o o' with
  | zero => cases h
  | succ calls ih =>
      unfold ppi at h
      split at h
      · cases h
      · split at h
        · exact (call_framed hlabel (fun _ _ => ih) _ h).of_skip
        · cases h

end Handover

/-- What is handed to IP of a captured packet comes in one of the framings. -/
theorem packetHandover_framed {env : DecodeEnv} {calls : Nat} {bytes : Nat → UInt8} {caplen : Nat}
    {o : Handover} (h : packetHandover env calls bytes caplen = some o) :
    o.names ∈ framings ∧ o.window.bytes = bytes := by
  have hlabel : loopLabel env = "NULL" ∨ loopLabel env = "LOOP" := by
    unfold loopLabel
    split
    · exact Or.inr rfl
    · exact Or.inl rfl
  obtain ⟨⟨suffix, hmem, hnames⟩, hbytes⟩ := Handover.call_framed hlabel
    (fun _ _ => Handover.ppi_framed hlabel calls) _ h
  exact ⟨hnames ▸ hmem, hbytes⟩

end EtherApe
