import EtherApe.Resolv

/-!
# The cache of hardware names

The name of an address is a function of the files: the first entry that matches in the system file or else
in the personal one, or else the vendor of the first matching prefix, or else the address itself. The table
of names only remembers values of this function, and the file that a lookup leaves open is rewound by the
next, so no call sees the calls before it.
-/

namespace EtherApe.Resolv

open Printf

/-! ### Names as a function of the files -/

def entries (sixBytes : Bool) (content : List UInt8) : List Ether :=
  (content.splitOn 10).filterMap (parseEtherLine sixBytes)

/-- The entries of a file that need not be there. -/
def fileEntries (sixBytes : Bool) (path : Option (List UInt8)) : List Ether :=
  entries sixBytes (path.getD [])

/-- The first entry of the ethers files that matches, the system file first. -/
def ethersName (files : EtherFiles) (addr : EtherAddr) : Option (List UInt8) :=
  (((fileEntries true files.ethers).find? fun eth => addr = eth.addr).or
    ((fileEntries true files.pethers).find? fun eth => addr = eth.addr)).map Ether.name

/-- The vendor of the first entry of the manufacturer file that matches. -/
def vendorName (files : EtherFiles) (addr : EtherAddr) : Option (List UInt8) :=
  ((fileEntries false files.manuf).find? fun eth => eth.addr.manuf = addr.manuf).map
    fun eth => eth.name.take (maxManufLen - 1)

/-- The name when the ethers files have none. -/
def numericName (files : EtherFiles) (addr : EtherAddr) : List UInt8 :=
  match vendorName files addr with
  | none => etherToStr addr.bytes
  | some vendor =>
      vendor ++ lit "_" ++ hexByte addr.a3 ++ lit ":" ++ hexByte addr.a4 ++ lit ":" ++ hexByte addr.a5

def hardwareName (files : EtherFiles) (addr : EtherAddr) (onlyEthers : Bool) : Option (List UInt8) :=
  match ethersName files addr with
  | some name => some name
  | none => if onlyEthers then none else some (numericName files addr)

/-! ### Reading entries -/

/-- Nothing is left to read at the end of a file. -/
def EthFile.Sound (fp : EthFile) : Prop := fp.eof = true → fp.rest = []

theorem entries_nil (sixBytes : Bool) : entries sixBytes [] = [] := by
  cases sixBytes <;> rfl

theorem entries_cons {sixBytes : Bool} {line rest : List UInt8} (h : ∀ b ∈ line, b ≠ 10) :
    entries sixBytes (line ++ 10 :: rest) =
      (parseEtherLine sixBytes line).toList ++ entries sixBytes rest := by
  have hline : ∀ b ∈ line, (b == 10) = false := by
    intro b hb
    simpa using h b hb
  rw [entries, List.splitOn, List.splitOnP_append_cons_of_forall_mem hline 10 (by rfl), List.filterMap_cons]
  cases parseEtherLine sixBytes line <;> rfl

theorem entries_singleton {sixBytes : Bool} {line : List UInt8} (h : ∀ b ∈ line, b ≠ 10) :
    entries sixBytes line = (parseEtherLine sixBytes line).toList := by
  have hline : ∀ b ∈ line, (b == 10) = false := by
    intro b hb
    simpa using h b hb
  rw [entries, List.splitOn, List.splitOnP_eq_singleton hline, List.filterMap_cons]
  cases parseEtherLine sixBytes line <;> rfl

theorem fgetline_none {fp fp' : EthFile} (hfp : fp.Sound) (h : fgetline fp = (fp', none)) (sixBytes : Bool) :
    entries sixBytes fp.rest = [] := by
  have hnil : fp.rest = [] := by
    rw [fgetline] at h
    split at h
    · next heof => exact hfp heof
    have hsplit := @List.takeWhile_append_dropWhile _ (· ≠ (10 : UInt8)) fp.rest
    dsimp only at h
    split at h
    · exact absurd (congrArg Prod.snd h) (Option.some_ne_none _)
    · next hrest =>
      have hline := congrArg Prod.snd h
      dsimp only at hline
      split at hline
      · next hempty => rw [← hsplit, hempty, hrest, List.append_nil]
      · exact absurd hline (Option.some_ne_none _)
  rw [hnil, entries_nil]

theorem fgetline_some {fp fp' : EthFile} {line : List UInt8} (h : fgetline fp = (fp', some line))
    (sixBytes : Bool) :
    entries sixBytes fp.rest = (parseEtherLine sixBytes line).toList ++ entries sixBytes fp'.rest ∧
      fp'.content = fp.content ∧ fp'.Sound := by
  have htake : ∀ b ∈ fp.rest.takeWhile (· ≠ 10), b ≠ 10 := by
    intro b hb
    simpa using List.mem_takeWhile_imp hb
  have hsplit := @List.takeWhile_append_dropWhile _ (· ≠ (10 : UInt8)) fp.rest
  rw [fgetline] at h
  split at h
  · exact absurd (congrArg Prod.snd h) (Option.some_ne_none line).symm
  next heof =>
    dsimp only at h
    split at h
    next b rest hrest =>
      obtain ⟨rfl, hline⟩ := Prod.mk.inj h
      have hb : b = 10 := by
        have hhead := List.head?_dropWhile_not (fun b : UInt8 => decide (b ≠ 10)) fp.rest
        rw [hrest] at hhead
        simpa using hhead
      refine ⟨?_, rfl, fun h => absurd h heof⟩
      conv_lhs => rw [← hsplit, hrest, hb, entries_cons htake]
      rw [Option.some.inj hline]
    next hrest =>
      obtain ⟨rfl, hline⟩ := Prod.mk.inj h
      split at hline
      · exact absurd hline (Option.some_ne_none line).symm
      · refine ⟨?_, rfl, fun _ => rfl⟩
        conv_lhs => rw [← hsplit, hrest, List.append_nil, entries_singleton htake]
        rw [Option.some.inj hline, entries_nil, List.append_nil]

theorem getEthent_none {sixBytes : Bool} {fp fp' : EthFile} (hfp : fp.Sound)
    (h : getEthent sixBytes fp = (fp', none)) : entries sixBytes fp.rest = [] := by
  fun_induction getEthent sixBytes fp with
  | case1 fp fp₁ hline => exact fgetline_none hfp hline sixBytes
  | case2 => exact absurd (congrArg Prod.snd h) (Option.some_ne_none _)
  | case3 fp fp₁ buf hline hparse ih =>
      obtain ⟨hentries, _, hsound⟩ := fgetline_some hline sixBytes
      rw [hentries, hparse, ih hsound h]
      rfl

theorem getEthent_some {sixBytes : Bool} {fp fp' : EthFile} {eth : Ether}
    (h : getEthent sixBytes fp = (fp', some eth)) :
    entries sixBytes fp.rest = eth :: entries sixBytes fp'.rest ∧ fp'.content = fp.content ∧ fp'.Sound := by
  fun_induction getEthent sixBytes fp with
  | case1 => exact absurd (congrArg Prod.snd h) (Option.some_ne_none eth).symm
  | case2 fp fp₁ buf hline eth₁ hparse =>
      obtain ⟨rfl, heth⟩ := Prod.mk.inj h
      obtain ⟨hentries, hcontent, hsound⟩ := fgetline_some hline sixBytes
      rw [hparse, Option.some.inj heth] at hentries
      exact ⟨hentries, hcontent, hsound⟩
  | case3 fp fp₁ buf hline hparse ih =>
      obtain ⟨hentries, hcontent, _⟩ := fgetline_some hline sixBytes
      rw [hparse] at hentries
      rw [hentries, ← hcontent]
      exact ih h

theorem searchEthent_spec (addr : EtherAddr) {fp : EthFile} (hfp : fp.Sound) :
    (searchEthent addr fp).2 = ((entries true fp.rest).find? fun eth => addr = eth.addr) ∧
      ((searchEthent addr fp).2 ≠ none → (searchEthent addr fp).1.content = fp.content) := by
  fun_induction searchEthent addr fp with
  | case1 fp fp' hnone =>
      rw [getEthent_none hfp hnone]
      exact ⟨rfl, fun h => absurd rfl h⟩
  | case2 fp fp' eth hread haddr =>
      obtain ⟨hentries, hcontent, _⟩ := getEthent_some hread
      rw [hentries, List.find?_cons_of_pos (by simpa using haddr)]
      exact ⟨rfl, fun _ => hcontent⟩
  | case3 fp fp' eth hread haddr ih =>
      obtain ⟨hentries, hcontent, hsound⟩ := getEthent_some hread
      rw [hentries, List.find?_cons_of_neg (by simpa using haddr), ← hcontent]
      exact ih hsound

theorem loadManuf_eq {fp : EthFile} (hfp : fp.Sound) (table : ManufTable) :
    loadManuf fp table = (entries false fp.rest).foldl addManufName table := by
  fun_induction loadManuf fp table with
  | case1 fp table fp' hnone =>
      rw [getEthent_none hfp hnone]
      rfl
  | case2 fp table fp' eth hread ih =>
      obtain ⟨hentries, _, hsound⟩ := getEthent_some hread
      rw [hentries, List.foldl_cons]
      exact ih hsound

/-! ### Open files -/

/-- What is open, if anything is, is the given file. -/
def OpenOn (path : Option (List UInt8)) (ethP : Option EthFile) : Prop :=
  ∀ fp, ethP = some fp → path = some fp.content

theorem OpenOn.none (path : Option (List UInt8)) : OpenOn path none := fun fp hfp =>
  absurd hfp (Option.some_ne_none fp).symm

theorem sound_fopen (content : List UInt8) : (EthFile.fopen content).Sound := fun h =>
  absurd h Bool.false_ne_true

theorem searchOpen_fopen (addr : EtherAddr) (path : Option (List UInt8)) :
    (searchOpen addr (path.map EthFile.fopen)).2 =
        ((fileEntries true path).find? fun eth => addr = eth.addr) ∧
      ((searchOpen addr (path.map EthFile.fopen)).2 ≠ none →
        OpenOn path (searchOpen addr (path.map EthFile.fopen)).1) := by
  cases path with
  | none => exact ⟨rfl, fun h => absurd rfl h⟩
  | some content =>
      obtain ⟨hfound, hcontent⟩ := searchEthent_spec addr (sound_fopen content)
      refine ⟨hfound, fun h fp hfp => ?_⟩
      rw [← Option.some.inj hfp, hcontent h]
      rfl

/-- Rewinding what is open leaves what opening it would. -/
theorem setEthent_of_openOn {path : Option (List UInt8)} {ethP : Option EthFile} (h : OpenOn path ethP) :
    setEthent path ethP = path.map EthFile.fopen := by
  cases ethP with
  | none => rfl
  | some fp =>
      rw [h fp rfl]
      rfl

/-- A lookup finds the first entry of both files, and leaves the system file open or none. -/
theorem getEthbyaddr_spec {files : EtherFiles} (addr : EtherAddr) {ethP : Option EthFile}
    (h : OpenOn files.ethers ethP) :
    (getEthbyaddr files addr ethP).2.map Ether.name = ethersName files addr ∧
      OpenOn files.ethers (getEthbyaddr files addr ethP).1 := by
  obtain ⟨hsystem, hopen⟩ := searchOpen_fopen addr files.ethers
  obtain ⟨hpersonal, _⟩ := searchOpen_fopen addr files.pethers
  rw [getEthbyaddr, setEthent_of_openOn h, ethersName, ← hsystem, ← hpersonal]
  rcases hopened : searchOpen addr (files.ethers.map EthFile.fopen) with ⟨ethP', eth⟩
  rw [hopened] at hopen
  cases eth with
  | some eth => exact ⟨rfl, hopen (Option.some_ne_none eth)⟩
  | none => exact ⟨rfl, OpenOn.none files.ethers⟩

/-! ### The tables -/

theorem hexByte_length (b : UInt8) : (hexByte b).length = 2 := by
  have hall : ∀ n < 256, (padded 2 (hex n)).length = 2 := by decide +kernel
  exact hall b.toNat b.toNat_lt

theorem vendorName_length {files : EtherFiles} {addr : EtherAddr} {vendor : List UInt8}
    (h : vendorName files addr = some vendor) : vendor.length ≤ 8 := by
  rw [vendorName, Option.map_eq_some_iff] at h
  obtain ⟨eth, _, rfl⟩ := h
  rw [List.length_take]
  exact Nat.min_le_left _ _

/-- The entry of the ethers files is already cut to the length of a name. -/
theorem parseEtherLine_name {sixBytes : Bool} {buf : List UInt8} {eth : Ether}
    (h : parseEtherLine sixBytes buf = some eth) : safeStrncpy [] eth.name maxNameLen = eth.name := by
  unfold parseEtherLine at h
  dsimp only at h
  split at h
  · exact absurd h (Option.some_ne_none eth).symm
  · split at h
    · exact absurd h (Option.some_ne_none eth).symm
    · split at h
      · exact absurd h (Option.some_ne_none eth).symm
      · rw [← Option.some.inj h]
        exact List.take_take.trans (by rfl)

theorem fileEntries_name {path : Option (List UInt8)} {eth : Ether} (h : eth ∈ fileEntries true path) :
    safeStrncpy [] eth.name maxNameLen = eth.name := by
  obtain ⟨buf, _, hparse⟩ := List.mem_filterMap.mp h
  exact parseEtherLine_name hparse

theorem ethersName_cut {files : EtherFiles} {addr : EtherAddr} {name : List UInt8}
    (h : ethersName files addr = some name) : safeStrncpy [] name maxNameLen = name := by
  rw [ethersName, Option.map_eq_some_iff] at h
  obtain ⟨eth, hfound, rfl⟩ := h
  rw [Option.or_eq_some_iff] at hfound
  rcases hfound with hsystem | ⟨_, hpersonal⟩
  · exact fileEntries_name (List.mem_of_find?_eq_some hsystem)
  · exact fileEntries_name (List.mem_of_find?_eq_some hpersonal)

theorem numericName_length (files : EtherFiles) (addr : EtherAddr) :
    (numericName files addr).length ≤ maxNameLen - 1 := by
  have hbyte : ∀ b : UInt8, (padded 2 (hex b.toNat)).length = 2 := hexByte_length
  have hcolon : (lit ":").length = 1 := rfl
  have hunderscore : (lit "_").length = 1 := rfl
  rw [numericName]
  cases hvendor : vendorName files addr with
  | none =>
      simp [etherToStr, separated, EtherAddr.bytes, hbyte, hcolon, maxNameLen]
  | some vendor =>
      have hlength := vendorName_length hvendor
      simp only [hexByte, List.length_append, hbyte, hcolon, hunderscore, maxNameLen]
      omega

theorem manufNameLookup_load (content : List UInt8) (addr : EtherAddr) :
    (manufNameLookup (loadManuf (EthFile.fopen content) Chains.empty) addr).map HashManuf.name =
      ((entries false content).find? fun eth => eth.addr.manuf = addr.manuf).map
        fun eth => eth.name.take (maxManufLen - 1) := by
  have hload : loadManuf (EthFile.fopen content) Chains.empty =
      ((entries false content).map fun eth =>
        (⟨eth.addr.manuf, safeStrncpy [] eth.name maxManufLen⟩ : HashManuf)).foldl
          (Chains.add HashManuf.addr manufHash) Chains.empty := by
    rw [loadManuf_eq (sound_fopen content), List.foldl_map]
    rfl
  rw [manufNameLookup, hload, Chains.lookup_foldl_add, Chains.lookup_empty, Option.none_or, List.find?_map,
    Option.map_map]
  rfl

/-! ### Answers -/

/-- What the table remembers of an address. -/
def cachedName (files : EtherFiles) (addr : EtherAddr) : List UInt8 × Bool :=
  match ethersName files addr with
  | some name => (name, true)
  | none => (numericName files addr, false)

/-- What a record holds besides its address. -/
def HashEther.cached (tp : HashEther) : List UInt8 × Bool := (tp.name, tp.isNameFromFile)

theorem answer_of_cached {files : EtherFiles} {addr : EtherAddr} {tp : HashEther}
    (h : tp.cached = cachedName files addr) (onlyEthers : Bool) :
    tp.answer onlyEthers = hardwareName files addr onlyEthers := by
  rw [cachedName] at h
  rw [hardwareName, HashEther.answer]
  cases hname : ethersName files addr with
  | some name =>
      rw [hname] at h
      obtain ⟨hstored, hfile⟩ := Prod.mk.inj h
      rw [hstored, hfile, Bool.or_true, if_pos rfl]
  | none =>
      rw [hname] at h
      obtain ⟨hstored, hfile⟩ := Prod.mk.inj h
      rw [hstored, hfile]
      cases onlyEthers <;> rfl

/-- The state between calls. -/
structure Transparent (files : EtherFiles) (s : EthResolution) : Prop where
  opened : OpenOn files.ethers s.ethP
  vendors : ∀ addr, (manufNameLookup s.manufTable addr).map HashManuf.name = vendorName files addr
  names : Chains.Caches HashEther.addr ethHash HashEther.cached (cachedName files) s.ethTable
  initialized : s.initialized = true

theorem newEther_cached {files : EtherFiles} {s : EthResolution} {addr : EtherAddr} {eth : Option Ether}
    (hvendors : (manufNameLookup s.manufTable addr).map HashManuf.name = vendorName files addr)
    (heth : eth.map Ether.name = ethersName files addr) :
    (newEther s addr eth).cached = cachedName files addr := by
  rw [cachedName, ← heth]
  cases eth with
  | some eth => exact Prod.ext (ethersName_cut heth.symm) rfl
  | none =>
      have hlength := numericName_length files addr
      have hcut : snprintf maxNameLen (numericName files addr) = numericName files addr :=
        List.take_of_length_le hlength
      rw [Option.map_none]
      dsimp only
      rw [← hcut, numericName, ← hvendors]
      unfold newEther
      cases manufNameLookup s.manufTable addr <;> rfl

theorem newEther_addr (s : EthResolution) (addr : EtherAddr) (eth : Option Ether) :
    (newEther s addr eth).addr = addr := by
  unfold newEther
  cases eth with
  | some eth => rfl
  | none => cases manufNameLookup s.manufTable addr <;> rfl

/-- A lookup answers with the name of the files and leaves the state as transparent as it was. -/
theorem Transparent.lookup {files : EtherFiles} {s : EthResolution} (h : Transparent files s)
    (addr : EtherAddr) (onlyEthers : Bool) :
    (ethNameLookup files addr onlyEthers s).2 = hardwareName files addr onlyEthers ∧
      Transparent files (ethNameLookup files addr onlyEthers s).1 := by
  rw [ethNameLookup]
  cases hfound : Chains.lookup HashEther.addr ethHash s.ethTable addr with
  | some tp => exact ⟨answer_of_cached (h.names addr tp hfound) onlyEthers, h⟩
  | none =>
      obtain ⟨hname, hopened⟩ := getEthbyaddr_spec addr h.opened
      have hcached := newEther_cached (h.vendors addr) hname
      refine ⟨answer_of_cached hcached onlyEthers, hopened, h.vendors, ?_, h.initialized⟩
      apply h.names.add
      rw [newEther_addr]
      exact hcached

theorem initializeEthers_transparent (files : EtherFiles) :
    Transparent files { initializeEthers files EthResolution.initial with initialized := true } := by
  rw [initializeEthers]
  cases hmanuf : files.manuf with
  | none =>
      refine ⟨OpenOn.none files.ethers, fun addr => ?_, ?_, rfl⟩
      · rw [vendorName, hmanuf]
        rfl
      · exact Chains.Caches.empty HashEther.addr ethHash HashEther.cached (cachedName files)
  | some content =>
      refine ⟨OpenOn.none files.ethers, fun addr => ?_, ?_, rfl⟩
      · rw [vendorName, hmanuf]
        exact manufNameLookup_load content addr
      · exact Chains.Caches.empty HashEther.addr ethHash HashEther.cached (cachedName files)

def answers (files : EtherFiles) : List (EtherAddr × Bool) → EthResolution → List (Option (List UInt8))
  | [], _ => []
  | call :: calls, s =>
      (getEtherName files call.1 call.2 s).2 :: answers files calls (getEtherName files call.1 call.2 s).1

theorem getEtherName_initial (files : EtherFiles) (addr : EtherAddr) (onlyEthers : Bool) :
    (getEtherName files addr onlyEthers EthResolution.initial).2 = hardwareName files addr onlyEthers ∧
      Transparent files (getEtherName files addr onlyEthers EthResolution.initial).1 :=
  (initializeEthers_transparent files).lookup addr onlyEthers

theorem Transparent.getEtherName {files : EtherFiles} {s : EthResolution} (h : Transparent files s)
    (addr : EtherAddr) (onlyEthers : Bool) :
    (getEtherName files addr onlyEthers s).2 = hardwareName files addr onlyEthers ∧
      Transparent files (getEtherName files addr onlyEthers s).1 := by
  rw [Resolv.getEtherName, if_pos h.initialized]
  exact h.lookup addr onlyEthers

theorem Transparent.answers {files : EtherFiles} {s : EthResolution} (h : Transparent files s)
    (calls : List (EtherAddr × Bool)) :
    answers files calls s = calls.map fun call => hardwareName files call.1 call.2 := by
  induction calls generalizing s with
  | nil => rfl
  | cons call calls ih =>
      obtain ⟨hanswer, hnext⟩ := h.getEtherName call.1 call.2
      rw [Resolv.answers, hanswer, ih hnext]
      rfl

/-- Every call is answered as the first call would be, with the name that the files give the address. -/
theorem answers_transparent (files : EtherFiles) (calls : List (EtherAddr × Bool)) :
    answers files calls EthResolution.initial =
        (calls.map fun call => (getEtherName files call.1 call.2 EthResolution.initial).2) ∧
      ∀ addr onlyEthers, (getEtherName files addr onlyEthers EthResolution.initial).2 =
        hardwareName files addr onlyEthers := by
  have hfirst : ∀ addr onlyEthers, (getEtherName files addr onlyEthers EthResolution.initial).2 =
      hardwareName files addr onlyEthers := fun addr onlyEthers =>
    (getEtherName_initial files addr onlyEthers).1
  refine ⟨?_, hfirst⟩
  simp only [hfirst]
  cases calls with
  | nil => rfl
  | cons call calls =>
      obtain ⟨hanswer, hnext⟩ := getEtherName_initial files call.1 call.2
      rw [answers, hanswer, hnext.answers calls]
      rfl

end EtherApe.Resolv
