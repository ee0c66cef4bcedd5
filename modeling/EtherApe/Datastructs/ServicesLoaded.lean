import EtherApe.Datastructs.ServicesFile

/-!
# The services that are loaded

What `services_init` makes of a whole file: `fgets` hands over the lines, the trees by port hold the
services, and the tree by name is filled from both.
-/

namespace EtherApe.Services

open Printf CInt

/-! ### From bytes to lines -/

theorem fgets_line {line : List UInt8} {n : Nat} (hline : 10 ∉ line) (hshort : line.length < n)
    (rest : List UInt8) : fgets n (line ++ 10 :: rest) = (line ++ [10], rest) := by
  induction line generalizing n with
  | nil =>
      obtain ⟨n, rfl⟩ := Nat.exists_eq_add_of_lt hshort
      rfl
  | cons b line ih =>
      rw [List.length_cons] at hshort
      obtain ⟨n, rfl⟩ : ∃ m, n = m + 1 := ⟨n - 1, by omega⟩
      rw [List.mem_cons, not_or] at hline
      rw [List.cons_append, fgets, if_neg (Ne.symm hline.1), ih hline.2 (by omega)]
      rfl

/-- Without room for its newline a line is read alone. -/
theorem fgets_full {line : List UInt8} (hline : 10 ∉ line) (rest : List UInt8) :
    fgets line.length (line ++ rest) = (line, rest) := by
  induction line with
  | nil => cases rest <;> rfl
  | cons b line ih =>
      rw [List.mem_cons, not_or] at hline
      rw [List.length_cons, List.cons_append, fgets, if_neg (Ne.symm hline.1), ih hline.2]

theorem fgets_last {line : List UInt8} {n : Nat} (hline : 10 ∉ line) (hshort : line.length ≤ n) :
    fgets n line = (line, []) := by
  induction line generalizing n with
  | nil => cases n <;> rfl
  | cons b line ih =>
      rw [List.length_cons] at hshort
      obtain ⟨n, rfl⟩ : ∃ m, n = m + 1 := ⟨n - 1, by omega⟩
      rw [List.mem_cons, not_or] at hline
      rw [fgets, if_neg (Ne.symm hline.1), ih hline.2 (by omega)]

theorem readLine_nil (s : Loading) : readLine s [] = s := rfl

theorem readLine_newline (s : Loading) (line : List UInt8) (hline : 10 ∉ line) :
    readLine s (line ++ [10]) = readLine s line := by
  by_cases hne : line = []
  · rw [hne]
    rfl
  obtain ⟨b, rest, rfl⟩ := List.exists_cons_of_ne_nil hne
  have hskipped : Skipped (b :: rest ++ [10]) ↔ Skipped (b :: rest) := Iff.rfl
  by_cases hparsed : Skipped (b :: rest)
  · rw [readLine, if_pos (hskipped.mpr hparsed), readLine, if_pos hparsed]
  have hreads : ∀ e, ReadAs s.portNumber (b :: rest ++ [10]) e ↔ ReadAs s.portNumber (b :: rest) e := by
    intro e
    constructor
    · rintro ⟨_, hscanned⟩
      rw [fields_newline] at hscanned
      exact ⟨hparsed, hscanned⟩
    · rintro ⟨_, hscanned⟩
      rw [← fields_newline] at hscanned
      exact ⟨mt hskipped.mp hparsed, hscanned⟩
  by_cases hread : ∃ e, ReadAs s.portNumber (b :: rest) e
  · obtain ⟨e, he⟩ := hread
    rw [(readLine_of_readAs he).1, (readLine_of_readAs ((hreads e).mpr he)).1]
  · have hnone := not_exists.mp hread
    rw [readLine_of_not_readAs hnone, readLine_of_not_readAs fun e he => hnone e ((hreads e).mp he),
      scannedIn, scannedIn, fields_newline]
    rfl

theorem fgetsAll_of_ne_nil {file : List UInt8} (h : file ≠ []) :
    fgetsAll file = (fgets (lineSize - 1) file).1 :: fgetsAll (fgets (lineSize - 1) file).2 := by
  rw [fgetsAll, dif_neg h]

theorem fgetsAll_nil : fgetsAll [] = [] := by
  rw [fgetsAll, dif_pos rfl]

/-- A terminated line has the effect of its bytes, also when its newline is read alone. -/
theorem foldl_fgetsAll_line (s : Loading) {line : List UInt8} (hline : 10 ∉ line)
    (hshort : line.length < lineSize) (rest : List UInt8) :
    (fgetsAll (line ++ 10 :: rest)).foldl readLine s = (fgetsAll rest).foldl readLine (readLine s line) := by
  have hne : line ++ 10 :: rest ≠ [] := List.append_ne_nil_of_right_ne_nil _ (List.cons_ne_nil _ _)
  rcases Nat.lt_or_eq_of_le (Nat.le_sub_one_of_lt hshort) with hroom | hfull
  · rw [fgetsAll_of_ne_nil hne, fgets_line hline hroom, List.foldl_cons, readLine_newline s line hline]
  · have hnewline : fgets (lineSize - 1) (10 :: rest) = ([10], rest) := rfl
    rw [fgetsAll_of_ne_nil hne, ← hfull, fgets_full hline, List.foldl_cons,
      fgetsAll_of_ne_nil (List.cons_ne_nil _ _), hnewline, List.foldl_cons]
    rfl

theorem foldl_fgetsAll_last (s : Loading) {line : List UInt8} (hline : 10 ∉ line)
    (hshort : line.length < lineSize) : (fgetsAll line).foldl readLine s = readLine s line := by
  by_cases hne : line = []
  · rw [hne, fgetsAll_nil, readLine_nil]
    rfl
  · rw [fgetsAll_of_ne_nil hne, fgets_last hline (Nat.le_sub_one_of_lt hshort), fgetsAll_nil]
    rfl

theorem foldl_fgetsAll (s : Loading) {lines : List (List UInt8)} {last : List UInt8}
    (hline : ∀ line ∈ lines ++ [last], 10 ∉ line)
    (hshort : ∀ line ∈ lines ++ [last], line.length < lineSize) :
    (fgetsAll (joinLines lines ++ last)).foldl readLine s = (lines ++ [last]).foldl readLine s := by
  induction lines generalizing s with
  | nil =>
      exact foldl_fgetsAll_last s (hline last List.mem_cons_self) (hshort last List.mem_cons_self)
  | cons line lines ih =>
      rw [List.cons_append, List.forall_mem_cons] at hline hshort
      have hjoined : joinLines (line :: lines) ++ last = line ++ 10 :: (joinLines lines ++ last) := by
        simp [joinLines]
      rw [hjoined, foldl_fgetsAll_line s hline.1 hshort.1, ih _ hline.2 hshort.2, List.cons_append,
        List.foldl_cons]

section Files

variable {uninit : UInt16}

theorem readFile_bytes (file : ServicesFile) : readFile uninit file.bytes = readLines uninit file.lines :=
  foldl_fgetsAll _ (fun line hline hmem => (file.ascii line hline 10 hmem).2.1 rfl) file.short

theorem readFile_joinLines {file : ServicesFile} {before after : List (List UInt8)}
    (h : file.lines = before ++ after) : readFile uninit (joinLines before) = readLines uninit before := by
  have hlines : ∀ line ∈ before ++ [[]], line ∈ file.lines ∨ line = [] := by
    intro line hmem
    rcases List.mem_append.mp hmem with hmem | hmem
    · rw [h]
      exact Or.inl (List.mem_append_left _ hmem)
    · exact Or.inr (List.mem_singleton.mp hmem)
  have hread := @foldl_fgetsAll (Loading.initial uninit) before [] ?_ ?_
  · rw [List.append_nil, List.foldl_concat, readLine_nil] at hread
    exact hread
  · intro line hmem
    rcases hlines line hmem with hline | rfl
    · exact fun hten => (file.ascii line hline 10 hten).2.1 rfl
    · exact List.not_mem_nil
  · intro line hmem
    rcases hlines line hmem with hline | rfl
    · exact file.short line hline
    · decide

end Files

/-! ### The tree by name -/

/-- The tree by name when some services have been visited. -/
def fillNames (names : SortedTree servicesNameCmp PortService) (svcs : List PortService) :
    SortedTree servicesNameCmp PortService :=
  svcs.foldl (fun names svc => names.insert svc.name (PortService.create svc.port svc.name)) names

section Names

variable {names : SortedTree servicesNameCmp PortService} {svcs : List PortService}

theorem fillNames_concat (svc : PortService) (name : List UInt8) :
    (fillNames names (svcs ++ [svc])).lookup name =
      if servicesNameCmp svc.name name = 0 then some (PortService.create svc.port svc.name)
      else (fillNames names svcs).lookup name := by
  rw [fillNames, List.foldl_concat, SortedTree.lookup_insert_eq]
  rfl

theorem of_fillNames_lookup {name : List UInt8} {found : PortService}
    (h : (fillNames SortedTree.empty svcs).lookup name = some found) :
    ∃ svc ∈ svcs, found = PortService.create svc.port svc.name ∧ servicesNameCmp svc.name name = 0 := by
  induction svcs using List.reverseRecOn with
  | nil => exact absurd h (by rw [fillNames, List.foldl_nil, SortedTree.lookup_empty]; simp)
  | append_singleton svcs svc ih =>
      rw [fillNames_concat] at h
      split at h
      next hname => exact ⟨svc, by simp, (Option.some.inj h).symm, hname⟩
      next =>
        obtain ⟨other, hmem, hfound⟩ := ih h
        exact ⟨other, List.mem_append_left _ hmem, hfound⟩

theorem exists_fillNames_lookup {svc : PortService} {name : List UInt8} (hmem : svc ∈ svcs)
    (hname : servicesNameCmp svc.name name = 0) : ∃ found, (fillNames names svcs).lookup name = some found := by
  induction svcs using List.reverseRecOn with
  | nil => exact absurd hmem List.not_mem_nil
  | append_singleton svcs last ih =>
      rw [fillNames_concat]
      split
      · exact ⟨_, rfl⟩
      next hother =>
        rcases List.mem_append.mp hmem with hmem | hmem
        · exact ih hmem
        · rw [← List.mem_singleton.mp hmem] at hother
          exact absurd hname hother

end Names

/-! ### The loaded trees -/

def servicesFind (trees : ServiceTrees) (transport : Transport) (port : UInt16) : Option PortService :=
  match transport with
  | .tcp => servicesTcpFind trees port
  | .udp => servicesUdpFind trees port

section Loaded

variable (isPreferred : List UInt8 → Bool) (uninit : UInt16) (file : List UInt8)

theorem servicesPrefTrv_lookup (services : SortedTree servicesPortCmp PortService) (port : UInt16) :
    (servicesPrefTrv isPreferred services).lookup port =
      (services.lookup port).map fun svc => { svc with preferred := isPreferred svc.name } := by
  apply SortedTree.lookup_traverse
  intro _ _ svc
  rfl

theorem servicesFind_init (transport : Transport) (port : UInt16) :
    servicesFind (servicesInit isPreferred uninit file) transport port =
      (((readFile uninit file).services transport).lookup port).map
        fun svc => { svc with preferred := isPreferred svc.name } := by
  cases transport <;> exact servicesPrefTrv_lookup isPreferred _ port

theorem servicesInit_serviceNames :
    (servicesInit isPreferred uninit file).serviceNames =
      fillNames SortedTree.empty
        ((readFile uninit file).udpServices.values ++ (readFile uninit file).tcpServices.values) := by
  rw [fillNames, List.foldl_append]
  rfl

end Loaded

/-- What `services_init` is to make of a file. -/
structure ServicesLoaded (isPreferred : List UInt8 → Bool) (uninit : UInt16) (file : ServicesFile) :
    Prop where
  unchanged : ∀ before line after, file.lines = before ++ line :: after → (∀ e, ¬Accepted line e) →
    ∀ transport, (readFile uninit (joinLines (before ++ [line]))).services transport =
      (readFile uninit (joinLines before)).services transport
  mapped : ∀ transport port name,
    (servicesFind (servicesInit isPreferred uninit file.bytes) transport port).map PortService.name =
      some name ↔ LastAccepted file.lines ⟨transport, port, name⟩
  named : ∀ name, servicesPortFind (servicesInit isPreferred uninit file.bytes) name ≠ none ↔
    ∃ transport port svc,
      servicesFind (servicesInit isPreferred uninit file.bytes) transport port = some svc ∧
        svc.name.map gAsciiTolower = name.map gAsciiTolower
  registered : ∀ name found,
    servicesPortFind (servicesInit isPreferred uninit file.bytes) name = some found →
      ∃ transport svc,
        servicesFind (servicesInit isPreferred uninit file.bytes) transport found.port = some svc ∧
          svc.name.map gAsciiTolower = name.map gAsciiTolower

section Files

variable (isPreferred : List UInt8 → Bool) {uninit : UInt16} {file : ServicesFile}

theorem unchanged_iff :
    (∀ before line after, file.lines = before ++ line :: after → (∀ e, ¬Accepted line e) →
      ∀ transport, (readFile uninit (joinLines (before ++ [line]))).services transport =
        (readFile uninit (joinLines before)).services transport) ↔ Undisturbed uninit file.lines := by
  have hreads : ∀ before line after, file.lines = before ++ line :: after →
      readFile uninit (joinLines (before ++ [line])) = readLines uninit (before ++ [line]) ∧
        readFile uninit (joinLines before) = readLines uninit before := by
    intro before line after hsplit
    have hlines : file.lines = (before ++ [line]) ++ after := by
      rw [hsplit]
      simp
    exact ⟨readFile_joinLines hlines, readFile_joinLines hsplit⟩
  constructor
  · intro h before line after hsplit hnone transport
    rw [← (hreads before line after hsplit).1, ← (hreads before line after hsplit).2]
    exact h before line after hsplit hnone transport
  · intro h before line after hsplit hnone transport
    rw [(hreads before line after hsplit).1, (hreads before line after hsplit).2]
    exact h before line after hsplit hnone transport

/-- Every service is stored under its own port, misread or not. -/
theorem readLines_ownPort {lines : List (List UInt8)} {transport : Transport} {port : UInt16}
    {svc : PortService} (h : ((readLines uninit lines).services transport).lookup port = some svc) :
    svc.port = port := by
  induction lines using List.reverseRecOn with
  | nil =>
      have hlookup : ((readLines uninit []).services transport).lookup port = none := by
        cases transport <;> rfl
      rw [hlookup] at h
      exact absurd h (Option.some_ne_none svc).symm
  | append_singleton lines line ih =>
      by_cases hread : ∃ e, ReadAs (scannedPort uninit lines) line e
      · obtain ⟨e, he⟩ := hread
        obtain ⟨s, hs, hstored⟩ := readLines_of_readAs he
        rw [hstored, Loading.store_lookup, hs] at h
        split at h
        · rw [← Option.some.inj h]
          rfl
        · exact ih h
      · rw [readLines_of_not_readAs (not_exists.mp hread)] at h
        exact ih h

theorem mem_services {svc : PortService} :
    svc ∈ (readFile uninit file.bytes).udpServices.values ++ (readFile uninit file.bytes).tcpServices.values ↔
      ∃ transport port, ((readFile uninit file.bytes).services transport).lookup port = some svc := by
  rw [List.mem_append, SortedTree.mem_values_iff, SortedTree.mem_values_iff]
  constructor
  · rintro (hudp | htcp)
    · exact ⟨.udp, hudp⟩
    · exact ⟨.tcp, htcp⟩
  · rintro ⟨transport, hfound⟩
    cases transport with
    | tcp => exact Or.inr hfound
    | udp => exact Or.inl hfound

theorem servicesPortFind_registered {name : List UInt8} {found : PortService}
    (h : servicesPortFind (servicesInit isPreferred uninit file.bytes) name = some found) :
    ∃ transport svc,
      servicesFind (servicesInit isPreferred uninit file.bytes) transport found.port = some svc ∧
        svc.name.map gAsciiTolower = name.map gAsciiTolower := by
  rw [servicesPortFind, servicesInit_serviceNames] at h
  obtain ⟨svc, hmem, rfl, hname⟩ := of_fillNames_lookup h
  obtain ⟨transport, port, hstored⟩ := mem_services.mp hmem
  obtain rfl : svc.port = port := by
    rw [readFile_bytes] at hstored
    exact readLines_ownPort hstored
  refine ⟨transport, { svc with preferred := isPreferred svc.name }, ?_,
    gAsciiStrcasecmp_eq_zero_iff.mp hname⟩
  rw [servicesFind_init, PortService.create, hstored]
  rfl

theorem servicesPortFind_of_service {transport : Transport} {port : UInt16} {svc : PortService}
    {name : List UInt8}
    (h : servicesFind (servicesInit isPreferred uninit file.bytes) transport port = some svc)
    (hname : svc.name.map gAsciiTolower = name.map gAsciiTolower) :
    servicesPortFind (servicesInit isPreferred uninit file.bytes) name ≠ none := by
  rw [servicesFind_init, Option.map_eq_some_iff] at h
  obtain ⟨stored, hstored, rfl⟩ := h
  have hmem := mem_services.mpr ⟨transport, port, hstored⟩
  obtain ⟨found, hfound⟩ := @exists_fillNames_lookup SortedTree.empty _ stored name hmem
    (gAsciiStrcasecmp_eq_zero_iff.mpr hname)
  rw [servicesPortFind, servicesInit_serviceNames, hfound]
  exact Option.some_ne_none found

theorem Mapped.names_iff (h : Mapped (readFile uninit file.bytes) file.lines) (transport : Transport)
    (port : UInt16) (name : List UInt8) :
    (servicesFind (servicesInit isPreferred uninit file.bytes) transport port).map PortService.name =
      some name ↔ LastAccepted file.lines ⟨transport, port, name⟩ := by
  rw [servicesFind_init, Option.map_map, Option.map_eq_some_iff]
  constructor
  · rintro ⟨svc, hstored, rfl⟩
    obtain ⟨name, rfl, hlast⟩ := (h transport port svc).mp hstored
    exact hlast
  · intro hlast
    exact ⟨_, (h transport port _).mpr ⟨name, rfl, hlast⟩, rfl⟩

/-- The services are those that the file lists exactly when each misread line repeats the line that was
accepted last for its port. -/
theorem servicesLoaded_iff :
    ServicesLoaded isPreferred uninit file ↔ MisreadsRepeat uninit file.lines := by
  rw [← undisturbed_iff]
  constructor
  · intro h
    exact unchanged_iff.mp h.unchanged
  · intro h
    have hmapped : Mapped (readFile uninit file.bytes) file.lines := by
      rw [readFile_bytes]
      exact h.mapped
    refine ⟨unchanged_iff.mpr h, hmapped.names_iff isPreferred, ?_, ?_⟩
    · intro name
      constructor
      · intro hfound
        obtain ⟨found, hfound⟩ := Option.ne_none_iff_exists'.mp hfound
        obtain ⟨transport, svc, hsvc, hname⟩ := servicesPortFind_registered isPreferred hfound
        exact ⟨transport, found.port, svc, hsvc, hname⟩
      · rintro ⟨transport, port, svc, hsvc, hname⟩
        exact servicesPortFind_of_service isPreferred hsvc hname
    · intro name found hfound
      exact servicesPortFind_registered isPreferred hfound

end Files

/-! ### A port that is out of range -/

/-- The line `foo 65616/tcp`. -/
def wrappedFile : ServicesFile where
  terminated := [lit "foo 65616/tcp"]
  last := []
  short := by decide +kernel
  ascii := by decide +kernel

theorem wrapped_not_accepted (e : Entry) : ¬Accepted (lit "foo 65616/tcp") e := by
  rintro ⟨_, first, digits, text, rest, hfields, ⟨_, hdigits⟩, hvalue, _⟩
  have hline : fields (lit "foo 65616/tcp") = [lit "foo", lit "65616/tcp"] := by decide +kernel
  rw [hline, List.cons.injEq, List.cons.injEq] at hfields
  have hnumber : ∀ b ∈ digits, b ≠ 47 := by
    rintro b hb rfl
    exact absurd (hdigits 47 hb) (by decide)
  have hscanned : numberOf (lit "65616/tcp") = digits := by
    rw [hfields.2.1]
    exact (numberOf_append hnumber).1
  have hbig : digitsValue (numberOf (lit "65616/tcp")) = 65616 := by decide +kernel
  have hlt : e.port.toNat < 65536 := e.port.toNat_lt
  rw [hscanned, hvalue] at hbig
  omega

/-- A port of 65616 is stored as 80. -/
theorem not_servicesLoaded_wrappedFile : ¬ServicesLoaded (fun _ => false) 0 wrappedFile := by
  intro h
  have hkept := unchanged_iff.mp h.unchanged [] _ [[]] rfl wrapped_not_accepted .tcp
  have hlookup := congrArg (fun tree => (tree.lookup 80).isSome) hkept
  revert hlookup
  decide +kernel

end EtherApe.Services
