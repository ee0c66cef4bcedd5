import EtherApe.Datastructs.Services
import EtherApe.Lib.Tokens
import Mathlib.Data.List.Induction

/-!
# What a file of services says

A line lists a service when its second field is a decimal port and a transport. The parser also reads a
port from second fields that are none: `sscanf` takes a sign, stops at the first byte that is no digit and
stores the low 16 bits, and with nothing to scan it leaves the port of an earlier line. The trees hold what
the file lists exactly when every line read so only repeats the line that was accepted last.
-/

namespace EtherApe.Services

open Printf CInt

/-! ### Lines and fields -/

/-- A file of ASCII lines; the last one need not be terminated. -/
structure ServicesFile where
  terminated : List (List UInt8)
  last : List UInt8
  short : ∀ line ∈ terminated ++ [last], line.length < lineSize
  ascii : ∀ line ∈ terminated ++ [last], ∀ b ∈ line, b ≠ 0 ∧ b ≠ 10 ∧ b < 128

def joinLines (lines : List (List UInt8)) : List UInt8 := lines.flatMap fun line => line ++ [10]

namespace ServicesFile

def lines (file : ServicesFile) : List (List UInt8) := file.terminated ++ [file.last]

def bytes (file : ServicesFile) : List UInt8 := joinLines file.terminated ++ file.last

end ServicesFile

def isSeparator (b : UInt8) : Bool := b = 32 ∨ b = 9 ∨ b = 10

def fields (line : List UInt8) : List (List UInt8) := splitTokens isSeparator line

def numberOf (field : List UInt8) : List UInt8 := field.takeWhile (· ≠ 47)

def transportOf (field : List UInt8) : List UInt8 :=
  (field.dropWhile (· ≠ 47)).tail.takeWhile (· ≠ 47)

structure Entry where
  transport : Transport
  port : UInt16
  name : List UInt8

/-- The line lists a service. -/
structure Accepted (line : List UInt8) (e : Entry) : Prop where
  parsed : ¬Skipped line
  listed : ∃ first digits text rest, fields line = first :: (digits ++ 47 :: text) :: rest ∧
    (digits ≠ [] ∧ ∀ b ∈ digits, isDigit b = true) ∧ digitsValue digits = e.port.toNat ∧
    1 ≤ e.port.toNat ∧ text.map gAsciiTolower = e.transport.text ∧ e.name = gAsciiStrup first

/-- The parser reads a service from the line when the port scanned before it was `stale`. -/
structure ReadAs (stale : UInt16) (line : List UInt8) (e : Entry) : Prop where
  parsed : ¬Skipped line
  scanned : ∃ first second rest, fields line = first :: second :: rest ∧ 47 ∈ second ∧
    scanShort stale (numberOf second) = some e.port ∧ 1 ≤ e.port.toNat ∧
    (transportOf second).map gAsciiTolower = e.transport.text ∧ e.name = gAsciiStrup first

/-- The port scanned last when a line has been read. -/
def scannedIn (stale : UInt16) (line : List UInt8) : UInt16 :=
  if Skipped line then stale
  else
    match (fields line)[1]? with
    | none => stale
    | some second => (scanShort stale (numberOf second)).getD stale

/-- The port scanned last in some lines. -/
def scannedPort (uninit : UInt16) (lines : List (List UInt8)) : UInt16 := lines.foldl scannedIn uninit

/-- Of the lines accepted for the port and the transport, the last has the name. -/
def LastAccepted (lines : List (List UInt8)) (e : Entry) : Prop :=
  ∃ before line after, lines = before ++ line :: after ∧ Accepted line e ∧
    ∀ later ∈ after, ∀ name, ¬Accepted later { e with name := name }

/-! ### Splits -/

theorem splitOnP_eq_takeWhile_cons {α : Type*} (p : α → Bool) (xs : List α) :
    ∃ rest, xs.splitOnP p = xs.takeWhile (fun x => !p x) :: rest := by
  induction xs with
  | nil => exact ⟨[], rfl⟩
  | cons x xs ih =>
      obtain ⟨rest, hxs⟩ := ih
      rw [List.splitOnP_cons_eq_if_modifyHead, hxs, List.takeWhile_cons]
      by_cases hx : p x = true
      · rw [if_pos hx, hx]
        exact ⟨_, rfl⟩
      · rw [if_neg hx, eq_false_of_ne_true hx]
        exact ⟨rest, rfl⟩

theorem splitOn_gStrdelimit (line : List UInt8) :
    (gStrdelimit line).splitOn 32 = line.splitOnP isSeparator := by
  induction line with
  | nil => rfl
  | cons b line ih =>
      rw [gStrdelimit, List.map_cons, List.splitOn, List.splitOnP_cons_eq_if_modifyHead,
        List.splitOnP_cons_eq_if_modifyHead]
      rw [gStrdelimit, List.splitOn] at ih
      rw [ih]
      by_cases hb : b = 32 ∨ b = 9 ∨ b = 10
      · rw [if_pos hb, if_pos (by rfl), if_pos (by simpa [isSeparator] using hb)]
      · have hne : ¬(b == 32) = true := by
          rw [beq_iff_eq]
          exact fun h => hb (Or.inl h)
        rw [if_neg hb, if_neg hne, if_neg (by simpa [isSeparator] using hb)]

theorem fields_newline (line : List UInt8) : fields (line ++ [10]) = fields line := by
  unfold fields splitTokens
  rw [List.splitOnP_append_cons line [] (by decide : isSeparator 10 = true), List.filter_append,
    List.splitOnP_nil]
  exact List.append_nil _

theorem exists_fields {line : List UInt8} (hparsed : ¬Skipped line) (hne : line ≠ []) :
    ∃ first rest, line.splitOnP isSeparator = first :: rest ∧
      fields line = first :: rest.filter fun piece => !piece.isEmpty := by
  obtain ⟨rest, hsplit⟩ := splitOnP_eq_takeWhile_cons isSeparator line
  refine ⟨_, rest, hsplit, ?_⟩
  obtain ⟨b, line, rfl⟩ := List.exists_cons_of_ne_nil hne
  have hb : isSeparator b = false := by
    simp only [Skipped, List.head?_cons, Option.some.injEq, not_or] at hparsed
    simpa [isSeparator] using ⟨hparsed.2.1, hparsed.2.2.2, hparsed.2.2.1⟩
  unfold fields splitTokens
  rw [hsplit, List.filter_cons_of_pos]
  simp [hb]

theorem secondToken_eq {first : List UInt8} {rest : List (List UInt8)} :
    secondToken (first :: rest) = (rest.filter fun piece => !piece.isEmpty).head? := by
  rw [List.head?_filter, secondToken, List.tail_cons]
  congr 1
  funext piece
  cases piece <;> simp

theorem splitOn_slash {field : List UInt8} (h : 47 ∈ field) :
    ∃ rest, field.splitOn 47 = numberOf field :: transportOf field :: rest := by
  have hnumber : ∀ b ∈ numberOf field, (b == 47) = false := by
    intro b hb
    simpa using List.mem_takeWhile_imp hb
  obtain ⟨slash, text, hrest⟩ : ∃ slash text, field.dropWhile (· ≠ 47) = slash :: text := by
    apply List.exists_cons_of_ne_nil
    intro hnil
    rw [List.dropWhile_eq_nil_iff] at hnil
    simpa using hnil 47 h
  have hslash : slash = 47 := by
    have hhead := List.head?_dropWhile_not (fun b : UInt8 => decide (b ≠ 47)) field
    rw [hrest] at hhead
    simpa using hhead
  obtain ⟨rest, htext⟩ := splitOnP_eq_takeWhile_cons (fun b : UInt8 => b == 47) text
  refine ⟨rest, ?_⟩
  have hfield : field = numberOf field ++ slash :: text := by
    rw [numberOf, ← hrest, List.takeWhile_append_dropWhile]
  have htransport : transportOf field = text.takeWhile fun b => !(b == 47) := by
    rw [transportOf, hrest, List.tail_cons]
    congr 1
    funext b
    by_cases hb : b = 47 <;> simp [hb]
  rw [htransport, ← htext, List.splitOn]
  conv_lhs => rw [hfield, hslash, List.splitOnP_append_cons_of_forall_mem hnumber 47 (by rfl)]

theorem splitOn_of_not_mem {field : List UInt8} (h : 47 ∉ field) :
    field.splitOn 47 = [field] ∧ numberOf field = field := by
  constructor
  · apply List.splitOnP_eq_singleton
    intro b hb
    have hne : b ≠ 47 := fun heq => h (heq ▸ hb)
    simpa using hne
  · rw [numberOf, List.takeWhile_eq_self_iff]
    intro b hb
    have hne : b ≠ 47 := fun heq => h (heq ▸ hb)
    simpa using hne

/-! ### A parsed line -/

theorem gAsciiStrcasecmp_eq_zero_iff_map {word text : List UInt8} (h : word.map gAsciiTolower = word) :
    gAsciiStrcasecmp word text = 0 ↔ text.map gAsciiTolower = word := by
  rw [gAsciiStrcasecmp_eq_zero_iff, h]
  exact eq_comm

def Loading.store (s : Loading) (e : Entry) : Loading :=
  match e.transport with
  | .tcp => { s with tcpServices := s.tcpServices.insert e.port (PortService.create e.port e.name) }
  | .udp => { s with udpServices := s.udpServices.insert e.port (PortService.create e.port e.name) }

theorem storeService_of_text {s : Loading} {parsed : ParsedLine} {transport : Transport}
    (h : parsed.transport.map gAsciiTolower = transport.text) :
    storeService s parsed = s.store ⟨transport, s.portNumber, parsed.name⟩ := by
  have hcmp : ∀ word : List UInt8, word.map gAsciiTolower = word →
      (gAsciiStrcasecmp word parsed.transport = 0 ↔ transport.text = word) := by
    intro word hword
    rw [gAsciiStrcasecmp_eq_zero_iff_map hword, h]
  unfold storeService
  simp only [hcmp (lit "ddp") (by decide +kernel), hcmp (lit "sctp") (by decide +kernel),
    hcmp (lit "tcp") (by decide +kernel), hcmp (lit "udp") (by decide +kernel)]
  cases transport with
  | tcp =>
      rw [if_neg (by decide +kernel), if_neg (by decide +kernel), if_pos (by decide +kernel)]
      rfl
  | udp =>
      rw [if_neg (by decide +kernel), if_neg (by decide +kernel), if_neg (by decide +kernel),
        if_pos (by decide +kernel)]
      rfl

theorem storeService_of_not_text {s : Loading} {parsed : ParsedLine}
    (h : ∀ transport : Transport, parsed.transport.map gAsciiTolower ≠ transport.text) :
    storeService s parsed = s := by
  unfold storeService
  have htcp : gAsciiStrcasecmp (lit "tcp") parsed.transport ≠ 0 := by
    rw [Ne, gAsciiStrcasecmp_eq_zero_iff_map (by decide +kernel)]
    exact h .tcp
  have hudp : gAsciiStrcasecmp (lit "udp") parsed.transport ≠ 0 := by
    rw [Ne, gAsciiStrcasecmp_eq_zero_iff_map (by decide +kernel)]
    exact h .udp
  rw [if_neg htcp, if_neg hudp]
  split
  · rfl
  · exact ite_self s

theorem parseLine_eq {line first : List UInt8} {rest : List (List UInt8)} (portNumber : UInt16)
    (hne : line ≠ []) (hsplit : line.splitOnP isSeparator = first :: rest) :
    parseLine portNumber line =
      match (rest.filter fun piece => !piece.isEmpty).head? with
      | none => (portNumber, none)
      | some second => parseSecond portNumber (gAsciiStrup first) second := by
  have hdelimited : gStrdelimit line ≠ [] := by
    rw [gStrdelimit, Ne, List.map_eq_nil_iff]
    exact hne
  rw [parseLine, gStrsplit, if_neg hdelimited, splitOn_gStrdelimit, hsplit, secondToken_eq]
  rfl

theorem parseSecond_of_slash {field : List UInt8} (portNumber : UInt16) (name : List UInt8)
    (h : 47 ∈ field) :
    parseSecond portNumber name field =
      match scanShort portNumber (numberOf field) with
      | none => (portNumber, none)
      | some portNumber =>
          if portNumber < 1 then (portNumber, none)
          else if UnknownTransport (transportOf field) then (portNumber, none)
          else (portNumber, some ⟨name, transportOf field⟩) := by
  obtain ⟨rest, hsplit⟩ := splitOn_slash h
  rw [parseSecond, gStrsplit, if_neg (List.ne_nil_of_mem h), hsplit]
  rfl

theorem parseSecond_of_not_mem {field : List UInt8} (portNumber : UInt16) (name : List UInt8)
    (hne : field ≠ []) (h : 47 ∉ field) :
    parseSecond portNumber name field =
      ((scanShort portNumber (numberOf field)).getD portNumber, none) := by
  obtain ⟨hsplit, hnumber⟩ := splitOn_of_not_mem h
  rw [parseSecond, gStrsplit, if_neg hne, hsplit, hnumber]
  dsimp only [List.headD_cons]
  cases scanShort portNumber field with
  | none => rfl
  | some scanned => exact ite_self _

theorem UInt16.lt_one_iff {port : UInt16} : port < 1 ↔ ¬1 ≤ port.toNat := by
  rw [UInt16.lt_iff_toNat_lt]
  exact Nat.not_le.symm

theorem readLine_of_readAs {s : Loading} {line : List UInt8} {e : Entry}
    (h : ReadAs s.portNumber line e) :
    readLine s line = ({ s with portNumber := e.port } : Loading).store e ∧
      scannedIn s.portNumber line = e.port := by
  obtain ⟨hparsed, first, second, rest, hfields, hslash, hscan, hport, htext, hname⟩ := h
  have hne : line ≠ [] := by
    rintro rfl
    exact List.cons_ne_nil _ _ hfields.symm
  obtain ⟨first', rest', hsplit, hfields'⟩ := exists_fields hparsed hne
  obtain ⟨rfl, hrest⟩ := List.cons.inj (hfields'.symm.trans hfields)
  have hknown : ¬UnknownTransport (transportOf second) := by
    rintro ⟨hudp, htcp, _⟩
    rw [Ne, gAsciiStrcasecmp_eq_zero_iff_map (by decide +kernel), htext] at hudp htcp
    cases htransport : e.transport with
    | tcp => exact htcp (by rw [htransport]; rfl)
    | udp => exact hudp (by rw [htransport]; rfl)
  have hpos : ¬e.port < 1 := by
    rw [UInt16.lt_one_iff, not_not]
    exact hport
  constructor
  · rw [readLine, if_neg hparsed, parseLine_eq _ hne hsplit, hrest, List.head?_cons]
    dsimp only
    rw [parseSecond_of_slash _ _ hslash, hscan]
    dsimp only
    rw [if_neg hpos, if_neg hknown]
    dsimp only
    rw [storeService_of_text htext, ← hname]
  · rw [scannedIn, if_neg hparsed, hfields, List.getElem?_cons_succ, List.getElem?_cons_zero]
    dsimp only
    rw [hscan, Option.getD_some]

theorem readLine_of_not_readAs {s : Loading} {line : List UInt8}
    (h : ∀ e, ¬ReadAs s.portNumber line e) :
    readLine s line = { s with portNumber := scannedIn s.portNumber line } := by
  by_cases hparsed : Skipped line
  · rw [readLine, if_pos hparsed, scannedIn, if_pos hparsed]
  by_cases hne : line = []
  · rw [hne]
    rfl
  obtain ⟨first, rest, hsplit, hfields⟩ := exists_fields hparsed hne
  rw [readLine, if_neg hparsed, parseLine_eq _ hne hsplit, scannedIn, if_neg hparsed, hfields,
    List.getElem?_cons_succ]
  cases hrest : rest.filter fun piece => !piece.isEmpty with
  | nil => rfl
  | cons second tail =>
      have hsecond : second ≠ [] := by
        have hmem : second ∈ rest.filter fun piece => !piece.isEmpty := by
          rw [hrest]
          exact List.mem_cons_self
        simpa using (List.mem_filter.mp hmem).2
      rw [List.head?_cons, List.getElem?_cons_zero]
      dsimp only
      by_cases hslash : 47 ∈ second
      · rw [parseSecond_of_slash _ _ hslash]
        cases hscan : scanShort s.portNumber (numberOf second) with
        | none => rfl
        | some port =>
            dsimp only [Option.getD_some]
            by_cases hpos : port < 1
            · rw [if_pos hpos]
            · rw [if_neg hpos]
              by_cases hknown : UnknownTransport (transportOf second)
              · rw [if_pos hknown]
              · rw [if_neg hknown]
                apply storeService_of_not_text
                intro transport htext
                refine h ⟨transport, port, gAsciiStrup first⟩
                  ⟨hparsed, first, second, tail, ?_, hslash, hscan, ?_, htext, rfl⟩
                · rw [hfields, hrest]
                · rw [UInt16.lt_one_iff, not_not] at hpos
                  exact hpos
      · rw [parseSecond_of_not_mem _ _ hsecond hslash]

/-! ### What is listed and what is read -/

theorem isDigit_iff {b : UInt8} : isDigit b = true ↔ 48 ≤ b ∧ b ≤ 57 := by
  simp [isDigit]

theorem scanShort_digits {digits : List UInt8} {port : UInt16} (hne : digits ≠ [])
    (hdigits : ∀ b ∈ digits, isDigit b = true) (hvalue : digitsValue digits = port.toNat)
    (stale : UInt16) : scanShort stale digits = some port := by
  have hspace : digits.dropWhile isSpace = digits := by
    obtain ⟨b, rest, rfl⟩ := List.exists_cons_of_ne_nil hne
    obtain ⟨hlow, hhigh⟩ := isDigit_iff.mp (hdigits b List.mem_cons_self)
    rw [List.dropWhile_cons_of_neg]
    simp only [isSpace, Bool.or_eq_true, Bool.and_eq_true, decide_eq_true_eq, UInt8.le_iff_toNat_le,
      ← UInt8.toNat_inj, UInt8.reduceToNat] at hlow hhigh ⊢
    omega
  have hscan : scanInt digits = .number port.toNat := by
    rw [scanInt, hspace]
    obtain ⟨b, rest, rfl⟩ := List.exists_cons_of_ne_nil hne
    obtain ⟨hlow, hhigh⟩ := isDigit_iff.mp (hdigits b List.mem_cons_self)
    have hsign : ¬(b = 43 ∨ b = 45) := by
      rintro (rfl | rfl) <;> exact absurd hlow (by decide)
    dsimp only
    rw [if_neg hsign, List.takeWhile_eq_self_iff.mpr hdigits, if_neg hne,
      if_neg fun hminus => hsign (Or.inr hminus), hvalue, saturateLong]
    have hlt : port.toNat < 65536 := port.toNat_lt
    congr 1
    omega
  rw [scanShort, hscan]
  dsimp only
  rw [unsigned_natCast port.toNat_lt, UInt16.ofNat_toNat]

theorem numberOf_append {number text : List UInt8} (h : ∀ b ∈ number, b ≠ 47) :
    numberOf (number ++ 47 :: text) = number ∧
      transportOf (number ++ 47 :: text) = text.takeWhile (· ≠ 47) := by
  have hall : ∀ b ∈ number, decide (b ≠ 47) = true := fun b hb => decide_eq_true (h b hb)
  constructor
  · rw [numberOf, List.takeWhile_append_of_pos hall, List.takeWhile_cons_of_neg (by decide),
      List.append_nil]
  · rw [transportOf, List.dropWhile_append_of_pos hall, List.dropWhile_cons_of_neg (by decide),
      List.tail_cons]

theorem Accepted.readAs {line : List UInt8} {e : Entry} (h : Accepted line e) (stale : UInt16) :
    ReadAs stale line e := by
  obtain ⟨hparsed, first, digits, text, rest, hfields, ⟨hne, hdigits⟩, hvalue, hport, htext, hname⟩ := h
  have hnumber : ∀ b ∈ digits, b ≠ 47 := by
    rintro b hb rfl
    exact absurd (hdigits 47 hb) (by decide)
  have hslash : ∀ b ∈ text, decide (b ≠ 47) = true := by
    intro b hb
    rw [decide_eq_true_eq]
    rintro rfl
    have hmem : (47 : UInt8) ∈ e.transport.text := by
      rw [← htext]
      exact List.mem_map.mpr ⟨47, hb, by decide⟩
    revert hmem
    cases e.transport <;> decide +kernel
  obtain ⟨hnumberOf, htransport⟩ := @numberOf_append digits text hnumber
  refine ⟨hparsed, first, _, rest, hfields, by simp, ?_, hport, ?_, hname⟩
  · rw [hnumberOf]
    exact scanShort_digits hne hdigits hvalue stale
  · rw [htransport, List.takeWhile_eq_self_iff.mpr hslash]
    exact htext

theorem Transport.text_injective {a b : Transport} (h : a.text = b.text) : a = b := by
  revert h
  cases a <;> cases b <;> decide +kernel

theorem ReadAs.unique {stale : UInt16} {line : List UInt8} {e e' : Entry} (h : ReadAs stale line e)
    (h' : ReadAs stale line e') : e = e' := by
  obtain ⟨_, first, second, rest, hfields, _, hscan, _, htext, hname⟩ := h
  obtain ⟨_, first', second', rest', hfields', _, hscan', _, htext', hname'⟩ := h'
  rw [hfields, List.cons.injEq, List.cons.injEq] at hfields'
  obtain ⟨rfl, rfl, _⟩ := hfields'
  cases e
  cases e'
  dsimp only at hscan hscan' htext htext' hname hname'
  obtain rfl := Option.some.inj (hscan.symm.trans hscan')
  obtain rfl := Transport.text_injective (htext.symm.trans htext')
  rw [hname, hname']

theorem lastAccepted_concat {lines : List (List UInt8)} {line : List UInt8} {e : Entry} :
    LastAccepted (lines ++ [line]) e ↔
      Accepted line e ∨ (∀ name, ¬Accepted line { e with name := name }) ∧ LastAccepted lines e := by
  constructor
  · rintro ⟨before, accepted, after, hsplit, haccepted, hlater⟩
    induction after using List.reverseRecOn with
    | nil =>
        obtain ⟨_, hline⟩ := List.append_inj' hsplit rfl
        obtain rfl := List.singleton_inj.mp hline
        exact Or.inl haccepted
    | append_singleton after last _ =>
        rw [← List.cons_append, ← List.append_assoc] at hsplit
        obtain ⟨hlines, hline⟩ := List.append_inj' hsplit rfl
        obtain rfl := List.singleton_inj.mp hline
        refine Or.inr ⟨hlater line (by simp), before, accepted, after, hlines, haccepted, ?_⟩
        exact fun later hmem => hlater later (List.mem_append_left _ hmem)
  · rintro (haccepted | ⟨hline, before, accepted, after, hsplit, haccepted, hlater⟩)
    · exact ⟨lines, line, [], rfl, haccepted, by simp⟩
    · refine ⟨before, accepted, after ++ [line], by rw [hsplit]; simp, haccepted, ?_⟩
      intro later hmem
      rcases List.mem_append.mp hmem with hmem | hmem
      · exact hlater later hmem
      · rw [List.mem_singleton.mp hmem]
        exact hline

/-! ### The trees line by line -/

def Loading.services (s : Loading) : Transport → SortedTree servicesPortCmp PortService
  | .tcp => s.tcpServices
  | .udp => s.udpServices

theorem Loading.services_portNumber (s : Loading) (port : UInt16) (transport : Transport) :
    ({ s with portNumber := port } : Loading).services transport = s.services transport := by
  cases transport <;> rfl

theorem Loading.store_portNumber (s : Loading) (e : Entry) : (s.store e).portNumber = s.portNumber := by
  unfold store
  split <;> rfl

theorem Loading.store_services (s : Loading) (e : Entry) (transport : Transport) :
    (s.store e).services transport =
      if e.transport = transport then
        (s.services transport).insert e.port (PortService.create e.port e.name)
      else s.services transport := by
  unfold store
  cases he : e.transport <;> cases transport <;> rfl

theorem Loading.store_lookup (s : Loading) (e : Entry) (transport : Transport) (port : UInt16) :
    ((s.store e).services transport).lookup port =
      if e.transport = transport ∧ e.port = port then some (PortService.create port e.name)
      else (s.services transport).lookup port := by
  rw [store_services]
  by_cases htransport : e.transport = transport
  · rw [if_pos htransport, SortedTree.lookup_insert_eq]
    by_cases hport : e.port = port
    · rw [if_pos (servicesPortCmp_eq_zero_iff.mpr hport), if_pos ⟨htransport, hport⟩, hport]
    · rw [if_neg fun h => hport (servicesPortCmp_eq_zero_iff.mp h), if_neg fun h => hport h.2]
  · rw [if_neg htransport, if_neg fun h => htransport h.1]

theorem readLine_portNumber (s : Loading) (line : List UInt8) :
    (readLine s line).portNumber = scannedIn s.portNumber line := by
  by_cases h : ∃ e, ReadAs s.portNumber line e
  · obtain ⟨e, he⟩ := h
    obtain ⟨hread, hscanned⟩ := readLine_of_readAs he
    rw [hread, hscanned, Loading.store_portNumber]
  · rw [readLine_of_not_readAs (not_exists.mp h)]

def readLines (uninit : UInt16) (lines : List (List UInt8)) : Loading :=
  lines.foldl readLine (Loading.initial uninit)

section Lines

variable {uninit : UInt16} {lines : List (List UInt8)}

theorem readLines_concat (line : List UInt8) :
    readLines uninit (lines ++ [line]) = readLine (readLines uninit lines) line := List.foldl_concat ..

theorem readLines_portNumber : (readLines uninit lines).portNumber = scannedPort uninit lines := by
  induction lines using List.reverseRecOn with
  | nil => rfl
  | append_singleton lines line ih =>
      rw [readLines_concat, readLine_portNumber, ih, scannedPort, scannedPort, List.foldl_concat]

theorem readLines_of_not_readAs {line : List UInt8}
    (h : ∀ e, ¬ReadAs (scannedPort uninit lines) line e) (transport : Transport) :
    (readLines uninit (lines ++ [line])).services transport =
      (readLines uninit lines).services transport := by
  rw [← readLines_portNumber] at h
  rw [readLines_concat, readLine_of_not_readAs h, Loading.services_portNumber]

theorem readLines_of_readAs {line : List UInt8} {e : Entry}
    (h : ReadAs (scannedPort uninit lines) line e) :
    ∃ s : Loading, (∀ transport, s.services transport = (readLines uninit lines).services transport) ∧
      readLines uninit (lines ++ [line]) = s.store e := by
  rw [← readLines_portNumber] at h
  refine ⟨{ readLines uninit lines with portNumber := e.port }, ?_, ?_⟩
  · exact Loading.services_portNumber _ e.port
  · rw [readLines_concat, (readLine_of_readAs h).1]

/-- Lines that are not accepted change no tree. -/
def Undisturbed (uninit : UInt16) (lines : List (List UInt8)) : Prop :=
  ∀ before line after, lines = before ++ line :: after → (∀ e, ¬Accepted line e) →
    ∀ transport, (readLines uninit (before ++ [line])).services transport =
      (readLines uninit before).services transport

/-- A line that is read as a service it does not list repeats the line accepted last. -/
def MisreadsRepeat (uninit : UInt16) (lines : List (List UInt8)) : Prop :=
  ∀ before line after e, lines = before ++ line :: after → (∀ e, ¬Accepted line e) →
    ReadAs (scannedPort uninit before) line e → LastAccepted before e

/-- The trees hold what was accepted last. -/
def Mapped (s : Loading) (lines : List (List UInt8)) : Prop :=
  ∀ transport port svc, (s.services transport).lookup port = some svc ↔
    ∃ name, svc = PortService.create port name ∧ LastAccepted lines ⟨transport, port, name⟩

theorem Undisturbed.of_concat {line : List UInt8} (h : Undisturbed uninit (lines ++ [line])) :
    Undisturbed uninit lines := by
  intro before other after hsplit
  exact h before other (after ++ [line]) (by rw [hsplit]; simp)

theorem Undisturbed.of_append {before after : List (List UInt8)}
    (h : Undisturbed uninit (before ++ after)) : Undisturbed uninit before := by
  intro first line rest hsplit
  exact h first line (rest ++ after) (by rw [hsplit]; simp)

theorem Undisturbed.mapped (h : Undisturbed uninit lines) : Mapped (readLines uninit lines) lines := by
  induction lines using List.reverseRecOn with
  | nil =>
      intro transport port svc
      have hlookup : ((readLines uninit []).services transport).lookup port = none := by
        cases transport <;> rfl
      rw [hlookup]
      refine iff_of_false (Option.some_ne_none svc).symm ?_
      rintro ⟨_, _, before, line, after, hsplit, _⟩
      exact absurd hsplit (by simp)
  | append_singleton lines line ih =>
      have hbefore := ih h.of_concat
      intro transport port svc
      by_cases haccepted : ∃ e, Accepted line e
      · obtain ⟨e, he⟩ := haccepted
        obtain ⟨s, hs, hread⟩ := readLines_of_readAs (he.readAs (scannedPort uninit lines))
        rw [hread, Loading.store_lookup, hs]
        by_cases hsame : e.transport = transport ∧ e.port = port
        · obtain ⟨rfl, rfl⟩ := hsame
          rw [if_pos ⟨rfl, rfl⟩, Option.some.injEq]
          constructor
          · rintro rfl
            exact ⟨e.name, rfl, lastAccepted_concat.mpr (Or.inl he)⟩
          · rintro ⟨name, rfl, hlast⟩
            rcases lastAccepted_concat.mp hlast with hname | ⟨hnone, _⟩
            · have heq := (he.readAs 0).unique (hname.readAs 0)
              rw [heq]
            · exact absurd he (hnone e.name)
        · rw [if_neg hsame, hbefore]
          have hother : ∀ name, ¬Accepted line ⟨transport, port, name⟩ := by
            intro name hname
            have heq := (he.readAs 0).unique (hname.readAs 0)
            exact hsame ⟨congrArg Entry.transport heq, congrArg Entry.port heq⟩
          simp only [lastAccepted_concat, hother, false_or, not_false_eq_true, implies_true, true_and]
      · have hnone := not_exists.mp haccepted
        rw [h lines line [] rfl hnone transport, hbefore]
        simp only [lastAccepted_concat, hnone, false_or, not_false_eq_true, implies_true, true_and]

/-- The trees stay undisturbed exactly when what is misread stands in them already. -/
theorem undisturbed_iff : Undisturbed uninit lines ↔ MisreadsRepeat uninit lines := by
  constructor
  · intro h before line after e hsplit hnone hread
    obtain ⟨s, hs, hstored⟩ := readLines_of_readAs hread
    have hkept := h before line after hsplit hnone e.transport
    rw [hsplit] at h
    have hlookup := Loading.store_lookup s e e.transport e.port
    rw [if_pos ⟨rfl, rfl⟩, ← hstored, hkept] at hlookup
    obtain ⟨name, hname, hlast⟩ := (h.of_append.mapped e.transport e.port _).mp hlookup
    rw [PortService.create, PortService.create, PortService.mk.injEq] at hname
    rw [← hname.2.1] at hlast
    exact hlast
  · intro h
    induction lines using List.reverseRecOn with
    | nil =>
        intro before line after hsplit
        exact absurd hsplit (by simp)
    | append_singleton lines line ih =>
        have hbefore : Undisturbed uninit lines := by
          apply ih
          intro before other after e hsplit
          exact h before other (after ++ [line]) e (by rw [hsplit]; simp)
        intro before other after hsplit hnone transport
        induction after using List.reverseRecOn with
        | append_singleton after last _ =>
            rw [← List.cons_append, ← List.append_assoc] at hsplit
            exact hbefore before other after (List.append_inj' hsplit rfl).1 hnone transport
        | nil =>
            obtain ⟨rfl, hline⟩ := List.append_inj' hsplit rfl
            obtain rfl := List.singleton_inj.mp hline
            by_cases hread : ∃ e, ReadAs (scannedPort uninit lines) line e
            · obtain ⟨e, he⟩ := hread
              obtain ⟨s, hs, hstored⟩ := readLines_of_readAs he
              have hlast := h lines line [] e rfl hnone he
              have hlookup := (hbefore.mapped e.transport e.port _).mpr ⟨e.name, rfl, hlast⟩
              rw [hstored, Loading.store_services, hs]
              by_cases htransport : e.transport = transport
              · rw [if_pos htransport, ← htransport]
                obtain ⟨port, hmem, hport⟩ := SortedTree.exists_mem_of_lookup hlookup
                exact SortedTree.insert_of_mem hmem hport
              · rw [if_neg htransport]
            · exact readLines_of_not_readAs (not_exists.mp hread) transport

end Lines

end EtherApe.Services
