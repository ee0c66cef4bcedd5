import EtherApe.NamesNetbios.Encoded

/-!
# What the printing of a NetBIOS name stores

A name is printed into a buffer of the caller. The stores are listed as the functions make them, and
shown to leave the name that `nbnsOfDns` gives. Both the characters shown in angle brackets and the NUL
of `strncat` can go past the end of the buffer.
-/

namespace EtherApe

open Printf CInt

/-- Where `name_ret` points to in the buffer, and what has been stored there. -/
structure NameRet where
  pos : Nat
  stores : List Store

/-- Stores bytes through `name_ret`. -/
def NameRet.put (s : NameRet) (bs : List UInt8) : NameRet :=
  ⟨s.pos + bs.length, s.stores ++ storesFrom s.pos bs⟩

/-- A round of `process_netbios_name`; the loop ends for good once there is no room. -/
def NameRet.putChar (stray : StrayBytes) (outnameSize : Nat) (s : NameRet) (nameChar : UInt8) :
    NameRet :=
  if s.pos < lastIndex outnameSize then s.put (shownChar stray nameChar) else s

/-- What `process_netbios_name` stores. -/
def processNetbiosStores (stray : StrayBytes) (name : List UInt8) (outnameSize : Nat) : List Store :=
  let s := (name.take (netbiosNameLen - 1)).foldl (NameRet.putChar stray outnameSize) ⟨0, []⟩
  s.stores ++ [⟨s.pos, 0⟩]

/-- What `ethereal_nbns_name` stores after the domain name has been read. -/
def nbnsStores (stray : StrayBytes) (outnameSize : Nat) (dns : DnsReturn) : List Store :=
  match firstLevel dns.name with
  | .notLetter =>
      safeStrncpyStores
        (lit "Illegal NetBIOS name (character not between A and Z in first-level encoding)") outnameSize
  | .odd => safeStrncpyStores (lit "Illegal NetBIOS name (odd number of bytes)") outnameSize
  | .decoded nbname rest =>
      if nbname.length ≠ netbiosNameLen then
        safeStrncpyStores (lit "Illegal NetBIOS name (" ++ decimal nbname.length ++ lit " bytes long)")
          outnameSize
      else
        let (outname, nameType) := processNetbiosName stray nbname outnameSize
        let outname := outname.takeWhile (· ≠ 0)
        let buf := shownType nameType
        processNetbiosStores stray nbname outnameSize ++
          safeStrncatStores outname buf outnameSize ++
          if rest = [] then []
          else safeStrncatStores (safeStrncat outname buf outnameSize) rest outnameSize

/-! ### The name that is left in the buffer -/

theorem foldl_putChar (stray : StrayBytes) (n : Nat) (cs out : List UInt8) :
    cs.foldl (NameRet.putChar stray n) ⟨out.length, storesFrom 0 out⟩ =
      let out' := cs.foldl (fun out nameChar =>
        if out.length < lastIndex n then out ++ shownChar stray nameChar else out) out
      ⟨out'.length, storesFrom 0 out'⟩ := by
  induction cs generalizing out with
  | nil => rfl
  | cons c cs ih =>
      rw [List.foldl_cons, List.foldl_cons, NameRet.putChar]
      by_cases hroom : out.length < lastIndex n
      · rw [if_pos hroom, if_pos hroom, ← ih, NameRet.put, storesFrom_append, List.length_append,
          Nat.zero_add]
      · rw [if_neg hroom, if_neg hroom, ih]

theorem processNetbiosStores_eq (stray : StrayBytes) (name : List UInt8) (n : Nat) :
    processNetbiosStores stray name n =
      storesFrom 0 ((processNetbiosName stray name n).1 ++ [0]) := by
  have hloop := foldl_putChar stray n (name.take (netbiosNameLen - 1)) []
  rw [List.length_nil, storesFrom] at hloop
  unfold processNetbiosStores processNetbiosName
  dsimp only at hloop ⊢
  rw [hloop, storesFrom_append, Nat.zero_add]
  rfl

theorem firstLevel_rest {cs nbname rest : List UInt8} (h : firstLevel cs = .decoded nbname rest) :
    rest <:+ cs := by
  fun_induction firstLevel cs generalizing nbname rest with
  | case9 c c' cs _ _ _ _ nbname' rest' hcs ih =>
      have hrest : rest' = rest := by
        injection h
      rw [← hrest]
      exact (ih hcs).trans ((List.suffix_cons c' cs).trans (List.suffix_cons c (c' :: cs)))
  | _ => simp_all

theorem zero_not_mem_shownType (b : UInt8) : 0 ∉ shownType (ofChar b) := by
  have hall : ∀ n < 256, 0 ∉ shownType (ofChar (UInt8.ofNat n)) := by decide +kernel
  have hb := hall b.toNat b.toNat_lt
  rwa [UInt8.ofNat_toNat] at hb

theorem zero_not_mem_lit {s : String} (h : (lit s).all (fun b => decide (b ≠ 0)) = true) :
    0 ∉ lit s := fun hmem => forall_mem_lit h 0 hmem rfl

theorem zero_not_mem_decimal (n : Nat) : 0 ∉ decimal n := by
  intro hmem
  have hdigit := isHexDigit_of_mem_digits (by decide) (by decide) hmem
  simp [IsHexDigit] at hdigit

theorem safeStrncat_of_lt {dst src : List UInt8} {n : Nat} (h : dst.length + src.length < n) :
    safeStrncat dst src n = dst ++ src := by
  rw [safeStrncat, if_neg (by omega), List.take_of_length_le]
  rw [List.length_append]
  omega

theorem safeStrncat_nil (dst src : List UInt8) (n : Nat) :
    safeStrncat (safeStrncat dst src n) [] n = safeStrncat dst src n := by
  unfold safeStrncat
  split
  next hfull => rfl
  next hroom =>
    have hlength : ((dst ++ src).take (n - 1)).length ≤ n - 1 := List.length_take_le _ _
    rw [if_neg (by omega), List.append_nil, List.take_of_length_le hlength]

/-- The stores leave the printed name. -/
theorem nbnsStores_holds (m : Memory) (stray : StrayBytes) {n : Nat} {dns : DnsReturn} (hn : 1 ≤ n)
    (hdns : 0 ∉ dns.name) :
    (m.run (nbnsStores stray n dns)).Holds (nbnsOfDns stray n dns).outname := by
  unfold nbnsStores nbnsOfDns
  cases hlevel : firstLevel dns.name with
  | notLetter => exact safeStrncpy_holds m [] (zero_not_mem_lit (by decide +kernel)) hn
  | odd => exact safeStrncpy_holds m [] (zero_not_mem_lit (by decide +kernel)) hn
  | decoded nbname rest =>
      dsimp only
      by_cases hlength : nbname.length = netbiosNameLen
      · rw [if_neg (not_not.mpr hlength), if_neg (not_not.mpr hlength)]
        have hrest : 0 ∉ rest := fun hmem => hdns ((firstLevel_rest hlevel).mem hmem)
        have hname := m.holds_run_storesFrom (processNetbiosName stray nbname n).1
        rw [← processNetbiosStores_eq] at hname
        have htype := safeStrncat_holds hname (zero_not_mem_shownType (nbname.getD 15 0)) n
        rw [Memory.run_append, Memory.run_append]
        by_cases hscope : rest = []
        · rw [if_pos hscope, Memory.run_nil, hscope]
          exact (safeStrncat_nil _ (shownType (ofChar (nbname.getD 15 0))) n).symm ▸ htype
        · rw [if_neg hscope]
          exact safeStrncat_holds htype hrest n
      · rw [if_pos hlength, if_pos hlength]
        refine safeStrncpy_holds m [] ?_ hn
        rw [List.mem_append, List.mem_append, not_or, not_or]
        exact ⟨⟨zero_not_mem_lit (by decide +kernel), zero_not_mem_decimal _⟩,
          zero_not_mem_lit (by decide +kernel)⟩

/-! ### Where the stores go -/

section Fits

variable (stray : StrayBytes)

/-- The first `k` characters of a name as they are shown. -/
def shownFirst (nbname : List UInt8) (k : Nat) : List UInt8 :=
  (nbname.take k).flatMap (shownChar stray)

/-- A decoded name with its type and its scope fits into a buffer: either all its characters or as many
of them as end right before the last byte are shown within it, and their text, the type and the scope
leave room for a NUL. -/
def NameFits (outnameSize : Nat) (nbname rest : List UInt8) : Prop :=
  ∃ k ≤ 15, (k = 15 ∨ (shownFirst stray nbname k).length + 1 = outnameSize) ∧
    (shownFirst stray nbname k).length < outnameSize ∧
    ((shownFirst stray nbname k).takeWhile (· ≠ 0)).length +
      (shownType (ofChar (nbname.getD 15 0))).length + rest.length < outnameSize

/-- What is printed for a domain name fits into a buffer. -/
def NbnsFits (outnameSize : Nat) (name : List UInt8) : Prop :=
  ∀ nbname rest, firstLevel name = .decoded nbname rest → nbname.length = 16 →
    NameFits stray outnameSize nbname rest

theorem shownChar_ne_nil (c : UInt8) : 1 ≤ (shownChar stray c).length := by
  unfold shownChar
  split
  · exact le_rfl
  · rw [List.length_append, List.length_append]
    exact Nat.le_add_left_of_le (by decide)

theorem shownFirst_succ {nbname : List UInt8} {k : Nat} (hk : k < nbname.length) :
    shownFirst stray nbname (k + 1) = shownFirst stray nbname k ++ shownChar stray nbname[k] := by
  rw [shownFirst, shownFirst, List.take_succ_eq_append_getElem hk, List.flatMap_append]
  simp

theorem shownFirst_length_lt {nbname : List UInt8} {j k : Nat} (hjk : j < k)
    (hk : k ≤ nbname.length) :
    (shownFirst stray nbname j).length < (shownFirst stray nbname k).length := by
  induction k, hjk using Nat.le_induction with
  | base =>
      rw [shownFirst_succ stray (by omega), List.length_append]
      have hpos := shownChar_ne_nil stray nbname[j]
      omega
  | succ k _ ih =>
      rw [shownFirst_succ stray (by omega), List.length_append]
      have hlt := ih (by omega)
      omega

theorem foldl_shownChar (room : Nat) (cs out : List UInt8) :
    ∃ k ≤ cs.length,
      cs.foldl (fun out nameChar =>
        if out.length < room then out ++ shownChar stray nameChar else out) out =
          out ++ (cs.take k).flatMap (shownChar stray) ∧
      (k = cs.length ∨ room ≤ (out ++ (cs.take k).flatMap (shownChar stray)).length) ∧
      ∀ j < k, (out ++ (cs.take j).flatMap (shownChar stray)).length < room := by
  induction cs generalizing out with
  | nil => exact ⟨0, le_rfl, (List.append_nil out).symm, Or.inl rfl, fun j hj => absurd hj (by omega)⟩
  | cons c cs ih =>
      rw [List.foldl_cons]
      by_cases hroom : out.length < room
      · rw [if_pos hroom]
        obtain ⟨k, hk, hloop, hstop, hearlier⟩ := ih (out ++ shownChar stray c)
        rw [List.append_assoc] at hloop hstop
        refine ⟨k + 1, Nat.succ_le_succ hk, hloop, hstop.imp_left (congrArg (· + 1)), ?_⟩
        intro j hj
        cases j with
        | zero => simpa using hroom
        | succ j =>
            have hlt := hearlier j (by omega)
            rwa [List.append_assoc] at hlt
      · rw [if_neg hroom]
        obtain ⟨k, hk, hloop, _, hearlier⟩ := ih out
        have hzero : k = 0 := by
          by_contra hne
          have hlt := hearlier 0 (by omega)
          rw [List.take_zero, List.flatMap_nil, List.append_nil] at hlt
          exact hroom hlt
        rw [hzero] at hloop
        refine ⟨0, Nat.zero_le _, hloop, Or.inr ?_, fun j hj => absurd hj (by omega)⟩
        simpa using hroom

theorem exists_shownFirst (n : Nat) (nbname : List UInt8) (h : nbname.length = 16) :
    ∃ k ≤ 15, (processNetbiosName stray nbname n).1 = shownFirst stray nbname k ∧
      (k = 15 ∨ lastIndex n ≤ (shownFirst stray nbname k).length) ∧
      ∀ j < k, (shownFirst stray nbname j).length < lastIndex n := by
  have hlength : (nbname.take 15).length = 15 := by
    rw [List.length_take, h]
    rfl
  obtain ⟨k, hk, hloop, hstop, hearlier⟩ := foldl_shownChar stray (lastIndex n) (nbname.take 15) []
  rw [hlength] at hk hstop
  simp only [List.nil_append, List.take_take] at hloop hstop hearlier
  rw [Nat.min_eq_left hk] at hloop hstop
  refine ⟨k, hk, hloop, hstop, fun j hj => ?_⟩
  have hlt := hearlier j hj
  rwa [Nat.min_eq_left (by omega)] at hlt

theorem processNetbiosStores_lt_iff (nbname : List UInt8) (n : Nat) :
    (∀ w ∈ processNetbiosStores stray nbname n, w.index < n) ↔
      (processNetbiosName stray nbname n).1.length < n := by
  rw [processNetbiosStores_eq,
    storesFrom_lt_iff (List.append_ne_nil_of_right_ne_nil _ (List.cons_ne_nil 0 [])),
    List.length_append, List.length_singleton]
  omega

theorem nameFits_iff (n : Nat) {nbname : List UInt8} (rest : List UInt8) (h : nbname.length = 16) :
    NameFits stray n nbname rest ↔
      (processNetbiosName stray nbname n).1.length < n ∧
      ((processNetbiosName stray nbname n).1.takeWhile (· ≠ 0)).length +
        (shownType (ofChar (nbname.getD 15 0))).length + rest.length < n := by
  obtain ⟨k, hk, hshown, hstop, hroom⟩ := exists_shownFirst stray n nbname h
  rw [hshown]
  constructor
  · rintro ⟨k', hk', hstop', hlt, htext⟩
    have hlast : lastIndex n = n - 1 := if_neg (by omega)
    have hsame : k' = k := by
      rcases lt_trichotomy k' k with hlt' | heq | hgt
      · have hlen := hroom k' hlt'
        omega
      · exact heq
      · have hlen : (shownFirst stray nbname k).length < (shownFirst stray nbname k').length :=
          shownFirst_length_lt stray hgt (by omega)
        omega
    rw [← hsame]
    exact ⟨hlt, htext⟩
  · rintro ⟨hlt, htext⟩
    have hlast : lastIndex n = n - 1 := if_neg (by omega)
    exact ⟨k, hk, by omega, hlt, htext⟩

/-- The type and the scope are appended within the buffer when they leave room for a NUL. -/
theorem nameStores_lt_iff (out buf rest : List UInt8) (n : Nat) :
    ((out.length < n ∧
      ∀ w ∈ safeStrncatStores (out.takeWhile (· ≠ 0)) buf n, w.index < n) ∧
      ∀ w ∈ (if rest = [] then []
        else safeStrncatStores (safeStrncat (out.takeWhile (· ≠ 0)) buf n) rest n), w.index < n) ↔
      out.length < n ∧ (out.takeWhile (· ≠ 0)).length + buf.length + rest.length < n := by
  have hle := (List.takeWhile_prefix (l := out) (· ≠ 0)).length_le
  rw [and_assoc]
  refine and_congr_right fun hout => ?_
  rw [safeStrncatStores_lt_iff (by omega)]
  by_cases hrest : rest = []
  · rw [if_pos hrest, hrest]
    simp
  · rw [if_neg hrest]
    constructor
    · rintro ⟨hbuf, hall⟩
      have hsame : safeStrncat (out.takeWhile (· ≠ 0)) buf n = out.takeWhile (· ≠ 0) ++ buf :=
        safeStrncat_of_lt hbuf
      rw [hsame, safeStrncatStores_lt_iff (by rwa [List.length_append]), List.length_append] at hall
      exact hall
    · intro hall
      have hbuf : (out.takeWhile (· ≠ 0)).length + buf.length < n := by omega
      have hsame : safeStrncat (out.takeWhile (· ≠ 0)) buf n = out.takeWhile (· ≠ 0) ++ buf :=
        safeStrncat_of_lt hbuf
      refine ⟨hbuf, ?_⟩
      rw [hsame, safeStrncatStores_lt_iff (by rwa [List.length_append]), List.length_append]
      exact hall

theorem nbnsStores_lt_iff (n : Nat) (dns : DnsReturn) :
    (∀ w ∈ nbnsStores stray n dns, w.index < n) ↔ NbnsFits stray n dns.name := by
  unfold nbnsStores NbnsFits
  cases hlevel : firstLevel dns.name with
  | notLetter => exact iff_of_true (safeStrncpyStores_lt _ n) (by simp)
  | odd => exact iff_of_true (safeStrncpyStores_lt _ n) (by simp)
  | decoded nbname rest =>
      dsimp only
      by_cases hlength : nbname.length = netbiosNameLen
      · rw [if_neg (not_not.mpr hlength)]
        have hfits : (∀ nbname' rest', FirstLevel.decoded nbname rest = .decoded nbname' rest' →
            nbname'.length = 16 → NameFits stray n nbname' rest') ↔ NameFits stray n nbname rest := by
          constructor
          · exact fun hall => hall nbname rest rfl hlength
          · intro hname nbname' rest' heq _
            injection heq with hnbname hrest
            rwa [← hnbname, ← hrest]
        rw [hfits, nameFits_iff stray n rest hlength, List.forall_mem_append, List.forall_mem_append,
          processNetbiosStores_lt_iff]
        exact nameStores_lt_iff _ _ rest n
      · rw [if_pos hlength]
        refine iff_of_true (safeStrncpyStores_lt _ n) ?_
        intro nbname' rest' heq hlength'
        injection heq with hname
        exact absurd (hname ▸ hlength') hlength

end Fits

/-- `safe_strncat` always leaves the cut concatenation, but stays in its buffer only where the strings
leave room for a NUL; and the printing of a NetBIOS name does where all that it prints fits. -/
theorem safeStrncat_inBuffer_iff (m : Memory) (dst src : CString) (maxlen : Nat)
    (hdst : m.Holds dst.bytes) (hlt : dst.bytes.length < maxlen) (stray : StrayBytes)
    (outnameSize : Nat) (dns : DnsReturn) :
    (((∀ w ∈ safeStrncatStores dst.bytes src.bytes maxlen, w.index < maxlen) ∧
        (m.run (safeStrncatStores dst.bytes src.bytes maxlen)).Holds
          ((dst.bytes ++ src.bytes).take (maxlen - 1))) ↔
      dst.bytes.length + src.bytes.length < maxlen) ∧
    ((∀ w ∈ nbnsStores stray outnameSize dns, w.index < outnameSize) ↔
      NbnsFits stray outnameSize dns.name) := by
  refine ⟨?_, nbnsStores_lt_iff stray outnameSize dns⟩
  have hholds := safeStrncat_holds hdst src.nul_not_mem maxlen
  rw [safeStrncat, if_neg (by omega)] at hholds
  rw [safeStrncatStores_lt_iff hlt]
  exact and_iff_left hholds

/-- A text in a memory of NULs. -/
def shortText (s : List UInt8) : Memory := Memory.run (fun _ => 0) (storesFrom 0 (s ++ [0]))

theorem shortText_holds {s : List UInt8} (h : 0 ∉ s) : (shortText s).Holds s := by
  have hholds := Memory.holds_run_storesFrom (fun _ => 0) s
  rwa [List.takeWhile_eq_self_iff.mpr fun b hb => by simpa using fun hb0 : b = 0 => h (hb0 ▸ hb)] at hholds

def abText : CString := ⟨lit "ab", zero_not_mem_lit (by decide +kernel)⟩

def cdText : CString := ⟨lit "cd", zero_not_mem_lit (by decide +kernel)⟩

theorem safeStrncat_inBuffer_iff_five :
    (∀ w ∈ safeStrncatStores abText.bytes cdText.bytes 5, w.index < 5) ∧
      ((shortText abText.bytes).run (safeStrncatStores abText.bytes cdText.bytes 5)).Holds
        ((abText.bytes ++ cdText.bytes).take (5 - 1)) :=
  (safeStrncat_inBuffer_iff (shortText abText.bytes) abText cdText 5 (shortText_holds abText.nul_not_mem)
    (by decide +kernel) ⟨fun _ => 0, []⟩ 5 ⟨[], 0⟩).1.mpr (by decide +kernel)

/-- Two characters behind two others in a buffer of four bytes put the NUL behind it. -/
theorem not_all_safeStrncat_inBuffer :
    ¬∀ (m : Memory) (dst src : CString) (maxlen : Nat), m.Holds dst.bytes → dst.bytes.length < maxlen →
      (∀ w ∈ safeStrncatStores dst.bytes src.bytes maxlen, w.index < maxlen) ∧
        (m.run (safeStrncatStores dst.bytes src.bytes maxlen)).Holds
          ((dst.bytes ++ src.bytes).take (maxlen - 1)) := by
  intro h
  have hall := (h (shortText abText.bytes) abText cdText 4 (shortText_holds abText.nul_not_mem)
    (by decide +kernel)).1
  revert hall
  decide +kernel

end EtherApe
