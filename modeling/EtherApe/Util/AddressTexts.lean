import EtherApe.Lib.Numerals
import EtherApe.Util

/-!
# Texts of addresses

An address can be read back from its text: the fields between the separators are its numbers, and where
an IPv6 text leaves out a run of zero groups there are as many as make it whole. So addresses with the
same text are the same, whatever run was chosen for the abbreviation.
-/

namespace EtherApe

open Printf

/-! ### Fields -/

theorem splitOn_separated {sep : UInt8} {numbers : List (List UInt8)} (hne : numbers ≠ [])
    (h : ∀ number ∈ numbers, sep ∉ number) : (separated [sep] numbers).splitOn sep = numbers := by
  induction numbers with
  | nil => exact absurd rfl hne
  | cons number numbers ih =>
      have hnumber := h number List.mem_cons_self
      cases numbers with
      | nil =>
          rw [separated, List.flatMap_nil, List.append_nil]
          exact List.splitOn_eq_singleton hnumber
      | cons next numbers =>
          have hrest := ih (List.cons_ne_nil _ _) fun n hn => h n (List.mem_cons_of_mem _ hn)
          change (number ++ sep :: separated [sep] (next :: numbers)).splitOn sep = _
          rw [List.splitOn_append_cons_self, hrest, List.splitOn_eq_singleton hnumber,
            List.singleton_append]

theorem splitOn_separated_map {α : Type*} {sep : UInt8} {f : α → List UInt8} {xs : List α}
    (hne : xs ≠ []) (hsep : ¬IsHexDigit sep) (hf : ∀ x, ∀ b ∈ f x, IsHexDigit b) :
    (separated [sep] (xs.map f)).splitOn sep = xs.map f := by
  apply splitOn_separated (fun h => hne (List.map_eq_nil_iff.mp h))
  intro number hnumber
  obtain ⟨x, _, rfl⟩ := List.mem_map.mp hnumber
  exact not_mem_of_isHexDigit (hf x) hsep

def octets (text : List UInt8) : List Nat := (text.splitOn 46).map (value 10)

theorem octets_ipv4ToStr {ad : List UInt8} (h : ad ≠ []) :
    octets (ipv4ToStr ad) = ad.map UInt8.toNat := by
  change ((separated [46] (ad.map fun b => decimal b.toNat)).splitOn 46).map (value 10) = _
  rw [splitOn_separated_map h (by decide) fun b => isHexDigit_of_mem_decimal, List.map_map]
  exact List.map_congr_left fun b _ => value_decimal b.toNat

theorem etherToStr_read {ad : List UInt8} (h : ad ≠ []) :
    ((etherToStr ad).splitOn 58).map (value 16) = ad.map UInt8.toNat := by
  change ((separated [58] (ad.map fun b => padded 2 (hex b.toNat))).splitOn 58).map (value 16) = _
  rw [splitOn_separated_map h (by decide) fun b _ =>
    isHexDigit_of_mem_padded fun _ => isHexDigit_of_mem_hex _, List.map_map]
  exact List.map_congr_left fun b _ => (value_padded 16 2 _).trans (value_hex b.toNat)

theorem map_toNat_inj {ad ad' : List UInt8} : ad.map UInt8.toNat = ad'.map UInt8.toNat ↔ ad = ad' :=
  (List.map_injective_iff.mpr fun _ _ => UInt8.toNat_inj.mp).eq_iff

theorem ipv4ToStr_inj {ad ad' : List UInt8} (h : ad ≠ []) (h' : ad' ≠ [])
    (htext : ipv4ToStr ad = ipv4ToStr ad') : ad = ad' := by
  have hoctets := congrArg octets htext
  rw [octets_ipv4ToStr h, octets_ipv4ToStr h'] at hoctets
  exact map_toNat_inj.mp hoctets

theorem etherToStr_inj {ad ad' : List UInt8} (h : ad ≠ []) (h' : ad' ≠ [])
    (htext : etherToStr ad = etherToStr ad') : ad = ad' := by
  have hnumbers := congrArg (fun text : List UInt8 => (text.splitOn 58).map (value 16)) htext
  rw [etherToStr_read h, etherToStr_read h'] at hnumbers
  exact map_toNat_inj.mp hnumbers

theorem colon_not_mem_ipv4ToStr {ad : List UInt8} : 58 ∉ ipv4ToStr ad := by
  intro h
  rcases mem_ipv4ToStr h with h | h
  · exact absurd h (by decide)
  · exact absurd h (by decide)

/-! ### Groups -/

theorem ipv6Groups_inj {ad ad' : List UInt8} (hlength : ad.length = ad'.length)
    (heven : ad.length % 2 = 0) (h : ipv6Groups ad = ipv6Groups ad') : ad = ad' := by
  induction ad using ipv6Groups.induct generalizing ad' with
  | case1 a b rest ih =>
      match ad', hlength with
      | a' :: b' :: rest', hlength =>
          obtain ⟨hgroup, hgroups⟩ := List.cons.inj h
          have hb := b.toNat_lt
          have hb' := b'.toNat_lt
          have ha : a = a' := UInt8.toNat_inj.mp (by omega)
          have hsnd : b = b' := UInt8.toNat_inj.mp (by omega)
          simp only [List.length_cons] at hlength heven
          rw [ha, hsnd, ih (by omega) (by omega) hgroups]
  | case2 ad hshort =>
      have hnil : ad = [] := by
        match ad, hshort with
        | [], _ => rfl
        | [_], _ => simp at heven
        | a :: b :: rest, hshort => exact absurd rfl (hshort a b rest)
      subst hnil
      exact (List.length_eq_zero_iff.mp hlength.symm).symm

theorem length_ipv6Groups (ad : List UInt8) : (ipv6Groups ad).length = ad.length / 2 := by
  induction ad using ipv6Groups.induct with
  | case1 a b rest ih =>
      rw [ipv6Groups, List.length_cons, ih]
      simp only [List.length_cons]
      omega
  | case2 ad hshort =>
      match ad, hshort with
      | [], _ => rfl
      | [_], _ => simp [ipv6Groups]
      | a :: b :: rest, hshort => exact absurd rfl (hshort a b rest)

theorem drop_ipv6Groups (k : Nat) (ad : List UInt8) :
    (ipv6Groups ad).drop k = ipv6Groups (ad.drop (2 * k)) := by
  induction ad using ipv6Groups.induct generalizing k with
  | case1 a b rest ih =>
      cases k with
      | zero => rfl
      | succ k => exact ih k
  | case2 ad hshort =>
      match ad, hshort with
      | [], _ => simp [ipv6Groups]
      | [_], _ => cases k <;> simp [ipv6Groups, Nat.mul_succ]
      | a :: b :: rest, hshort => exact absurd rfl (hshort a b rest)

theorem eq_zeroRun (groups : List Nat) (base : Nat) :
    groups = groups.take base ++ List.replicate (zeroRun groups base) 0 ++
      groups.drop (base + zeroRun groups base) := by
  have hrun : (groups.drop base).takeWhile (· = 0) = List.replicate (zeroRun groups base) 0 := by
    rw [List.eq_replicate_iff]
    exact ⟨rfl, fun g hg => by simpa using List.mem_takeWhile_imp hg⟩
  have hrest : (groups.drop base).dropWhile (· = 0) = groups.drop (base + zeroRun groups base) := by
    have hsplit := List.takeWhile_append_dropWhile (p := (· = 0)) (l := groups.drop base)
    rw [← List.drop_drop, ← hsplit, zeroRun, List.drop_left, hsplit]
  conv_lhs => rw [← List.take_append_drop base groups, ← List.takeWhile_append_dropWhile
    (p := (· = 0)) (l := groups.drop base), hrun, hrest, ← List.append_assoc]

/-! ### IPv6 -/

/-- The groups of a field between colons: none, the two of an IPv4 address, or one. -/
def fieldGroups (field : List UInt8) : List Nat :=
  if field = [] then []
  else if 46 ∈ field then ipv6Groups ((octets field).map UInt8.ofNat)
  else [value 16 field]

/-- The groups of an IPv6 text; from the first empty field on they are the last ones. -/
def readIpv6 (text : List UInt8) : List Nat :=
  let fields := text.splitOn 58
  let front := (fields.takeWhile (· ≠ [])).flatMap fieldGroups
  let back := (fields.dropWhile (· ≠ [])).flatMap fieldGroups
  front ++ List.replicate (8 - front.length - back.length) 0 ++ back

theorem flatMap_fieldGroups_hex (gs : List Nat) : (gs.map hex).flatMap fieldGroups = gs := by
  have hfield : ∀ g, fieldGroups (hex g) = [g] := by
    intro g
    have hne : hex g ≠ [] := digits_ne_nil (by decide) g
    have hdot : 46 ∉ hex g := not_mem_of_isHexDigit isHexDigit_of_mem_hex (by decide)
    rw [fieldGroups, if_neg hne, if_neg hdot, value_hex]
  induction gs with
  | nil => rfl
  | cons g gs ih => rw [List.map_cons, List.flatMap_cons, hfield, ih, List.singleton_append]

theorem fieldGroups_ipv4ToStr {ad : List UInt8} (h : 2 ≤ ad.length) :
    fieldGroups (ipv4ToStr ad) = ipv6Groups ad := by
  match ad, h with
  | a :: b :: rest, _ =>
      have hdot : 46 ∈ ipv4ToStr (a :: b :: rest) :=
        List.mem_append_right _ (List.mem_append_left _ (List.mem_append_left _ List.mem_cons_self))
      rw [fieldGroups, if_neg (List.ne_nil_of_mem hdot), if_pos hdot,
        octets_ipv4ToStr (List.cons_ne_nil _ _), List.map_map]
      have hid : UInt8.ofNat ∘ UInt8.toNat = id := funext fun b => UInt8.ofNat_toNat
      rw [hid, List.map_id]

theorem splitOn_groups {gs : List Nat} (h : gs ≠ []) :
    (separated (lit ":") (gs.map hex)).splitOn 58 = gs.map hex := by
  change (separated [58] (gs.map hex)).splitOn 58 = gs.map hex
  exact splitOn_separated_map h (by decide) fun _ => isHexDigit_of_mem_hex

theorem hex_fields_ne_nil {gs : List Nat} {field : List UInt8} (h : field ∈ gs.map hex) :
    field ≠ [] := by
  obtain ⟨g, _, rfl⟩ := List.mem_map.mp h
  exact digits_ne_nil (by decide) g

theorem readIpv6_groups {gs : List Nat} (h : gs.length = 8) :
    readIpv6 (separated (lit ":") (gs.map hex)) = gs := by
  have hne : gs ≠ [] := List.ne_nil_of_length_eq_add_one h
  have hall : ∀ field ∈ gs.map hex, decide (field ≠ []) = true := fun field hfield =>
    decide_eq_true (hex_fields_ne_nil hfield)
  rw [readIpv6, splitOn_groups hne, List.takeWhile_eq_self_iff.mpr hall, List.dropWhile_eq_nil_iff.mpr hall,
    flatMap_fieldGroups_hex, h]
  simp

/-- A text with a gap, which stands for as many zero groups as are missing. -/
theorem readIpv6_gap (gs : List Nat) (rest : List UInt8) :
    readIpv6 (separated (lit ":") (gs.map hex) ++ lit "::" ++ rest) =
      gs ++ List.replicate (8 - gs.length - ((rest.splitOn 58).flatMap fieldGroups).length) 0 ++
        (rest.splitOn 58).flatMap fieldGroups := by
  have hsplit : (separated (lit ":") (gs.map hex) ++ lit "::" ++ rest).splitOn 58 =
      (separated (lit ":") (gs.map hex)).splitOn 58 ++ [] :: rest.splitOn 58 := by
    have hlit : separated (lit ":") (gs.map hex) ++ lit "::" ++ rest =
        separated (lit ":") (gs.map hex) ++ 58 :: ([] ++ 58 :: rest) := List.append_assoc _ _ _
    rw [hlit, List.splitOn_append_cons_self, List.splitOn_append_cons_self, List.splitOn_nil,
      List.singleton_append]
  rw [readIpv6, hsplit]
  cases gs with
  | nil =>
      change ([] : List Nat) ++ _ ++ ([] ++ ([] ++ (rest.splitOn 58).flatMap fieldGroups)) = _
      rfl
  | cons g gs =>
      have hall : ∀ field ∈ (g :: gs).map hex, decide (field ≠ []) = true := fun field hfield =>
        decide_eq_true (hex_fields_ne_nil hfield)
      rw [splitOn_groups (List.cons_ne_nil g gs), List.takeWhile_append_of_pos hall,
        List.dropWhile_append_of_pos hall]
      have htake : ([] :: rest.splitOn 58).takeWhile (fun field => decide (field ≠ [])) = [] := rfl
      have hdrop : ([] :: rest.splitOn 58).dropWhile (fun field => decide (field ≠ [])) =
          [] :: rest.splitOn 58 := rfl
      rw [htake, hdrop, List.append_nil, flatMap_fieldGroups_hex, List.flatMap_cons]
      rfl

/-- The gap is the run of zero groups between the groups before it and those behind it. -/
theorem readIpv6_of_gap (gs : List Nat) (len : Nat) {back : List Nat} {rest : List UInt8}
    (hback : (rest.splitOn 58).flatMap fieldGroups = back)
    (hlength : (gs ++ List.replicate len 0 ++ back).length = 8) :
    readIpv6 (separated (lit ":") (gs.map hex) ++ lit "::" ++ rest) =
      gs ++ List.replicate len 0 ++ back := by
  rw [List.length_append, List.length_append, List.length_replicate] at hlength
  have hlen : 8 - gs.length - back.length = len := by omega
  rw [readIpv6_gap, hback, hlen]

theorem flatMap_fieldGroups_groups (gs : List Nat) :
    ((separated (lit ":") (gs.map hex)).splitOn 58).flatMap fieldGroups = gs := by
  cases gs with
  | nil => rfl
  | cons g gs => rw [splitOn_groups (List.cons_ne_nil g gs), flatMap_fieldGroups_hex]

theorem flatMap_fieldGroups_ipv4 {ad : List UInt8} (h : 2 ≤ ad.length) :
    ((ipv4ToStr ad).splitOn 58).flatMap fieldGroups = ipv6Groups ad := by
  rw [List.splitOn_eq_singleton colon_not_mem_ipv4ToStr, List.flatMap_singleton,
    fieldGroups_ipv4ToStr h]

theorem readIpv6_ipv6ToStr {ad : List UInt8} (h : ad.length = 16) :
    readIpv6 (ipv6ToStr ad) = ipv6Groups ad := by
  have hlength : (ipv6Groups ad).length = 8 := by rw [length_ipv6Groups, h]
  have hipv4 : ((ipv4ToStr (ad.drop 12)).splitOn 58).flatMap fieldGroups =
      (ipv6Groups ad).drop 6 := by
    rw [flatMap_fieldGroups_ipv4 (by rw [List.length_drop, h]; decide), drop_ipv6Groups]
  have hruns := eq_zeroRun (ipv6Groups ad) (longestRun (ipv6Groups ad))
  rw [ipv6ToStr]
  dsimp only
  generalize ipv6Groups ad = groups at *
  generalize longestRun groups = base at *
  generalize zeroRun groups base = len at *
  have hparts := (congrArg List.length hruns).symm.trans hlength
  split_ifs with hshort hcompatible hmapped
  · exact readIpv6_groups hlength
  · obtain ⟨rfl, rfl⟩ := hcompatible
    exact (readIpv6_of_gap [] 6 hipv4 hparts).trans hruns.symm
  · obtain ⟨rfl, rfl, hgroup⟩ := hmapped
    have hback : ((lit "ffff:" ++ ipv4ToStr (ad.drop 12)).splitOn 58).flatMap fieldGroups =
        groups.drop 5 := by
      have hlit : lit "ffff:" = hex 0xffff ++ [58] := by decide +kernel
      have hhex : 58 ∉ hex 0xffff := not_mem_of_isHexDigit isHexDigit_of_mem_hex (by decide)
      obtain ⟨hlt, hget⟩ := List.getElem?_eq_some_iff.mp hgroup
      rw [hlit, List.append_assoc, List.singleton_append, List.splitOn_append_cons_self,
        List.splitOn_eq_singleton hhex, List.flatMap_append, hipv4, List.drop_eq_getElem_cons hlt, hget]
      exact congrArg (· ++ groups.drop 6) (flatMap_fieldGroups_hex [0xffff])
    exact (readIpv6_of_gap [] 5 hback hparts).trans hruns.symm
  · exact (readIpv6_of_gap _ len (flatMap_fieldGroups_groups _) hparts).trans hruns.symm

theorem ipv6ToStr_inj {ad ad' : List UInt8} (h : ad.length = 16) (h' : ad'.length = 16)
    (htext : ipv6ToStr ad = ipv6ToStr ad') : ad = ad' := by
  have hgroups := congrArg readIpv6 htext
  rw [readIpv6_ipv6ToStr h, readIpv6_ipv6ToStr h'] at hgroups
  exact ipv6Groups_inj (h.trans h'.symm) (by rw [h]) hgroups

theorem colon_mem_ipv6ToStr {ad : List UInt8} (h : ad.length = 16) : 58 ∈ ipv6ToStr ad := by
  have hlength : (ipv6Groups ad).length = 8 := by rw [length_ipv6Groups, h]
  have hcolons : (58 : UInt8) ∈ lit "::" := List.mem_cons_self
  rw [ipv6ToStr]
  dsimp only
  split_ifs
  · have hpos : 0 < (ipv6Groups ad).length := by omega
    obtain ⟨g, rest, hgroups⟩ := List.exists_cons_of_length_pos hpos
    have hrest : 0 < rest.length := by
      rw [hgroups, List.length_cons] at hlength
      omega
    obtain ⟨g', groups, rfl⟩ := List.exists_cons_of_length_pos hrest
    rw [hgroups]
    exact List.mem_append_right _ (List.mem_append_left _ (List.mem_append_left _ List.mem_cons_self))
  · exact List.mem_append_left _ hcolons
  · exact List.mem_append_left _ List.mem_cons_self
  · exact List.mem_append_left _ (List.mem_append_right _ hcolons)

end EtherApe
