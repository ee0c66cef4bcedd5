import EtherApe.Datastructs
import Mathlib.Data.List.Induction
import Mathlib.Data.List.TakeWhile

/-!
# Compacted colors

What `protohash_compact` is for: each color once, where it first occurs, with the protocols of all its
entries in their order. This is said of the strings themselves, with a color in front of the first
semicolon and the names of the protocols between the commas behind it.
-/

namespace EtherApe

open ColorsProtocols

def colorOf (entry : List UInt8) : List UInt8 := entry.takeWhile (· ≠ 59)

def protocolsOf (entry : List UInt8) : List UInt8 := (entry.dropWhile (· ≠ 59)).drop 1

def colorKey (entry : List UInt8) : List UInt8 := (colorOf entry).map gAsciiTolower

def namesOf (protocols : List UInt8) : List (List UInt8) :=
  (protocols.splitOn 44).filter fun name => !name.isEmpty

/-- `color[;proto[,proto...]]` without white space. -/
structure Documented (entry : List UInt8) : Prop where
  color : colorOf entry ≠ []
  protocols : 59 ∉ protocolsOf entry
  noSpace : ∀ b ∈ entry, gAsciiIsspace b = false

theorem namesOf_nil : namesOf [] = [] := rfl

theorem namesOf_append (xs ys : List UInt8) :
    namesOf (xs ++ 44 :: ys) = namesOf xs ++ namesOf ys := by
  unfold namesOf
  rw [List.splitOn_append_cons_self, List.filter_append]

theorem isspace_of_mem_delimiters {b : UInt8} (h : b ∈ colorDelimiters) :
    b = 59 ∨ gAsciiIsspace b := by
  have hdelimiters : colorDelimiters = [59, 32, 9, 10] := by decide
  rw [hdelimiters] at h
  simp only [List.mem_cons, List.not_mem_nil, or_false] at h
  rcases h with rfl | rfl | rfl | rfl
  · exact Or.inl rfl
  · exact Or.inr rfl
  · exact Or.inr rfl
  · exact Or.inr rfl

namespace ColorsProtocols

def names (col : ColorsProtocols) : List (List UInt8) := namesOf (col.protocols.getD [])

theorem names_append (col new : ColorsProtocols) :
    (col.append new).names = col.names ++ new.names := by
  unfold append names
  cases new.protocols with
  | none => simp [namesOf_nil]
  | some protocols =>
      dsimp only
      split_ifs with hempty
      · subst hempty
        simp [namesOf_nil]
      · cases col.protocols with
        | none => simp [namesOf_nil]
        | some old =>
            show namesOf (gStrjoinv (Printf.lit ",") [old, protocols]) = _
            rw [gStrjoinv_pair, show Printf.lit "," = [44] by decide, List.append_assoc,
              List.singleton_append, namesOf_append]
            rfl

theorem Plain.parts_joined {col : ColorsProtocols} (h : col.Plain) :
    colorOf col.joined = col.color ∧ protocolsOf col.joined = col.protocols.getD [] := by
  obtain ⟨color, protocols⟩ := col
  have hsemicolon : ∀ b ∈ color, decide (b ≠ 59) = true := by
    intro b hb
    have hplain := h.color b hb
    simp only [decide_eq_true_eq]
    rintro rfl
    exact hplain (by decide)
  unfold colorOf protocolsOf
  cases protocols with
  | none =>
      rw [joined_none, List.takeWhile_eq_self_iff.mpr hsemicolon,
        List.dropWhile_eq_nil_iff.mpr hsemicolon]
      exact ⟨rfl, rfl⟩
  | some protocols =>
      rw [joined_some, show Printf.lit ";" = [59] by decide, List.append_assoc,
        List.singleton_append, List.takeWhile_append_of_pos hsemicolon,
        List.dropWhile_append_of_pos hsemicolon]
      simp

theorem splitColor_of_documented {entry : List UInt8} (h : Documented entry) :
    ∃ col, splitColor entry = some col ∧ col.color = colorOf entry ∧
      col.names = namesOf (protocolsOf entry) := by
  have hsplit : colorOf entry ++ entry.dropWhile (· ≠ 59) = entry :=
    List.takeWhile_append_dropWhile
  have hcolor : ∀ b ∈ colorOf entry, b ∉ colorDelimiters := by
    intro b hb hdelimiter
    rcases isspace_of_mem_delimiters hdelimiter with rfl | hspace
    · simpa using List.mem_takeWhile_imp hb
    · rw [h.noSpace b ((List.takeWhile_sublist _).subset hb)] at hspace
      cases hspace
  cases hrest : entry.dropWhile (· ≠ 59) with
  | nil =>
      rw [hrest, List.append_nil] at hsplit
      have hjoined : (⟨colorOf entry, none⟩ : ColorsProtocols).joined = entry := by
        rw [joined_none, hsplit]
      have hplain : (⟨colorOf entry, none⟩ : ColorsProtocols).Plain := by
        refine ⟨hcolor, fun p hp => absurd hp (Option.not_mem_none p), ?_⟩
        rw [joined_none]
        exact h.color
      refine ⟨⟨colorOf entry, none⟩, ?_, rfl, ?_⟩
      · rw [← hplain.splitColor_joined, hjoined]
      · rw [protocolsOf, hrest]
        rfl
  | cons b protocols =>
      have hb : b = 59 := by
        have hhead := List.head?_dropWhile_not (· ≠ 59) entry
        rw [hrest] at hhead
        simpa using hhead
      subst hb
      have hprotocols : protocolsOf entry = protocols := by
        rw [protocolsOf, hrest]
        rfl
      have hjoined : (⟨colorOf entry, some protocols⟩ : ColorsProtocols).joined = entry := by
        rw [joined_some, show Printf.lit ";" = [59] by decide, List.append_assoc,
          List.singleton_append, ← hrest, hsplit]
      have hplain : (⟨colorOf entry, some protocols⟩ : ColorsProtocols).Plain := by
        refine ⟨hcolor, fun p hp b hb => ?_, joined_some_ne_nil _ _⟩
        obtain rfl := Option.some.inj hp
        have hspace : gAsciiIsspace b = false := by
          apply h.noSpace b
          rw [← hsplit, hrest]
          exact List.mem_append_right _ (List.mem_cons_of_mem _ hb)
        refine ⟨fun hdelimiter => ?_, hspace⟩
        rcases isspace_of_mem_delimiters hdelimiter with rfl | hspace'
        · exact h.protocols (hprotocols ▸ hb)
        · rw [hspace] at hspace'
          cases hspace'
      refine ⟨⟨colorOf entry, some protocols⟩, ?_, rfl, ?_⟩
      · rw [← hplain.splitColor_joined, hjoined]
      · rw [hprotocols]
        rfl

/-- What a color that was found is collapsed into. -/
theorem mem_of_collapse {new : ColorsProtocols} {work work' : List ColorsProtocols}
    (hnodup : (work.map key).Nodup) (h : new.collapse work = some work') {col' : ColorsProtocols}
    (hcol' : col' ∈ work') :
    (col' ∈ work ∧ col'.key ≠ new.key) ∨
      ∃ col ∈ work, col.key = new.key ∧ col' = col.append new := by
  induction work generalizing work' with
  | nil => exact absurd h (by simp [collapse])
  | cons col work ih =>
      obtain ⟨hfresh, hnodup⟩ := List.nodup_cons.mp hnodup
      unfold collapse at h
      split at h
      next hkey =>
        obtain rfl := Option.some.inj h
        rcases List.mem_cons.mp hcol' with rfl | hcol'
        · exact Or.inr ⟨col, List.mem_cons_self, hkey, rfl⟩
        · refine Or.inl ⟨List.mem_cons_of_mem _ hcol', fun hkey' => hfresh ?_⟩
          rw [hkey, ← hkey']
          exact List.mem_map_of_mem hcol'
      next hkey =>
        obtain ⟨rest, hrest, rfl⟩ := Option.map_eq_some_iff.mp h
        rcases List.mem_cons.mp hcol' with rfl | hcol'
        · exact Or.inl ⟨List.mem_cons_self, hkey⟩
        · rcases ih hnodup hrest hcol' with ⟨hmem, hne⟩ | ⟨old, hold, happend⟩
          · exact Or.inl ⟨List.mem_cons_of_mem _ hmem, hne⟩
          · exact Or.inr ⟨old, List.mem_cons_of_mem _ hold, happend⟩

/-- The colors found in the given entries: each once, as it first occurs, with all its names. -/
structure Groups (entries : List (List UInt8)) (work : List ColorsProtocols) : Prop where
  collected : Collected work
  keys : (work.map key).reverse = (entries.map colorKey).eraseDups
  names : ∀ col ∈ work, col.names =
    (entries.filter fun entry => colorKey entry = col.key).flatMap fun entry =>
      namesOf (protocolsOf entry)

theorem Groups.addColor {entries : List (List UInt8)} {work : List ColorsProtocols}
    (h : Groups entries work) {entry : List UInt8} (hentry : Documented entry) :
    Groups (entries ++ [entry]) (addColor work entry) := by
  obtain ⟨new, hsplit, hcolor, hnames⟩ := splitColor_of_documented hentry
  have hkey : new.key = colorKey entry := by rw [key, hcolor, colorKey]
  have hcollected := h.collected.addColor entry
  have hmem : colorKey entry ∈ entries.map colorKey ↔ new.key ∈ work.map key := by
    rw [← hkey, ← List.mem_eraseDups, ← h.keys, List.mem_reverse]
  have hflat : ∀ k, ((entries ++ [entry]).filter fun e => colorKey e = k).flatMap (fun e =>
      namesOf (protocolsOf e)) = (entries.filter fun e => colorKey e = k).flatMap (fun e =>
        namesOf (protocolsOf e)) ++ if new.key = k then new.names else [] := by
    intro k
    rw [List.filter_append, List.flatMap_append, hkey, hnames]
    by_cases hk : colorKey entry = k
    · simp [hk]
    · simp [hk]
  unfold EtherApe.addColor at hcollected ⊢
  rw [hsplit] at hcollected ⊢
  dsimp only at hcollected ⊢
  cases hwork : new.collapse work with
  | none =>
      rw [hwork, Option.getD_none] at hcollected
      have hfresh := collapse_eq_none.mp hwork
      refine ⟨hcollected, ?_, ?_⟩
      · rw [List.map_append, List.eraseDups_append, ← h.keys, Option.getD_none, List.map_cons,
          List.reverse_cons, hkey]
        congr 1
        rw [List.map_singleton, List.removeAll, List.filter_cons_of_pos]
        · rfl
        · simpa using mt hmem.mp hfresh
      · intro col hcol
        rw [hflat]
        rcases List.mem_cons.mp hcol with rfl | hcol
        · rw [if_pos rfl, List.filter_eq_nil_iff.mpr]
          · rfl
          · intro e he hsame
            refine hfresh (hmem.mp ?_)
            rw [← hkey, ← of_decide_eq_true hsame]
            exact List.mem_map_of_mem he
        · rw [if_neg, List.append_nil]
          · exact h.names col hcol
          · intro hsame
            apply hfresh
            rw [hsame]
            exact List.mem_map_of_mem hcol
  | some work' =>
      rw [hwork, Option.getD_some] at hcollected
      have hfound : new.key ∈ work.map key := by
        by_contra hfresh
        rw [collapse_eq_none.mpr hfresh] at hwork
        cases hwork
      have hkeys := (collapse_eq_some (plain_of_splitColor hsplit) hwork).1
      refine ⟨hcollected, ?_, ?_⟩
      · rw [List.map_append, List.eraseDups_append, ← h.keys, Option.getD_some, hkeys,
          List.map_singleton, List.removeAll, List.filter_cons_of_neg]
        · simp
        · simpa using hmem.mpr hfound
      · intro col' hcol'
        rw [hflat]
        rcases mem_of_collapse h.collected.nodup hwork hcol' with
          ⟨hcol, hne⟩ | ⟨col, hcol, hsame, rfl⟩
        · rw [if_neg (Ne.symm hne), List.append_nil]
          exact h.names col' hcol
        · rw [append_key, if_pos hsame.symm, names_append, h.names col hcol]

theorem groups_foldl {entries : List (List UInt8)} (h : ∀ entry ∈ entries, Documented entry) :
    Groups entries (entries.foldl EtherApe.addColor []) := by
  induction entries using List.reverseRecOn with
  | nil => exact ⟨⟨by simp, by simp⟩, rfl, by simp⟩
  | append_singleton entries entry ih =>
      rw [List.foldl_append]
      refine Groups.addColor (ih fun e he => h e (List.mem_append_left _ he)) ?_
      exact h entry (List.mem_append_right _ List.mem_cons_self)

end ColorsProtocols

/-- **Compaction.** Documented entries are grouped by their colors, in the order of the first of each, with
all names and no more; and to compact what is compacted changes nothing. -/
theorem protohashCompact_groups (entries : List (List UInt8)) :
    ((∀ entry ∈ entries, Documented entry) →
      ((protohashCompact entries).map colorKey).Nodup ∧
      (protohashCompact entries).map colorKey = (entries.map colorKey).eraseDups ∧
      ∀ compacted ∈ protohashCompact entries, namesOf (protocolsOf compacted) =
        (entries.filter fun entry => colorKey entry = colorKey compacted).flatMap fun entry =>
          namesOf (protocolsOf entry)) ∧
    protohashCompact (protohashCompact entries) = protohashCompact entries := by
  refine ⟨fun h => ?_, protohashCompact_idempotent entries⟩
  have hgroups := groups_foldl h
  have hkey : ∀ col ∈ entries.foldl addColor [], colorKey col.joined = col.key := by
    intro col hcol
    rw [colorKey, (hgroups.collected.plain col hcol).parts_joined.1, key]
  have hkeys : (protohashCompact entries).map colorKey =
      ((entries.foldl addColor []).map key).reverse := by
    rw [protohashCompact, List.map_map, List.map_reverse]
    exact congrArg List.reverse (List.map_congr_left hkey)
  refine ⟨?_, hkeys.trans hgroups.keys, ?_⟩
  · rw [hkeys]
    exact List.nodup_reverse.mpr hgroups.collected.nodup
  · intro compacted hcompacted
    obtain ⟨col, hcol, rfl⟩ := List.mem_map.mp hcompacted
    rw [List.mem_reverse] at hcol
    rw [(hgroups.collected.plain col hcol).parts_joined.2, hkey col hcol]
    exact hgroups.names col hcol

/-- Two of three entries have the same color. -/
theorem protohashCompact_groups_two_colors :
    let entries := [Printf.lit "red;tcp", Printf.lit "Blue;", Printf.lit "RED;udp,ip"]
    protohashCompact entries = [Printf.lit "red;tcp,udp,ip", Printf.lit "Blue;"] ∧
      ((protohashCompact entries).map colorKey).Nodup := by
  refine ⟨by decide +kernel, ((protohashCompact_groups _).1 ?_).1⟩
  simp only [List.forall_mem_cons]
  refine ⟨?_, ?_, ?_, by simp⟩
  · exact ⟨by decide +kernel, by decide +kernel, by decide +kernel⟩
  · exact ⟨by decide +kernel, by decide +kernel, by decide +kernel⟩
  · exact ⟨by decide +kernel, by decide +kernel, by decide +kernel⟩

end EtherApe
