import EtherApe.PrefDialog
import EtherApe.Datastructs.ColorCycle
import EtherApe.Lib.Numerals

/-!
# Rows and compacted colors

What becomes of the rows of the color list when they are written to the preferences and read again. The
written vector has an entry for each color of the rows, in the order of their first rows, with the protocols
of all of them; read into rows and written once more it stays as it is.
-/

namespace EtherApe.PrefDialog

open Printf Colors ColorsProtocols

/-! ### First occurrences -/

section FirstOccurrences

variable {α : Type*} [DecidableEq α]

theorem eraseDups_concat (xs : List α) (x : α) :
    (xs ++ [x]).eraseDups = if x ∈ xs then xs.eraseDups else xs.eraseDups ++ [x] := by
  rw [List.eraseDups_append]
  by_cases hx : x ∈ xs
  · have hremoved : [x].removeAll xs = [] := by simp [List.removeAll, hx]
    rw [hremoved, if_pos hx, List.eraseDups_nil, List.append_nil]
  · have hremoved : [x].removeAll xs = [x] := by simp [List.removeAll, hx]
    rw [hremoved, if_neg hx]
    rfl

theorem nodup_eraseDups (xs : List α) : xs.eraseDups.Nodup := by
  induction xs using List.reverseRecOn with
  | nil => exact List.nodup_nil
  | append_singleton xs x ih =>
      rw [eraseDups_concat]
      split
      · exact ih
      next hx =>
        apply List.nodup_append.mpr
        refine ⟨ih, List.nodup_singleton x, ?_⟩
        intro a ha b hb hab
        apply hx
        rw [← List.mem_singleton.mp hb, ← hab]
        exact List.mem_eraseDups.mp ha

end FirstOccurrences

/-! ### Colors of 24 bits -/

/-- The bytes of a color that are written. -/
structure Rgb where
  red : UInt8
  green : UInt8
  blue : UInt8
deriving DecidableEq

def rgbOf (gdkColor : GdkColor) : Rgb where
  red := (gdkColor.red >>> 8).toUInt8
  green := (gdkColor.green >>> 8).toUInt8
  blue := (gdkColor.blue >>> 8).toUInt8

def twoDigits (byte : UInt8) : List UInt8 := padded 2 (hex byte.toNat)

def Rgb.text (rgb : Rgb) : List UInt8 :=
  lit "#" ++ (twoDigits rgb.red ++ (twoDigits rgb.green ++ twoDigits rgb.blue))

theorem hexByte_eq (component : UInt16) : hexByte component = twoDigits (component >>> 8).toUInt8 := by
  have hlt : (component >>> 8).toNat < 256 := by
    have hcomponent := component.toNat_lt
    rw [UInt16.toNat_shiftRight, Nat.shiftRight_eq_div_pow]
    exact Nat.div_lt_of_lt_mul (by simpa using hcomponent)
  rw [hexByte, twoDigits, UInt16.toNat_toUInt8, Nat.mod_eq_of_lt hlt]

def ColorRow.rgb (row : ColorRow) : Rgb := rgbOf row.gdkColor

theorem ColorRow.entry_eq (row : ColorRow) : row.entry = row.rgb.text ++ 59 :: row.protocol := by
  rw [entry, hexByte_eq, hexByte_eq, hexByte_eq, rgb, rgbOf, Rgb.text,
    show lit ";" = [59] by decide]
  simp only [List.append_assoc, List.singleton_append]

theorem length_twoDigits (byte : UInt8) : (twoDigits byte).length = 2 := by
  have hall : ∀ n < 256, (padded 2 (hex n)).length = 2 := by decide +kernel
  exact hall _ byte.toNat_lt

theorem twoDigits_inj {a b : UInt8} (h : twoDigits a = twoDigits b) : a = b := by
  apply UInt8.toNat_inj.mp
  rw [← value_hex a.toNat, ← value_hex b.toNat, ← value_padded 16 2 (hex a.toNat),
    ← value_padded 16 2 (hex b.toNat)]
  exact congrArg (value 16) h

theorem Rgb.text_inj {a b : Rgb} (h : a.text = b.text) : a = b := by
  obtain ⟨hred, hrest⟩ := List.append_inj (List.append_cancel_left h)
    (by rw [length_twoDigits, length_twoDigits])
  obtain ⟨hgreen, hblue⟩ := List.append_inj hrest (by rw [length_twoDigits, length_twoDigits])
  obtain ⟨⟩ := a
  obtain ⟨⟩ := b
  rw [Rgb.mk.injEq]
  exact ⟨twoDigits_inj hred, twoDigits_inj hgreen, twoDigits_inj hblue⟩

theorem Rgb.mem_text {rgb : Rgb} {b : UInt8} (h : b ∈ rgb.text) : b = 35 ∨ IsHexDigit b := by
  have hdigits : ∀ byte : UInt8, ∀ b ∈ twoDigits byte, IsHexDigit b := fun byte b hb =>
    isHexDigit_of_mem_padded isHexDigit_of_mem_hex hb
  simp only [text, List.mem_append] at h
  obtain h | h | h | h := h
  · exact Or.inl (List.mem_singleton.mp h)
  · exact Or.inr (hdigits _ b h)
  · exact Or.inr (hdigits _ b h)
  · exact Or.inr (hdigits _ b h)

theorem Rgb.not_mem_delimiters {rgb : Rgb} {b : UInt8} (h : b ∈ rgb.text) : b ∉ colorDelimiters := by
  intro hdelimiter
  have hall : ∀ d ∈ colorDelimiters, d ≠ 35 ∧ ¬IsHexDigit d := by decide +kernel
  obtain ⟨hne, hdigit⟩ := hall b hdelimiter
  exact (mem_text h).elim hne hdigit

theorem tolower_of_isHexDigit {b : UInt8} (h : b = 35 ∨ IsHexDigit b) : gAsciiTolower b = b := by
  have hall : ∀ n < 256, (n = 35 ∨ IsHexDigit (UInt8.ofNat n)) →
      gAsciiTolower (UInt8.ofNat n) = UInt8.ofNat n := by decide +kernel
  rw [← UInt8.ofNat_toNat (x := b)]
  apply hall b.toNat b.toNat_lt
  rw [UInt8.ofNat_toNat]
  exact h.imp_left fun hb => by rw [hb]; rfl

theorem Rgb.tolower_text (rgb : Rgb) : rgb.text.map gAsciiTolower = rgb.text := by
  calc rgb.text.map gAsciiTolower = rgb.text.map id :=
        List.map_congr_left fun b hb => tolower_of_isHexDigit (mem_text hb)
    _ = rgb.text := List.map_id _

/-! ### Protocols of a color -/

/-- The protocols of a row as they are written, up to the first delimiter and without spaces. -/
def ColorRow.written (row : ColorRow) : List UInt8 :=
  removeSpaces (row.protocol.takeWhile fun b => b ∉ colorDelimiters)

/-- The protocols of a further row of a color come behind those of the first. -/
def joinProtocols (protocols new : List UInt8) : List UInt8 :=
  if new = [] then protocols else protocols ++ 44 :: new

def joinAll : List (List UInt8) → List UInt8
  | [] => []
  | protocols :: others => others.foldl joinProtocols protocols

theorem joinAll_concat {texts : List (List UInt8)} (h : texts ≠ []) (new : List UInt8) :
    joinAll (texts ++ [new]) = joinProtocols (joinAll texts) new := by
  obtain ⟨protocols, others, rfl⟩ := List.exists_cons_of_ne_nil h
  exact List.foldl_append

def rowColors (rows : List ColorRow) : List Rgb := (rows.map ColorRow.rgb).eraseDups

def rowsOf (rows : List ColorRow) (rgb : Rgb) : List ColorRow := rows.filter fun row => row.rgb = rgb

def protocolsUnder (rows : List ColorRow) (rgb : Rgb) : List UInt8 :=
  joinAll ((rowsOf rows rgb).map ColorRow.written)

theorem mem_rowColors {rows : List ColorRow} {rgb : Rgb} :
    rgb ∈ rowColors rows ↔ ∃ row ∈ rows, row.rgb = rgb := by
  rw [rowColors, List.mem_eraseDups, List.mem_map]

theorem rowsOf_concat (rows : List ColorRow) (row : ColorRow) (rgb : Rgb) :
    rowsOf (rows ++ [row]) rgb = rowsOf rows rgb ++ if row.rgb = rgb then [row] else [] := by
  rw [rowsOf, List.filter_append, rowsOf, List.filter_singleton]
  by_cases h : row.rgb = rgb
  · rw [if_pos h, decide_eq_true h]
    rfl
  · rw [if_neg h, decide_eq_false h]
    rfl

theorem protocolsUnder_concat_ne {rows : List ColorRow} {row : ColorRow} {rgb : Rgb} (h : row.rgb ≠ rgb) :
    protocolsUnder (rows ++ [row]) rgb = protocolsUnder rows rgb := by
  rw [protocolsUnder, rowsOf_concat, if_neg h, List.append_nil, protocolsUnder]

theorem protocolsUnder_concat_old {rows : List ColorRow} {row : ColorRow} (h : row.rgb ∈ rowColors rows) :
    protocolsUnder (rows ++ [row]) row.rgb = joinProtocols (protocolsUnder rows row.rgb) row.written := by
  obtain ⟨old, hold, hsame⟩ := mem_rowColors.mp h
  have hne : (rowsOf rows row.rgb).map ColorRow.written ≠ [] := by
    apply List.ne_nil_of_mem
    apply List.mem_map_of_mem
    exact List.mem_filter.mpr ⟨hold, decide_eq_true hsame⟩
  rw [protocolsUnder, rowsOf_concat, if_pos rfl, List.map_append, List.map_singleton,
    joinAll_concat hne, protocolsUnder]

theorem protocolsUnder_concat_new {rows : List ColorRow} {row : ColorRow} (h : row.rgb ∉ rowColors rows) :
    protocolsUnder (rows ++ [row]) row.rgb = row.written := by
  have hnone : rowsOf rows row.rgb = [] := by
    apply List.filter_eq_nil_iff.mpr
    intro old hold hsame
    exact h (mem_rowColors.mpr ⟨old, hold, of_decide_eq_true hsame⟩)
  rw [protocolsUnder, rowsOf_concat, hnone, if_pos rfl]
  rfl

theorem rowColors_concat (rows : List ColorRow) (row : ColorRow) :
    rowColors (rows ++ [row]) =
      if row.rgb ∈ rowColors rows then rowColors rows else rowColors rows ++ [row.rgb] := by
  rw [rowColors, List.map_append, List.map_singleton, eraseDups_concat, rowColors]
  simp only [List.mem_eraseDups]

/-! ### Compaction of rows -/

/-- What a color and its protocols are while the vector is compacted. -/
def collected (rgb : Rgb) (protocols : List UInt8) : ColorsProtocols := ⟨rgb.text, some protocols⟩

theorem collected_key (rgb : Rgb) (protocols : List UInt8) : (collected rgb protocols).key = rgb.text :=
  rgb.tolower_text

theorem collected_append (rgb rgb' : Rgb) (protocols new : List UInt8) :
    (collected rgb protocols).append (collected rgb' new) = collected rgb (joinProtocols protocols new) := by
  rw [collected, collected, append, joinProtocols]
  dsimp only
  split
  · rfl
  · rw [gStrjoinv_pair, show lit "," = [44] by decide, List.append_assoc, List.singleton_append]
    rfl

theorem collected_joined (rgb : Rgb) (protocols : List UInt8) :
    (collected rgb protocols).joined = rgb.text ++ 59 :: protocols := by
  rw [collected, joined_some, show lit ";" = [59] by decide, List.append_assoc, List.singleton_append]

theorem head?_splitOnP {α : Type*} (p : α → Bool) (xs : List α) :
    (xs.splitOnP p).head? = some (xs.takeWhile fun x => !p x) := by
  induction xs with
  | nil => rfl
  | cons x xs ih =>
      rw [List.splitOnP_cons_eq_if_modifyHead]
      cases hx : p x with
      | true => simp [hx]
      | false => simp [hx, List.head?_modifyHead, ih]

theorem ColorRow.splitColor_entry (row : ColorRow) :
    splitColor row.entry = some (collected row.rgb row.written) := by
  have htext : ∀ b ∈ row.rgb.text, decide (b ∈ colorDelimiters) = false := fun b hb =>
    decide_eq_false (Rgb.not_mem_delimiters hb)
  have hne : row.rgb.text ++ 59 :: row.protocol ≠ [] :=
    List.append_ne_nil_of_right_ne_nil _ (List.cons_ne_nil _ _)
  rw [entry_eq, splitColor, gStrsplitSet, if_neg hne,
    List.splitOnP_append_cons_of_forall_mem htext 59 (by decide)]
  dsimp only
  rw [head?_splitOnP, Option.map_some, collected, written]
  simp only [decide_not]

theorem collapse_collected (protocols : Rgb → List UInt8) (rgb : Rgb) (new : List UInt8) {colors : List Rgb}
    (hnodup : colors.Nodup) :
    (collected rgb new).collapse (colors.map fun c => collected c (protocols c)) =
      if rgb ∈ colors then
        some (colors.map fun c => collected c
          (if c = rgb then joinProtocols (protocols c) new else protocols c))
      else none := by
  induction colors with
  | nil => rfl
  | cons c colors ih =>
      obtain ⟨hfresh, hnodup⟩ := List.nodup_cons.mp hnodup
      rw [List.map_cons, collapse, collected_key, collected_key]
      by_cases hc : c = rgb
      · subst hc
        have hothers : ∀ c' ∈ colors, collected c' (protocols c') =
            collected c' (if c' = c then joinProtocols (protocols c') new else protocols c') := by
          intro c' hc'
          rw [if_neg]
          exact fun hsame => hfresh (hsame ▸ hc')
        rw [if_pos rfl, if_pos List.mem_cons_self, collected_append, List.map_cons, if_pos rfl,
          List.map_congr_left hothers]
      · have hmem : rgb ∈ c :: colors ↔ rgb ∈ colors := by
          rw [List.mem_cons, or_iff_right (Ne.symm hc)]
        rw [if_neg fun htext => hc (Rgb.text_inj htext), ih hnodup]
        simp only [hmem]
        split
        · rw [Option.map_some, List.map_cons, if_neg hc]
        · rfl

/-- The colors found in the rows so far are in front of each other. -/
theorem foldl_addColor_rows (rows : List ColorRow) :
    (rows.map ColorRow.entry).foldl addColor [] =
      (rowColors rows).reverse.map fun rgb => collected rgb (protocolsUnder rows rgb) := by
  induction rows using List.reverseRecOn with
  | nil => rfl
  | append_singleton rows row ih =>
      have hnodup : (rowColors rows).reverse.Nodup := List.nodup_reverse.mpr (nodup_eraseDups _)
      rw [List.map_append, List.foldl_append, ih, List.map_singleton, List.foldl_cons, List.foldl_nil,
        addColor, ColorRow.splitColor_entry]
      dsimp only
      rw [collapse_collected (protocolsUnder rows) _ _ hnodup, rowColors_concat]
      simp only [List.mem_reverse]
      split
      next hold =>
        rw [Option.getD_some]
        apply List.map_congr_left
        intro rgb _
        split
        next hsame =>
          rw [hsame, protocolsUnder_concat_old hold]
        next hne =>
          rw [protocolsUnder_concat_ne (Ne.symm hne)]
      next hnew =>
        rw [Option.getD_none, List.reverse_append, List.map_append]
        congr 1
        · exact congrArg (collected row.rgb) (protocolsUnder_concat_new hnew).symm
        · apply List.map_congr_left
          intro rgb hrgb
          rw [protocolsUnder_concat_ne]
          exact fun hsame => hnew (hsame ▸ List.mem_reverse.mp hrgb)

theorem protohashCompact_rows (rows : List ColorRow) :
    protohashCompact (rows.map ColorRow.entry) =
      (rowColors rows).map fun rgb => rgb.text ++ 59 :: protocolsUnder rows rgb := by
  rw [protohashCompact, foldl_addColor_rows, ← List.map_reverse, List.reverse_reverse, List.map_map]
  apply List.map_congr_left
  intro rgb _
  exact collected_joined rgb _

/-! ### Protocols in the written entries -/

theorem ColorRow.not_mem_written {row : ColorRow} {b : UInt8} (h : b ∈ row.written) : b ∉ colorDelimiters := by
  have htaken := List.mem_takeWhile_imp (List.mem_of_mem_filter h)
  exact of_decide_eq_true htaken

theorem joinAll_induction {p : List UInt8 → Prop} (hnil : p [])
    (hjoin : ∀ protocols new, p protocols → p new → p (joinProtocols protocols new)) {texts : List (List UInt8)}
    (h : ∀ text ∈ texts, p text) : p (joinAll texts) := by
  induction texts using List.reverseRecOn with
  | nil => exact hnil
  | append_singleton texts new ih =>
      have hnew : p new := h new (List.mem_append_right _ List.mem_cons_self)
      by_cases hne : texts = []
      · subst hne
        exact hnew
      · rw [joinAll_concat hne]
        exact hjoin _ _ (ih fun text htext => h text (List.mem_append_left _ htext)) hnew

theorem not_mem_protocolsUnder {rows : List ColorRow} {rgb : Rgb} :
    ∀ b ∈ protocolsUnder rows rgb, b ∉ colorDelimiters := by
  rw [protocolsUnder]
  apply joinAll_induction (p := fun protocols => ∀ b ∈ protocols, b ∉ colorDelimiters)
  · exact fun b hb => absurd hb List.not_mem_nil
  · intro protocols new hprotocols hnew b hb
    rw [joinProtocols] at hb
    split at hb
    · exact hprotocols b hb
    · obtain hb | hb := List.mem_append.mp hb
      · exact hprotocols b hb
      · obtain rfl | hb := List.mem_cons.mp hb
        · decide
        · exact hnew b hb
  · intro text htext b hb
    obtain ⟨row, _, rfl⟩ := List.mem_map.mp htext
    exact row.not_mem_written hb

theorem protosOf_nil : protosOf [] = [] := rfl

theorem protosOf_append (xs ys : List UInt8) : protosOf (xs ++ 44 :: ys) = protosOf xs ++ protosOf ys := by
  have hcomma : decide ((44 : UInt8) ∈ protoDelimiters) = true := by decide
  have htokens : ∀ field, protosOf field =
      (field.splitOnP fun b => decide (b ∈ protoDelimiters)).filter fun proto => proto ≠ [] := by
    intro field
    rw [protosOf, gStrsplitSet]
    split
    next hnil =>
      rw [hnil]
      rfl
    · rfl
  rw [htokens, htokens, htokens, List.splitOnP_append_cons xs ys hcomma, List.filter_append]

theorem protosOf_joinProtocols (protocols new : List UInt8) :
    protosOf (joinProtocols protocols new) = protosOf protocols ++ protosOf new := by
  rw [joinProtocols]
  split
  next hnew => rw [hnew, protosOf_nil, List.append_nil]
  · exact protosOf_append protocols new

theorem protosOf_joinAll (texts : List (List UInt8)) : protosOf (joinAll texts) = texts.flatMap protosOf := by
  induction texts using List.reverseRecOn with
  | nil => rfl
  | append_singleton texts new ih =>
      rw [List.flatMap_append, List.flatMap_singleton]
      by_cases hne : texts = []
      · subst hne
        rfl
      · rw [joinAll_concat hne, protosOf_joinProtocols, ih]

theorem joinAll_eq_nil (texts : List (List UInt8)) : joinAll texts = [] ↔ ∀ text ∈ texts, text = [] := by
  induction texts using List.reverseRecOn with
  | nil => exact iff_of_true rfl fun text htext => absurd htext List.not_mem_nil
  | append_singleton texts new ih =>
      rw [List.forall_mem_append, List.forall_mem_singleton]
      by_cases hne : texts = []
      · subst hne
        exact (and_iff_right fun text htext => absurd htext List.not_mem_nil).symm
      · rw [joinAll_concat hne, joinProtocols]
        split
        next hnew => rw [ih, and_iff_left hnew]
        next hnew =>
          exact iff_of_false (List.append_ne_nil_of_right_ne_nil _ (List.cons_ne_nil _ _)) fun h => hnew h.2

/-- The protocols that the rows of a color name. -/
def namedUnder (rows : List ColorRow) (rgb : Rgb) : List (List UInt8) :=
  (rowsOf rows rgb).flatMap fun row => protosOf row.written

theorem protosOf_protocolsUnder (rows : List ColorRow) (rgb : Rgb) :
    protosOf (protocolsUnder rows rgb) = namedUnder rows rgb := by
  rw [protocolsUnder, protosOf_joinAll, List.flatMap_map, namedUnder]

/-! ### What is read again -/

section Read

variable {gdkColorParse : List UInt8 → Option GdkColor} {parsed : Rgb → GdkColor}
  (hparse : ∀ rgb, gdkColorParse rgb.text = some (parsed rgb))

theorem splitOnP_written (rows : List ColorRow) (rgb : Rgb) :
    (rgb.text ++ 59 :: protocolsUnder rows rgb).splitOnP (fun b => decide (b ∈ colorDelimiters)) =
      [rgb.text, protocolsUnder rows rgb] := by
  have htext : ∀ b ∈ rgb.text, decide (b ∈ colorDelimiters) = false := fun b hb =>
    decide_eq_false (Rgb.not_mem_delimiters hb)
  have hprotocols : ∀ b ∈ protocolsUnder rows rgb, decide (b ∈ colorDelimiters) = false := fun b hb =>
    decide_eq_false (not_mem_protocolsUnder b hb)
  rw [List.splitOnP_append_cons_of_forall_mem htext 59 (by decide), List.splitOnP_eq_singleton hprotocols]

theorem splitOn_written (rows : List ColorRow) (rgb : Rgb) :
    (rgb.text ++ 59 :: protocolsUnder rows rgb).splitOn 59 = [rgb.text, protocolsUnder rows rgb] := by
  have hsemicolon : (59 : UInt8) ∈ colorDelimiters := by decide
  have htext : ∀ b ∈ rgb.text, (b == 59) = false := by
    intro b hb
    apply beq_eq_false_iff_ne.mpr
    exact fun h => Rgb.not_mem_delimiters hb (h ▸ hsemicolon)
  have hprotocols : ∀ b ∈ protocolsUnder rows rgb, (b == 59) = false := by
    intro b hb
    apply beq_eq_false_iff_ne.mpr
    exact fun h => not_mem_protocolsUnder b hb (h ▸ hsemicolon)
  rw [List.splitOn_eq_splitOnP, List.splitOnP_append_cons_of_forall_mem htext 59 (by decide),
    List.splitOnP_eq_singleton hprotocols]

include hparse in
theorem coloredFields_rows (rows : List ColorRow) (stale : GdkColor) (colors : List Rgb) :
    coloredFields gdkColorParse stale
        (colors.map fun rgb => rgb.text ++ 59 :: protocolsUnder rows rgb) =
      colors.map fun rgb => (parsed rgb, protocolsUnder rows rgb) := by
  induction colors generalizing stale with
  | nil => rfl
  | cons rgb colors ih =>
      rw [List.map_cons, coloredFields, gStrsplitSet,
        if_neg (List.append_ne_nil_of_right_ne_nil _ (List.cons_ne_nil _ _)), splitOnP_written]
      dsimp only
      rw [hparse, Option.getD_some, ih, List.map_cons, List.headD_cons]

/-- The rows of the written entries, one for each color. -/
def rowsAgain (parsed : Rgb → GdkColor) (rows : List ColorRow) : List ColorRow :=
  (rowColors rows).map fun rgb => ⟨parsed rgb, protocolsUnder rows rgb⟩

include hparse in
theorem prefToColorList_colors (rows : List ColorRow) (stack : Stack) (colors : List Rgb) :
    prefToColorList gdkColorParse stack
        (colors.map fun rgb => rgb.text ++ 59 :: protocolsUnder rows rgb) =
      some (colors.map fun rgb => ⟨parsed rgb, protocolsUnder rows rgb⟩) := by
  induction colors generalizing stack with
  | nil => rfl
  | cons rgb colors ih =>
      rw [List.map_cons, prefToColorList, ih, colorRow, gStrsplit,
        if_neg (List.append_ne_nil_of_right_ne_nil _ (List.cons_ne_nil _ _)), splitOn_written]
      dsimp only
      rw [hparse, Option.getD_some, List.map_cons, List.headD_cons]

include hparse in
theorem prefToColorList_rows (rows : List ColorRow) (stack : Stack) :
    prefToColorList gdkColorParse stack (protohashCompact (rows.map ColorRow.entry)) =
      some (rowsAgain parsed rows) := by
  rw [protohashCompact_rows]
  exact prefToColorList_colors hparse rows stack (rowColors rows)

/-- Rows that were read are written as they were. -/
theorem entries_rowsAgain (hrgb : ∀ rgb, rgbOf (parsed rgb) = rgb) (rows : List ColorRow) :
    (rowsAgain parsed rows).map ColorRow.entry = protohashCompact (rows.map ColorRow.entry) := by
  rw [protohashCompact_rows, rowsAgain, List.map_map]
  apply List.map_congr_left
  intro rgb _
  rw [Function.comp_apply, ColorRow.entry_eq, ColorRow.rgb, hrgb]

end Read

/-! ### Colors in force -/

theorem lastListed_flatMap {α : Type*} (names : α → List (List UInt8)) (color : α → GdkColor) (xs : List α)
    (name : List UInt8) :
    lastListed (xs.flatMap fun x => (names x).map fun proto => (proto, color x)) name =
      (xs.filter fun x => (names x).any fun proto => proto = name).getLast?.map color := by
  have hone : ∀ x, lastListed ((names x).map fun proto => (proto, color x)) name =
      if (names x).any fun proto => proto = name then some (color x) else none := by
    intro x
    generalize names x = protos
    induction protos using List.reverseRecOn with
    | nil => rfl
    | append_singleton protos proto ih =>
        rw [List.map_append, lastListed_append, ih, List.map_singleton, lastListed_singleton,
          List.any_append, List.any_cons, List.any_nil, Bool.or_false]
        by_cases hproto : proto = name
        · rw [if_pos hproto, Option.some_or, decide_eq_true hproto, Bool.or_true, if_pos rfl]
        · rw [if_neg hproto, Option.none_or, decide_eq_false hproto, Bool.or_false]
  induction xs using List.reverseRecOn with
  | nil => rfl
  | append_singleton xs x ih =>
      rw [List.flatMap_append, List.flatMap_singleton, lastListed_append, ih, hone, List.filter_append,
        List.filter_singleton, List.getLast?_append]
      cases (names x).any fun proto => proto = name with
      | true => rfl
      | false => rfl

section Listed

variable {gdkColorParse : List UInt8 → Option GdkColor} {parsed : Rgb → GdkColor}
  (hparse : ∀ rgb, gdkColorParse rgb.text = some (parsed rgb))

/-- The colors with rows that name a protocol. -/
def colorsNaming (rows : List ColorRow) (name : List UInt8) : List Rgb :=
  (rowColors rows).filter fun rgb => (namedUnder rows rgb).any fun proto => proto = name

include hparse in
theorem lastListed_rows (rows : List ColorRow) (stale : GdkColor) (name : List UInt8) :
    lastListed (listedProtos (coloredFields gdkColorParse stale
      (protohashCompact (rows.map ColorRow.entry)))) name =
        (colorsNaming rows name).getLast?.map parsed := by
  rw [protohashCompact_rows, coloredFields_rows hparse, listedProtos, List.flatMap_map, colorsNaming,
    ← lastListed_flatMap]
  simp only [protosOf_protocolsUnder]

/-- The colors with nothing in the protocols of their rows. -/
def colorsWithout (parsed : Rgb → GdkColor) (rows : List ColorRow) : List GdkColor :=
  ((rowColors rows).filter fun rgb => ∀ row ∈ rowsOf rows rgb, row.written = []).map parsed

include hparse in
theorem freeColors_rows (rows : List ColorRow) (stale : GdkColor) :
    freeColors (coloredFields gdkColorParse stale (protohashCompact (rows.map ColorRow.entry))) =
      colorsWithout parsed rows := by
  have hempty : ∀ rgb, protocolsUnder rows rgb = [] ↔ ∀ row ∈ rowsOf rows rgb, row.written = [] := by
    intro rgb
    rw [protocolsUnder, joinAll_eq_nil, List.forall_mem_map]
  rw [protohashCompact_rows, coloredFields_rows hparse, freeColors, List.filter_map, List.map_map,
    colorsWithout]
  simp only [Function.comp_def, hempty]

end Listed

end EtherApe.PrefDialog
