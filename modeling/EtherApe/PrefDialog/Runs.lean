import EtherApe.PrefDialog.Rows

/-!
# Runs of the preferences dialog

However the dialog is opened, used and closed, the protocols have the colors of the preferences, and a
dialog that is cancelled leaves the preferences as it found them.
-/

namespace EtherApe.PrefDialog

open Printf Colors

/-! ### Colors in force -/

section

variable {gdkColorParse : List UInt8 → Option GdkColor} {parsed : Rgb → GdkColor}
  {gUtf8Strup : List UInt8 → List UInt8}

/-- The colors of a vector are in force: its protocols, and no others, are preferred and have the colors that
it lists for them. -/
def Obeys (gdkColorParse : List UInt8 → Option GdkColor) (colors : List (List UInt8)) (s : ProtoColors) :
    Prop :=
  ∃ stale, ∀ name,
    let color := lastListed (listedProtos (coloredFields gdkColorParse stale colors)) name
    protohashIsPreferred s name = some color.isSome ∧
      ∀ c, color = some c → (protohashColor name s).map Prod.snd = some c

/-- The vector has been read, and some requests have been answered since. -/
def InForce (gdkColorParse : List UInt8 → Option GdkColor) (grey : GdkColor) (colors : List (List UInt8))
    (s : ProtoColors) : Prop :=
  ∃ stale seen place, Assigning (listedProtos (coloredFields gdkColorParse stale colors))
    (cycleColors grey (freeColors (coloredFields gdkColorParse stale colors))) seen place s

theorem InForce.obeys {grey : GdkColor} {colors : List (List UInt8)} {s : ProtoColors}
    (h : InForce gdkColorParse grey colors s) : Obeys gdkColorParse colors s := by
  obtain ⟨stale, seen, place, hassigning⟩ := h
  refine ⟨stale, fun name => ⟨hassigning.isPreferred_eq name, ?_⟩⟩
  intro c hc
  rw [hassigning.color_eq (hassigning.mapped name c hc)]
  rfl

theorem InForce.request {grey : GdkColor} {colors : List (List UInt8)} {s : ProtoColors}
    (h : InForce gdkColorParse grey colors s) (request : Request) :
    ∃ s', Colors.step request s = some s' ∧ InForce gdkColorParse grey colors s' := by
  obtain ⟨stale, seen, place, hassigning⟩ := h
  obtain ⟨s', hstep, hassigning', _⟩ := hassigning.step request
  exact ⟨s', hstep, stale, _, _, hassigning'⟩

theorem inForce_read {grey : GdkColor} (hgrey : gdkColorParse (lit "#7f7f7f") = some grey)
    (uninit : GdkColor) (colors : List (List UInt8)) (s : ProtoColors) :
    ∃ s', protohashReadPrefvect gdkColorParse uninit colors s = some s' ∧
      InForce gdkColorParse grey colors s' := by
  obtain ⟨s', hread, hassigning⟩ := assigning_read gdkColorParse hgrey uninit colors s
  exact ⟨s', hread, uninit, _, _, hassigning⟩

/-! ### One step -/

variable (gdkColorParse) in
/-- The state of the dialog between two steps. A copy has the colors of the preferences as long as the list was
not changed, and then they are those of the rows. -/
structure Consistent (grey : GdkColor) (s : Dialog) : Prop where
  compacted : ∃ entries, s.pref.colors = protohashCompact entries
  inForce : InForce gdkColorParse grey s.pref.colors s.protoColors
  written : s.colorsChanged = true → s.pref.colors = protohashCompact (s.colorStore.map ColorRow.entry)
  copied : ∀ tmpPref, s.tmpPref = some tmpPref → (∃ entries, tmpPref.colors = protohashCompact entries) ∧
    (s.colorsChanged = false → tmpPref.colors = s.pref.colors)

theorem prefToColorList_compacted (stack : Stack) {entries : List (List UInt8)}
    (h : ∀ entry ∈ entries, entry ≠ []) : ∃ rows, prefToColorList gdkColorParse stack entries = some rows := by
  induction entries generalizing stack with
  | nil => exact ⟨[], rfl⟩
  | cons entry entries ih =>
      obtain ⟨hentry, hentries⟩ := List.forall_mem_cons.mp h
      obtain ⟨rows, hrows⟩ := ih (fun i => stack (i + 1)) hentries
      obtain ⟨color, protocols, htokens⟩ := List.exists_cons_of_ne_nil (List.splitOn_ne_nil 59 entry)
      rw [prefToColorList, hrows, colorRow, gStrsplit, if_neg hentry, htokens]
      exact ⟨_, rfl⟩

theorem ne_nil_of_mem_protohashCompact {entries : List (List UInt8)} {entry : List UInt8}
    (h : entry ∈ protohashCompact entries) : entry ≠ [] := by
  obtain ⟨cols, hcols, heq⟩ := protohashCompact_collected entries
  rw [heq] at h
  obtain ⟨col, hcol, rfl⟩ := List.mem_map.mp h
  exact (hcols.plain col hcol).joined

variable {grey : GdkColor} (hgrey : gdkColorParse (lit "#7f7f7f") = some grey)
  (hparse : ∀ rgb, gdkColorParse rgb.text = some (parsed rgb)) (hrgb : ∀ rgb, rgbOf (parsed rgb) = rgb)

include hgrey in
/-- Writing the rows to the preferences puts their colors into force. -/
theorem colorListToPref_eq (stack : Stack) (s : Dialog) :
    ∃ protoColors, colorListToPref gdkColorParse stack s =
        some { s with
          pref := { s.pref with colors := protohashCompact (s.colorStore.map ColorRow.entry) }
          protoColors } ∧
      InForce gdkColorParse grey (protohashCompact (s.colorStore.map ColorRow.entry)) protoColors := by
  obtain ⟨protoColors, hread, hforce⟩ := inForce_read hgrey (stack 0)
    (protohashCompact (s.colorStore.map ColorRow.entry)) s.protoColors
  refine ⟨protoColors, ?_, hforce⟩
  rw [colorListToPref, readPrefColors, hread, Option.map_some]

omit hgrey in
theorem Consistent.rewritten {s : Dialog} (h : Consistent gdkColorParse grey s) (colorStore : List ColorRow)
    {protoColors : ProtoColors}
    (hforce : InForce gdkColorParse grey (protohashCompact (colorStore.map ColorRow.entry)) protoColors) :
    Consistent gdkColorParse grey
      { s with
        pref := { s.pref with colors := protohashCompact (colorStore.map ColorRow.entry) }
        protoColors
        colorStore
        colorsChanged := true } := by
  refine ⟨⟨_, rfl⟩, hforce, fun _ => rfl, ?_⟩
  intro tmpPref htmpPref
  refine ⟨(h.copied tmpPref htmpPref).1, fun hunchanged => ?_⟩
  cases hunchanged

theorem Control.changed_colors (control : Control) (pref : PrefStruct) :
    (control.changed pref).colors = pref.colors := by
  cases control <;> rfl

theorem duplicateConfig_eq (pref : PrefStruct) : duplicateConfig pref = pref := rfl

theorem Consistent.frame {s s' : Dialog} (h : Consistent gdkColorParse grey s)
    (hcolors : s'.pref.colors = s.pref.colors) (hforce : InForce gdkColorParse grey s.pref.colors s'.protoColors)
    (hchanged : s'.colorsChanged = s.colorsChanged) (hstore : s'.colorStore = s.colorStore)
    (htmpPref : s'.tmpPref = s.tmpPref) : Consistent gdkColorParse grey s' := by
  refine ⟨?_, ?_, ?_, ?_⟩
  · rw [hcolors]
    exact h.compacted
  · rw [hcolors]
    exact hforce
  · rw [hcolors, hchanged, hstore]
    exact h.written
  · rw [hcolors, hchanged, htmpPref]
    exact h.copied

include hparse hrgb in
/-- When the list is filled from what was written, the rows are written as before. -/
theorem Consistent.activate {s : Dialog} (h : Consistent gdkColorParse grey s) (stack : Stack) :
    ∃ s', onPreferences1Activate gdkColorParse stack s = some s' ∧ Consistent gdkColorParse grey s' ∧
      s'.tmpPref = some s.pref ∧ s'.pref = s.pref := by
  have hne : ∀ entry ∈ s.pref.colors, entry ≠ [] := by
    obtain ⟨entries, hentries⟩ := h.compacted
    rw [hentries]
    exact fun entry => ne_nil_of_mem_protohashCompact
  obtain ⟨rows, hrows⟩ := prefToColorList_compacted stack hne
  refine ⟨{ s with tmpPref := some s.pref, colorStore := rows }, ?_, ⟨h.compacted, h.inForce, ?_, ?_⟩, rfl, rfl⟩
  · rw [onPreferences1Activate, initializePrefControls, hrows, Option.map_some, duplicateConfig_eq]
  · intro hchanged
    have hwritten := h.written hchanged
    have hagain := hrows
    rw [hwritten, prefToColorList_rows hparse] at hagain
    obtain rfl := Option.some.inj hagain
    dsimp only
    rw [entries_rowsAgain hrgb, protohashCompact_idempotent]
    exact hwritten
  · intro tmpPref htmpPref
    obtain rfl := Option.some.inj htmpPref
    exact ⟨h.compacted, fun _ => rfl⟩

include hgrey in
theorem Consistent.confirm {s : Dialog} (h : Consistent gdkColorParse grey s) (stack : Stack)
    (entries : Entries) : ∃ s', confirmChanges gdkColorParse stack entries s = some s' ∧
      Consistent gdkColorParse grey s' ∧ s'.tmpPref = s.tmpPref ∧
      s'.pref = { s.pref with filter := entries.filter, centerNode := entries.centerNode } := by
  rw [confirmChanges, onCenterNodeChanged, onFilterEntryChanged]
  dsimp only
  by_cases hchanged : s.colorsChanged = true
  · have hwritten := h.written hchanged
    obtain ⟨protoColors, heq, hforce⟩ := colorListToPref_eq hgrey stack
      { s with pref := { s.pref with filter := entries.filter, centerNode := entries.centerNode } }
    dsimp only at heq hforce
    rw [← hwritten] at heq hforce
    rw [if_pos hchanged]
    exact ⟨_, heq, h.frame rfl hforce rfl rfl rfl, rfl, rfl⟩
  · rw [if_neg hchanged]
    exact ⟨_, rfl, h.frame rfl h.inForce rfl rfl rfl, rfl, rfl⟩

omit hgrey in
theorem Consistent.hide {s : Dialog} (h : Consistent gdkColorParse grey s) (hopen : s.tmpPref ≠ none) :
    ∃ s', hidePrefDialog s = some s' ∧ Consistent gdkColorParse grey s' ∧ s'.pref = s.pref ∧
      s'.protoColors = s.protoColors := by
  obtain ⟨tmpPref, htmpPref⟩ := Option.ne_none_iff_exists'.mp hopen
  rw [hidePrefDialog, htmpPref]
  refine ⟨_, rfl, ⟨h.compacted, h.inForce, ?_, ?_⟩, rfl, rfl⟩
  · intro hchanged
    cases hchanged
  · intro other hother
    cases hother

include hgrey in
/-- Cancelling brings the copy back, and its colors into force. -/
theorem Consistent.cancel {s : Dialog} (h : Consistent gdkColorParse grey s) (stack : Stack)
    {tmpPref : PrefStruct} (htmpPref : s.tmpPref = some tmpPref) :
    ∃ s', onCancelPrefButtonClicked gdkColorParse stack s = some s' ∧ Consistent gdkColorParse grey s' ∧
      s'.pref = tmpPref := by
  obtain ⟨hcompacted, hsame⟩ := h.copied tmpPref htmpPref
  have hread : ∃ s', (if s.colorsChanged then readPrefColors gdkColorParse stack { s with pref := copyConfig tmpPref }
      else some { s with pref := copyConfig tmpPref }) = some s' ∧ InForce gdkColorParse grey tmpPref.colors
        s'.protoColors ∧ s'.pref = tmpPref ∧ s'.tmpPref = some tmpPref := by
    by_cases hchanged : s.colorsChanged = true
    · obtain ⟨protoColors, hread, hforce⟩ := inForce_read hgrey (stack 0) tmpPref.colors s.protoColors
      refine ⟨{ s with pref := copyConfig tmpPref, protoColors }, ?_, hforce, rfl, htmpPref⟩
      rw [if_pos hchanged, readPrefColors]
      dsimp only [copyConfig]
      rw [hread, Option.map_some]
    · refine ⟨{ s with pref := copyConfig tmpPref }, if_neg hchanged, ?_, rfl, htmpPref⟩
      rw [hsame (eq_false_of_ne_true hchanged)]
      exact h.inForce
  obtain ⟨s₁, heq, hforce, hpref, hcopy⟩ := hread
  have hcancel : onCancelPrefButtonClicked gdkColorParse stack s = hidePrefDialog s₁ := by
    rw [onCancelPrefButtonClicked]
    split
    next hnone => exact absurd (htmpPref.symm.trans hnone) (Option.some_ne_none _)
    next copy hsome =>
      obtain rfl := Option.some.inj (hsome.symm.trans htmpPref)
      dsimp only
      rw [heq, Option.bind_some]
  rw [hcancel, hidePrefDialog, hcopy]
  refine ⟨_, rfl, ⟨?_, ?_, ?_, ?_⟩, hpref⟩
  · rw [hpref]
    exact hcompacted
  · rw [hpref]
    exact hforce
  · intro hchanged
    cases hchanged
  · intro other hother
    cases hother

/-- Whether the dialog is closed. -/
def Action.closes : Action → Bool
  | ok _ => true
  | save _ => true
  | cancel => true
  | _ => false

include hgrey hparse hrgb in
/-- No handler fails but one that closes the dialog where there is no copy. -/
theorem Consistent.step {s : Dialog} (h : Consistent gdkColorParse grey s) (stack : Stack) (action : Action)
    (hopen : action.closes = true → s.tmpPref ≠ none) :
    ∃ s', step gdkColorParse gUtf8Strup stack action s = some s' ∧ Consistent gdkColorParse grey s' ∧
      (action.closes = false → action ≠ .activate → s'.tmpPref = s.tmpPref) := by
  cases action with
  | activate =>
      obtain ⟨s', hstep, hconsistent, _⟩ := h.activate hparse hrgb stack
      exact ⟨s', hstep, hconsistent, fun _ hne => absurd rfl hne⟩
  | control control =>
      exact ⟨_, rfl, h.frame (control.changed_colors s.pref) h.inForce rfl rfl rfl, fun _ _ => rfl⟩
  | colorAdd => exact ⟨_, rfl, h.frame rfl h.inForce rfl rfl rfl, fun _ _ => rfl⟩
  | colorChange cursor =>
      rw [PrefDialog.step, onColorChangeButtonClicked]
      cases s.rowAt cursor with
      | none => exact ⟨s, rfl, h, fun _ _ => rfl⟩
      | some row => exact ⟨_, rfl, h.frame rfl h.inForce rfl rfl rfl, fun _ _ => rfl⟩
  | colorRemove cursor =>
      cases cursor with
      | none => exact ⟨s, rfl, h, fun _ _ => rfl⟩
      | some gpath =>
          rw [PrefDialog.step, onColorRemoveButtonClicked]
          split
          · obtain ⟨protoColors, heq, hforce⟩ := colorListToPref_eq hgrey stack
              { s with colorStore := s.colorStore.eraseIdx gpath, colorsChanged := true }
            exact ⟨_, heq, h.rewritten _ hforce, fun _ _ => rfl⟩
          · exact ⟨s, rfl, h, fun _ _ => rfl⟩
  | colordiagOk cursor gdkColor =>
      rw [PrefDialog.step, onColordiagOkClicked]
      cases storeColor cursor gdkColor s with
      | none => exact ⟨s, rfl, h, fun _ _ => rfl⟩
      | some colorStore =>
          obtain ⟨protoColors, heq, hforce⟩ := colorListToPref_eq hgrey stack { s with colorStore }
          dsimp only
          rw [heq, Option.map_some]
          exact ⟨_, rfl, h.rewritten _ hforce, fun _ _ => rfl⟩
  | protocolEditOk cursor protoString =>
      cases cursor with
      | none => exact ⟨s, rfl, h, fun _ _ => rfl⟩
      | some gpath =>
          rw [PrefDialog.step, onProtocolEditOkClicked]
          split
          · obtain ⟨protoColors, heq, hforce⟩ := colorListToPref_eq hgrey stack
              { s with
                colorStore := s.colorStore.modify gpath fun row =>
                  { row with protocol := removeSpaces (gUtf8Strup protoString) }
                colorsChanged := true }
            exact ⟨_, heq, h.rewritten _ hforce, fun _ _ => rfl⟩
          · exact ⟨s, rfl, h, fun _ _ => rfl⟩
  | ok entries =>
      obtain ⟨s₁, hconfirm, hconsistent, htmpPref, _⟩ := h.confirm hgrey stack entries
      obtain ⟨s', hhide, hconsistent', _⟩ := hconsistent.hide (htmpPref ▸ hopen rfl)
      refine ⟨s', ?_, hconsistent', fun hcloses => Bool.noConfusion hcloses⟩
      rw [PrefDialog.step, onOkPrefButtonClicked, hconfirm]
      exact hhide
  | save entries =>
      obtain ⟨s₁, hconfirm, hconsistent, htmpPref, _⟩ := h.confirm hgrey stack entries
      obtain ⟨s', hhide, hconsistent', _⟩ := hconsistent.hide (htmpPref ▸ hopen rfl)
      refine ⟨s', ?_, hconsistent', fun hcloses => Bool.noConfusion hcloses⟩
      rw [PrefDialog.step, onSavePrefButtonClicked, hconfirm, Option.bind_some, hhide]
      rfl
  | cancel =>
      obtain ⟨tmpPref, htmpPref⟩ := Option.ne_none_iff_exists'.mp (hopen rfl)
      obtain ⟨s', hcancel, hconsistent, _⟩ := h.cancel hgrey stack htmpPref
      exact ⟨s', hcancel, hconsistent, fun hcloses => Bool.noConfusion hcloses⟩
  | request request =>
      obtain ⟨protoColors, hstep, hforce⟩ := h.inForce.request request
      refine ⟨{ s with protoColors }, ?_, h.frame rfl hforce rfl rfl rfl, fun _ _ => rfl⟩
      rw [PrefDialog.step, hstep, Option.map_some]

include hgrey in
theorem Consistent.step_closes {s : Dialog} (h : Consistent gdkColorParse grey s) (stack : Stack)
    {action : Action} (hcloses : action.closes = true) (htmpPref : s.tmpPref = none) :
    PrefDialog.step gdkColorParse gUtf8Strup stack action s = none := by
  cases action with
  | ok entries =>
      obtain ⟨s₁, heq, _, hcopy, _⟩ := h.confirm hgrey stack entries
      rw [PrefDialog.step, onOkPrefButtonClicked, heq, Option.bind_some, hidePrefDialog, hcopy, htmpPref]
  | save entries =>
      obtain ⟨s₁, heq, _, hcopy, _⟩ := h.confirm hgrey stack entries
      rw [PrefDialog.step, onSavePrefButtonClicked, heq, Option.bind_some, hidePrefDialog, hcopy, htmpPref]
      rfl
  | cancel => rw [PrefDialog.step, onCancelPrefButtonClicked, htmpPref]
  | _ => cases hcloses

/-! ### Writing the rows -/

theorem grey_text : lit "#7f7f7f" = (⟨127, 127, 127⟩ : Rgb).text := by decide +kernel

omit hgrey in
include hparse hrgb in
/-- Rows that are written are read as one row for each of their colors, and written again as they were. A
protocol gets, of the colors with a row that names it, the one whose first row is the last; the colors without
protocols are cycled. -/
theorem colorListToPref_written (stack : Stack) (s : Dialog) :
    ∃ s', colorListToPref gdkColorParse stack s = some s' ∧
      (∀ stack', prefToColorList gdkColorParse stack' s'.pref.colors =
        some (rowsAgain parsed s.colorStore)) ∧
      protohashCompact ((rowsAgain parsed s.colorStore).map ColorRow.entry) = s'.pref.colors ∧
      ∃ listed, (∀ name, lastListed listed name = (colorsNaming s.colorStore name).getLast?.map parsed) ∧
        ColorsAssigned listed (cycleColors (parsed ⟨127, 127, 127⟩) (colorsWithout parsed s.colorStore))
          s'.protoColors := by
  have hgrey' : gdkColorParse (lit "#7f7f7f") = some (parsed ⟨127, 127, 127⟩) := by
    rw [grey_text, hparse]
  obtain ⟨protoColors, hread, hassigning⟩ := assigning_read gdkColorParse hgrey' (stack 0)
    (protohashCompact (s.colorStore.map ColorRow.entry)) s.protoColors
  refine ⟨{ s with
    pref := { s.pref with colors := protohashCompact (s.colorStore.map ColorRow.entry) }
    protoColors }, ?_, prefToColorList_rows hparse s.colorStore, ?_, listedProtos (coloredFields gdkColorParse
      (stack 0) (protohashCompact (s.colorStore.map ColorRow.entry))), ?_, ?_⟩
  · rw [colorListToPref, readPrefColors, hread, Option.map_some]
  · rw [entries_rowsAgain hrgb, protohashCompact_idempotent]
  · exact fun name => lastListed_rows hparse s.colorStore (stack 0) name
  · rw [← freeColors_rows hparse s.colorStore (stack 0)]
    exact hassigning.colorsAssigned

/-- Parses a color of six digits, with each byte of it twice in its component. -/
def parseSixDigits : List UInt8 → Option GdkColor
  | [35, r₁, r₀, g₁, g₀, b₁, b₀] =>
      some ⟨257 * UInt16.ofNat (value 16 [r₁, r₀]), 257 * UInt16.ofNat (value 16 [g₁, g₀]),
        257 * UInt16.ofNat (value 16 [b₁, b₀])⟩
  | _ => none

def sixDigits (rgb : Rgb) : GdkColor := ⟨257 * rgb.red.toUInt16, 257 * rgb.green.toUInt16, 257 * rgb.blue.toUInt16⟩

theorem parseSixDigits_text (rgb : Rgb) : parseSixDigits rgb.text = some (sixDigits rgb) := by
  have hdigits : ∀ byte : UInt8, ∃ d₁ d₀, twoDigits byte = [d₁, d₀] ∧
      UInt16.ofNat (value 16 [d₁, d₀]) = byte.toUInt16 := by
    intro byte
    obtain ⟨d₁, d₀, hpair⟩ := List.length_eq_two.mp (length_twoDigits byte)
    refine ⟨d₁, d₀, hpair, ?_⟩
    rw [← hpair, twoDigits, value_padded, value_hex, UInt16.ofNat_uInt8ToNat]
  obtain ⟨r₁, r₀, hred, hred'⟩ := hdigits rgb.red
  obtain ⟨g₁, g₀, hgreen, hgreen'⟩ := hdigits rgb.green
  obtain ⟨b₁, b₀, hblue, hblue'⟩ := hdigits rgb.blue
  rw [Rgb.text, hred, hgreen, hblue, sixDigits, ← hred', ← hgreen', ← hblue']
  rfl

theorem rgbOf_sixDigits (rgb : Rgb) : rgbOf (sixDigits rgb) = rgb := by
  have hbyte : ∀ byte : UInt8, ((257 * byte.toUInt16) >>> 8).toUInt8 = byte := by
    have hall : ∀ n < 256, ((257 * (UInt8.ofNat n).toUInt16) >>> 8).toUInt8 = UInt8.ofNat n := by
      decide +kernel
    intro byte
    rw [← UInt8.ofNat_toNat (x := byte)]
    exact hall byte.toNat byte.toNat_lt
  rw [rgbOf, sixDigits, hbyte, hbyte, hbyte]

/-- A protocol in a row of each of two colors gets the one that comes later, though its last row is of the
other. -/
theorem colorListToPref_written_moved :
    let red : GdkColor := ⟨65280, 0, 0⟩
    let blue : GdkColor := ⟨0, 0, 65280⟩
    ∃ s', colorListToPref parseSixDigits (fun _ => red)
        { pref := setDefaultConfig
          protoColors := ProtoColors.initial
          colorsChanged := true
          tmpPref := none
          colorStore := [⟨red, lit "IP"⟩, ⟨blue, lit "TCP"⟩, ⟨red, lit "TCP"⟩]
          isadd := false } = some s' ∧
      colorAfter s'.protoColors [] (lit "TCP") = some ⟨0, 0, 65535⟩ := by
  obtain ⟨s', heq, _, _, listed, hlisted, hassigned⟩ := colorListToPref_written parseSixDigits_text
    rgbOf_sixDigits (fun _ => ⟨65280, 0, 0⟩)
    { pref := setDefaultConfig
      protoColors := ProtoColors.initial
      colorsChanged := true
      tmpPref := none
      colorStore := [⟨⟨65280, 0, 0⟩, lit "IP"⟩, ⟨⟨0, 0, 65280⟩, lit "TCP"⟩, ⟨⟨65280, 0, 0⟩, lit "TCP"⟩]
      isadd := false }
  refine ⟨s', heq, hassigned.mapped [] (lit "TCP") _ ?_⟩
  rw [hlisted]
  decide +kernel

/-! ### All runs -/

section

variable (K : GKeyFiles)

theorem applied_colors (options : Options) (pref : PrefStruct) :
    (options.applied pref).colors = pref.colors := rfl

theorem readConfig_colors (gkey : K.KeyFile) (pref : PrefStruct) : (readConfig K gkey pref).colors =
    ((readStringConfig K none gkey "colors").map fun tmpstr =>
      protohashCompact (gStrsplit tmpstr 32)).getD pref.colors := rfl

theorem loadConfig_colors (files : ConfigFiles K.Data) : (loadConfig K files).colors =
    ((colorString K files).map fun tmpstr => protohashCompact (gStrsplit tmpstr 32)).getD
      setDefaultConfig.colors := by
  rw [loadConfig, colorString]
  cases (loadFromFile K files.config).or (loadFromFile K files.oldConfig) with
  | none => rw [Option.bind_none, Option.map_none, Option.getD_none]
  | some gkey => exact readConfig_colors K gkey setDefaultConfig

theorem setDefaultConfig_compacted : ∃ entries, setDefaultConfig.colors = protohashCompact entries := by
  rw [setDefaultConfig]
  dsimp only
  exact ⟨_, rfl⟩

theorem loadConfig_compacted (files : ConfigFiles K.Data) :
    ∃ entries, (loadConfig K files).colors = protohashCompact entries := by
  rw [loadConfig_colors]
  cases colorString K files with
  | none =>
      rw [Option.map_none, Option.getD_none]
      exact setDefaultConfig_compacted
  | some tmpstr => exact ⟨_, rfl⟩

include hgrey in
theorem loadColors_eq (files : ConfigFiles K.Data) (stack : Stack) :
    ∃ protoColors, loadColors gdkColorParse K files stack = some protoColors ∧
      InForce gdkColorParse grey (loadConfig K files).colors protoColors := by
  obtain ⟨defaults, hdefaults, hforce⟩ := inForce_read hgrey (stack 0) setDefaultConfig.colors
    ProtoColors.initial
  rw [loadColors, hdefaults, loadConfig_colors, Option.bind_some]
  cases colorString K files with
  | none =>
      rw [Option.map_none, Option.getD_none]
      exact ⟨defaults, rfl, hforce⟩
  | some tmpstr => exact inForce_read hgrey (stack 1) (protohashCompact (gStrsplit tmpstr 32)) defaults

include hgrey in
theorem startup_eq (files : ConfigFiles K.Data) (options : Options)
    (services : Option (UInt16 × List UInt8)) (stack : Stack) :
    ∃ s, startup gdkColorParse K files options services stack = some s ∧
      Consistent gdkColorParse grey s ∧ s.tmpPref = none := by
  obtain ⟨loaded, hloaded, hforce⟩ := loadColors_eq hgrey K files stack
  obtain ⟨protoColors, hservices, hforce'⟩ := hforce.request (.servicesInit services)
  obtain ⟨entries, hentries⟩ := loadConfig_compacted K files
  have hne : ∀ entry ∈ (loadConfig K files).colors, entry ≠ [] := by
    rw [hentries]
    exact fun entry => ne_nil_of_mem_protohashCompact
  obtain ⟨rows, hrows⟩ := prefToColorList_compacted (fun i => stack (i + 2)) hne
  rw [startup, hloaded, Option.bind_some, show loadServices services loaded = some protoColors from hservices,
    Option.bind_some, initializePrefControls, applied_colors, hrows, Option.map_some]
  refine ⟨_, rfl, ⟨⟨entries, hentries⟩, hforce', ?_, ?_⟩, rfl⟩
  · intro hchanged
    cases hchanged
  · intro tmpPref htmpPref
    cases htmpPref

end

/-- The preferences at the last activation, as long as the dialog has not been closed. -/
def copiedBy (past : List (Dialog × Stack × Action)) : Option PrefStruct :=
  past.foldl (fun copy x =>
    if x.2.2.closes then none
    else
      match x.2.2 with
      | .activate => some x.1.pref
      | _ => copy) none

theorem copiedBy_concat (past : List (Dialog × Stack × Action)) (s : Dialog) (stack : Stack)
    (action : Action) : copiedBy (past ++ [(s, stack, action)]) =
      if action.closes then none
      else
        match action with
        | .activate => some s.pref
        | _ => copiedBy past := List.foldl_append

theorem hidePrefDialog_tmpPref {s s' : Dialog} (h : hidePrefDialog s = some s') : s'.tmpPref = none := by
  rw [hidePrefDialog] at h
  split at h
  · cases h
  · rw [← Option.some.inj h]

theorem step_closes_tmpPref {s s' : Dialog} {stack : Stack} {action : Action} (hcloses : action.closes = true)
    (h : step gdkColorParse gUtf8Strup stack action s = some s') : s'.tmpPref = none := by
  cases action with
  | ok entries =>
      obtain ⟨s₁, _, hhide⟩ := Option.bind_eq_some_iff.mp h
      exact hidePrefDialog_tmpPref hhide
  | save entries =>
      obtain ⟨⟨closed, saved⟩, hsave, rfl⟩ := Option.map_eq_some_iff.mp h
      obtain ⟨s₁, _, hmap⟩ := Option.bind_eq_some_iff.mp hsave
      obtain ⟨s₂, hhide, heq⟩ := Option.map_eq_some_iff.mp hmap
      rw [← (Prod.mk.inj heq).1]
      exact hidePrefDialog_tmpPref hhide
  | cancel =>
      rw [step, onCancelPrefButtonClicked] at h
      split at h
      · cases h
      · obtain ⟨s₁, _, hhide⟩ := Option.bind_eq_some_iff.mp h
        exact hidePrefDialog_tmpPref hhide
  | _ => cases hcloses

include hgrey hparse hrgb in
theorem run_consistent {start s : Dialog} {past : List (Dialog × Stack × Action)}
    (hstart : Consistent gdkColorParse grey start) (hcopy : start.tmpPref = none)
    (h : (machine gdkColorParse gUtf8Strup start).Run past s) :
    Consistent gdkColorParse grey s ∧ s.tmpPref = copiedBy past := by
  induction h with
  | start => exact ⟨hstart, hcopy⟩
  | @step past s s' _ event hs ih =>
      obtain ⟨hconsistent, htmpPref⟩ := ih
      obtain ⟨stack, action⟩ := event
      have hs' : step gdkColorParse gUtf8Strup stack action s = some s' := hs
      have hopen : action.closes = true → s.tmpPref ≠ none := by
        intro hcloses hnone
        rw [hconsistent.step_closes hgrey stack hcloses hnone] at hs'
        cases hs'
      obtain ⟨s₁, heq, hconsistent', hkept⟩ := hconsistent.step hgrey hparse hrgb stack action hopen
      obtain rfl := Option.some.inj (heq.symm.trans hs')
      refine ⟨hconsistent', ?_⟩
      rw [copiedBy_concat]
      by_cases hcloses : action.closes = true
      · rw [if_pos hcloses]
        exact step_closes_tmpPref hcloses heq
      · rw [if_neg hcloses]
        by_cases hactivate : action = .activate
        · subst hactivate
          obtain ⟨s₂, hactivated, _, hcopied, _⟩ := hconsistent.activate hparse hrgb stack
          obtain rfl := Option.some.inj (hactivated.symm.trans heq)
          exact hcopied
        · rw [hkept (eq_false_of_ne_true hcloses) hactivate, htmpPref]
          cases action <;> first | rfl | exact absurd rfl hactivate

section

variable {K : GKeyFiles} {files : ConfigFiles K.Data} {options : Options}
  {services : Option (UInt16 × List UInt8)} {stack₀ : Stack} {start s : Dialog}
  {past : List (Dialog × Stack × Action)}

omit hgrey in
include hparse hrgb in
theorem run_of_startup (hstart : startup gdkColorParse K files options services stack₀ = some start)
    (h : (machine gdkColorParse gUtf8Strup start).Run past s) :
    Consistent gdkColorParse (parsed ⟨127, 127, 127⟩) s ∧ s.tmpPref = copiedBy past := by
  have hgrey' : gdkColorParse (lit "#7f7f7f") = some (parsed ⟨127, 127, 127⟩) := by
    rw [grey_text, hparse]
  obtain ⟨start', heq, hconsistent, hcopy⟩ := startup_eq hgrey' K files options services stack₀
  obtain rfl := Option.some.inj (heq.symm.trans hstart)
  exact run_consistent hgrey' hparse hrgb hconsistent hcopy h

omit hgrey in
include hparse hrgb in
/-- In every run the colors of the preferences are in force. They are compacted, and those of the rows once the
rows have been changed. -/
theorem run_obeys (hstart : startup gdkColorParse K files options services stack₀ = some start)
    (h : (machine gdkColorParse gUtf8Strup start).Run past s) :
    Obeys gdkColorParse s.pref.colors s.protoColors ∧ protohashCompact s.pref.colors = s.pref.colors ∧
      (s.colorsChanged = true → s.pref.colors = protohashCompact (s.colorStore.map ColorRow.entry)) := by
  obtain ⟨hconsistent, _⟩ := run_of_startup hparse hrgb hstart h
  refine ⟨hconsistent.inForce.obeys, ?_, hconsistent.written⟩
  obtain ⟨entries, hentries⟩ := hconsistent.compacted
  rw [hentries, protohashCompact_idempotent]

omit hgrey in
include hparse hrgb in
/-- In every run a handler fails exactly when it closes a dialog that is not open. Cancelling brings back all
preferences as they were when the dialog was opened; confirming takes over the filter and the center node, and
leaves the colors that are in force already. -/
theorem run_closed (hstart : startup gdkColorParse K files options services stack₀ = some start)
    (h : (machine gdkColorParse gUtf8Strup start).Run past s) (stack : Stack) :
    (∀ action, step gdkColorParse gUtf8Strup stack action s = none ↔
      action.closes = true ∧ copiedBy past = none) ∧
    (∀ s', onCancelPrefButtonClicked gdkColorParse stack s = some s' → some s'.pref = copiedBy past) ∧
    ∀ entries s' saved, onSavePrefButtonClicked gdkColorParse stack entries s = some (s', saved) →
      onOkPrefButtonClicked gdkColorParse stack entries s = some s' ∧ s'.pref = saved ∧
      saved = { s.pref with filter := entries.filter, centerNode := entries.centerNode } := by
  have hgrey' : gdkColorParse (lit "#7f7f7f") = some (parsed ⟨127, 127, 127⟩) := by
    rw [grey_text, hparse]
  obtain ⟨hconsistent, hcopy⟩ := run_of_startup hparse hrgb hstart h
  rw [← hcopy]
  refine ⟨fun action => ⟨?_, ?_⟩, ?_, ?_⟩
  · intro hfails
    by_contra hopen
    rw [not_and] at hopen
    obtain ⟨s', hstep, _⟩ := hconsistent.step hgrey' hparse hrgb stack action hopen
    exact Option.some_ne_none s' (hstep.symm.trans hfails)
  · rintro ⟨hcloses, hnone⟩
    exact hconsistent.step_closes hgrey' stack hcloses hnone
  · intro s' hcancel
    cases htmpPref : s.tmpPref with
    | none =>
        rw [onCancelPrefButtonClicked, htmpPref] at hcancel
        cases hcancel
    | some tmpPref =>
        obtain ⟨s₁, heq, _, hpref⟩ := hconsistent.cancel hgrey' stack htmpPref
        obtain rfl := Option.some.inj (heq.symm.trans hcancel)
        rw [hpref]
  · intro entries s' saved hsave
    obtain ⟨s₁, hconfirm, _, hkept, hpref⟩ := hconsistent.confirm hgrey' stack entries
    rw [onSavePrefButtonClicked, hconfirm, Option.bind_some] at hsave
    obtain ⟨closed, hhide, heq⟩ := Option.map_eq_some_iff.mp hsave
    obtain ⟨rfl, rfl⟩ := Prod.mk.inj heq
    refine ⟨?_, ?_, hpref⟩
    · rw [onOkPrefButtonClicked, hconfirm]
      exact hhide
    · rw [hidePrefDialog] at hhide
      split at hhide
      · cases hhide
      · rw [← Option.some.inj hhide]

end

end

/-- The program has just been started without a config file. -/
def defaultStart : Option Dialog :=
  startup parseSixDigits KeyFiles.table ⟨none, none⟩ ⟨false, false, false, none⟩ none fun _ => ⟨0, 0, 0⟩

/-- SSH asks for a color, and in the dialog the first color is removed and SSH put to the next one. -/
def listEdits : List (Stack × Action) :=
  [.activate, .request (.color (lit "SSH")), .colorRemove (some 0),
    .protocolEditOk (some 0) (lit "SSH")].map fun action => (fun _ => ⟨0, 0, 0⟩, action)

theorem run_obeys_edited : ∃ start past s, defaultStart = some start ∧
    (machine parseSixDigits id start).Run past s ∧ past.map Prod.snd = listEdits ∧
    s.pref.colors.take 2 = [lit "#0000ff;SSH", lit "#00ff00;"] ∧
    Obeys parseSixDigits s.pref.colors s.protoColors ∧
    s.pref.colors = protohashCompact (s.colorStore.map ColorRow.entry) := by
  have hedited : (defaultStart.bind fun start =>
      (machine parseSixDigits id start).stepAll start listEdits).any (fun s =>
        s.pref.colors.take 2 = [lit "#0000ff;SSH", lit "#00ff00;"] ∧ s.colorsChanged) = true := by
    decide +kernel
  obtain ⟨s, hs, hs'⟩ := (Option.any_eq_true _ _).mp hedited
  obtain ⟨start, hstart, hsteps⟩ := Option.bind_eq_some_iff.mp hs
  obtain ⟨hcolors, hchanged⟩ := of_decide_eq_true hs'
  obtain ⟨past, hrun, hevents⟩ := Machine.Run.start.stepAll hsteps
  obtain ⟨hobeys, _, hwritten⟩ := run_obeys parseSixDigits_text rgbOf_sixDigits hstart hrun
  exact ⟨start, past, s, hstart, hrun, hevents, hcolors, hobeys, hwritten hchanged⟩

/-- In the dialog the names are switched off and the first color is removed. -/
def numericEdits : List (Stack × Action) :=
  [.activate, .control (.numericToggle false), .colorRemove (some 0)].map fun action =>
    (fun _ => ⟨0, 0, 0⟩, action)

theorem run_closed_edited : ∃ start past s, defaultStart = some start ∧
    (machine parseSixDigits id start).Run past s ∧ past.map Prod.snd = numericEdits ∧
    s.pref.nameRes = false ∧ s.pref.colors.length + 1 = start.pref.colors.length ∧
    start.pref.nameRes = true ∧
    ∃ s', onCancelPrefButtonClicked parseSixDigits (fun _ => ⟨0, 0, 0⟩) s = some s' ∧
      s'.pref = start.pref := by
  have hedited : (defaultStart.bind fun start => ((machine parseSixDigits id start).stepAll start
      numericEdits).map fun s => (start, s)).any (fun x => x.2.pref.nameRes = false ∧
        x.2.pref.colors.length + 1 = x.1.pref.colors.length ∧ x.1.pref.nameRes = true) = true := by
    decide +kernel
  obtain ⟨x, hx, hx'⟩ := (Option.any_eq_true _ _).mp hedited
  obtain ⟨start, hstart, hmapped⟩ := Option.bind_eq_some_iff.mp hx
  obtain ⟨s, hsteps, rfl⟩ := Option.map_eq_some_iff.mp hmapped
  obtain ⟨hnumeric, hshorter, hnames⟩ := of_decide_eq_true hx'
  obtain ⟨s₁, h₁, hsteps⟩ := Option.bind_eq_some_iff.mp hsteps
  obtain ⟨s₂, h₂, hsteps⟩ := Option.bind_eq_some_iff.mp hsteps
  obtain ⟨s₃, h₃, hsteps⟩ := Option.bind_eq_some_iff.mp hsteps
  obtain rfl := Option.some.inj hsteps
  have hrun := ((Machine.Run.start.step _ h₁).step _ h₂).step _ h₃
  obtain ⟨hfails, hback, _⟩ := run_closed parseSixDigits_text rgbOf_sixDigits hstart hrun
    fun _ => ⟨0, 0, 0⟩
  refine ⟨start, _, s₃, hstart, hrun, rfl, hnumeric, hshorter, hnames, ?_⟩
  cases hcancel : onCancelPrefButtonClicked parseSixDigits (fun _ => ⟨0, 0, 0⟩) s₃ with
  | none =>
      obtain ⟨_, hclosed⟩ := (hfails .cancel).mp hcancel
      cases hclosed
  | some s' => exact ⟨s', rfl, Option.some.inj (hback s' hcancel)⟩

end EtherApe.PrefDialog
