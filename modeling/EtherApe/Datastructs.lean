import EtherApe.Lib.Printf
import Mathlib.Data.List.Nodup

/-!
# Lists of colors

The part of `datastructs.c` that compacts the preferred colors. An entry of the list is a color, and behind
a semicolon the protocols that are drawn in it. Entries of one color are collapsed into the first of
them, and compacting a second time changes nothing.
-/

namespace EtherApe

open Printf

/-- `g_strsplit` at one character, with no limit on the tokens. An empty string has none. -/
def gStrsplit (string : List UInt8) (delimiter : UInt8) : List (List UInt8) :=
  if string = [] then [] else string.splitOn delimiter

/-- `g_strsplit_set`, with no limit on the tokens. -/
def gStrsplitSet (string delimiters : List UInt8) : List (List UInt8) :=
  if string = [] then [] else string.splitOnP fun b => decide (b ∈ delimiters)

def gStrjoinv (separator : List UInt8) (strings : List (List UInt8)) : List UInt8 :=
  separator.intercalate strings

def gAsciiIsspace (c : UInt8) : Bool := c = 9 ∨ c = 10 ∨ c = 12 ∨ c = 13 ∨ c = 32

def gAsciiTolower (c : UInt8) : UInt8 := if 65 ≤ c ∧ c ≤ 90 then c + 32 else c

def removeSpaces (str : List UInt8) : List UInt8 := str.filter fun c => !gAsciiIsspace c

def colorDelimiters : List UInt8 := lit "; \t\n"

/-- The first two strings of a split entry. -/
structure ColorsProtocols where
  color : List UInt8
  protocols : Option (List UInt8)

/-- An entry split into its color and its protocols. An empty one is skipped. -/
def splitColor (entry : List UInt8) : Option ColorsProtocols :=
  match gStrsplitSet entry colorDelimiters with
  | [] => none
  | color :: rest => some ⟨color, rest.head?.map removeSpaces⟩

namespace ColorsProtocols

/-- Colors are compared by `g_ascii_strcasecmp`. -/
def key (col : ColorsProtocols) : List UInt8 := col.color.map gAsciiTolower

/-- The protocols of another entry of the same color come behind those of the first. -/
def append (col new : ColorsProtocols) : ColorsProtocols :=
  match new.protocols with
  | none => col
  | some protocols =>
      if protocols = [] then col
      else
        { col with
          protocols := some (match col.protocols with
            | some old => gStrjoinv (lit ",") [old, protocols]
            | none => protocols) }

/-- The loop over the colors found so far, `none` when it ends without finding the color. -/
def collapse (new : ColorsProtocols) : List ColorsProtocols → Option (List ColorsProtocols)
  | [] => none
  | col :: work =>
      if col.key = new.key then some (col.append new :: work)
      else (collapse new work).map (col :: ·)

def joined (col : ColorsProtocols) : List UInt8 :=
  gStrjoinv (lit ";") (col.color :: col.protocols.toList)

end ColorsProtocols

/-- The colors are collected in front of each other. -/
def addColor (work : List ColorsProtocols) (entry : List UInt8) : List ColorsProtocols :=
  match splitColor entry with
  | none => work
  | some new => (new.collapse work).getD (new :: work)

def protohashCompact (colors : List (List UInt8)) : List (List UInt8) :=
  (colors.foldl addColor []).reverse.map ColorsProtocols.joined

/-! ### Tokens -/

section Tokens

variable {α : Type*} {p : α → Bool} {xs : List α}

theorem splitOnP_eq_singleton_nil (h : xs.splitOnP p = [[]]) : xs = [] := by
  cases xs with
  | nil => rfl
  | cons x xs =>
      obtain ⟨token, tokens, hxs⟩ := List.exists_cons_of_ne_nil (List.splitOnP_ne_nil p xs)
      rw [List.splitOnP_cons_eq_if_modifyHead, hxs] at h
      split at h
      · exact absurd (List.cons.inj h).2 (List.cons_ne_nil token tokens)
      · exact absurd (List.cons.inj h).1 (List.cons_ne_nil x token)

theorem eq_false_of_mem_token {token : List α} (h : token ∈ xs.splitOnP p) :
    ∀ b ∈ token, p b = false := by
  induction xs generalizing token with
  | nil => simp_all
  | cons x xs ih =>
      obtain ⟨head, tokens, hxs⟩ := List.exists_cons_of_ne_nil (List.splitOnP_ne_nil p xs)
      rw [List.splitOnP_cons_eq_if_modifyHead, hxs] at h
      rw [hxs] at ih
      split at h
      · obtain rfl | htoken := List.mem_cons.mp h
        · simp
        · exact ih htoken
      · next hx =>
        obtain rfl | htoken := List.mem_cons.mp h
        · rw [List.forall_mem_cons]
          exact ⟨eq_false_of_ne_true hx, ih List.mem_cons_self⟩
        · exact ih (List.mem_cons_of_mem head htoken)

end Tokens

/-! ### Entries -/

namespace ColorsProtocols

/-- A color and protocols that are split again as they were joined. -/
structure Plain (col : ColorsProtocols) : Prop where
  color : ∀ b ∈ col.color, b ∉ colorDelimiters
  protocols : ∀ p ∈ col.protocols, ∀ b ∈ p, b ∉ colorDelimiters ∧ gAsciiIsspace b = false
  joined : col.joined ≠ []

theorem gStrjoinv_pair (separator a b : List UInt8) :
    gStrjoinv separator [a, b] = a ++ separator ++ b := by
  simp [gStrjoinv]

theorem joined_none (color : List UInt8) : (⟨color, none⟩ : ColorsProtocols).joined = color := by
  simp [joined, gStrjoinv]

theorem joined_some (color protocols : List UInt8) :
    (⟨color, some protocols⟩ : ColorsProtocols).joined = color ++ lit ";" ++ protocols :=
  gStrjoinv_pair _ _ _

theorem joined_some_ne_nil (color protocols : List UInt8) :
    (⟨color, some protocols⟩ : ColorsProtocols).joined ≠ [] := by
  rw [joined_some]
  simp [show lit ";" = [59] by decide]

theorem append_key (col new : ColorsProtocols) : (col.append new).key = col.key := by
  unfold append
  split
  · rfl
  · split <;> rfl

theorem Plain.append {col new : ColorsProtocols} (hcol : col.Plain) (hnew : new.Plain) :
    (col.append new).Plain := by
  unfold ColorsProtocols.append
  cases hprotocols : new.protocols with
  | none => exact hcol
  | some protocols =>
      have hlater := hnew.protocols protocols hprotocols
      dsimp only
      split
      · exact hcol
      · refine ⟨hcol.color, ?_, joined_some_ne_nil _ _⟩
        intro p hp
        obtain rfl := Option.some.inj hp
        cases hold : col.protocols with
        | none => exact hlater
        | some old =>
            have hearlier := hcol.protocols old hold
            have hcomma : ∀ b ∈ lit ",", b ∉ colorDelimiters ∧ gAsciiIsspace b = false := by
              decide +kernel
            intro b hb
            dsimp only at hb
            rw [gStrjoinv_pair, List.mem_append, List.mem_append] at hb
            obtain (hb | hb) | hb := hb
            · exact hearlier b hb
            · exact hcomma b hb
            · exact hlater b hb

theorem plain_of_splitColor {entry : List UInt8} {col : ColorsProtocols}
    (h : splitColor entry = some col) : col.Plain := by
  unfold splitColor gStrsplitSet at h
  split at h
  · exact absurd h (by simp)
  · next color rest htokens =>
    split at htokens
    · exact absurd htokens (by simp)
    · next hentry =>
      obtain rfl := Option.some.inj h
      have htoken : ∀ token ∈ color :: rest, ∀ b ∈ token, b ∉ colorDelimiters := by
        intro token hmem b hb
        rw [← htokens] at hmem
        exact of_decide_eq_false (eq_false_of_mem_token hmem b hb)
      refine ⟨htoken color List.mem_cons_self, ?_, ?_⟩
      · intro p hp b hb
        obtain ⟨token, hhead, rfl⟩ := Option.map_eq_some_iff.mp hp
        have hmem : token ∈ color :: rest := List.mem_cons_of_mem _ (List.mem_of_head? hhead)
        obtain ⟨hb, hspace⟩ := List.mem_filter.mp hb
        exact ⟨htoken token hmem b hb, by simpa using hspace⟩
      · cases rest with
        | nil =>
            intro hnil
            rw [List.head?_nil, Option.map_none, joined_none] at hnil
            rw [hnil] at htokens
            exact hentry (splitOnP_eq_singleton_nil htokens)
        | cons token rest => exact joined_some_ne_nil _ _

theorem Plain.splitColor_joined {col : ColorsProtocols} (h : col.Plain) :
    splitColor col.joined = some col := by
  obtain ⟨color, protocols⟩ := col
  have hcolor : ∀ b ∈ color, decide (b ∈ colorDelimiters) = false := fun b hb =>
    decide_eq_false (h.color b hb)
  unfold splitColor gStrsplitSet
  rw [if_neg h.joined]
  cases protocols with
  | none => rw [joined_none, List.splitOnP_eq_singleton hcolor]; rfl
  | some protocols =>
      have hplain := h.protocols protocols rfl
      have hprotocols : ∀ b ∈ protocols, decide (b ∈ colorDelimiters) = false := fun b hb =>
        decide_eq_false (hplain b hb).1
      have hkept : removeSpaces protocols = protocols :=
        List.filter_eq_self.mpr fun b hb => by simp [(hplain b hb).2]
      rw [joined_some, List.append_assoc, show lit ";" = [59] by decide, List.singleton_append,
        List.splitOnP_append_cons_of_forall_mem hcolor 59 (by decide),
        List.splitOnP_eq_singleton hprotocols]
      simp [hkept]

theorem Plain.blank_not_mem {col : ColorsProtocols} (h : col.Plain) : 32 ∉ col.joined := by
  obtain ⟨color, protocols⟩ := col
  intro hmem
  have hblank : (32 : UInt8) ∈ colorDelimiters := by decide
  cases protocols with
  | none =>
      rw [joined_none] at hmem
      exact h.color 32 hmem hblank
  | some protocols =>
      rw [joined_some, List.mem_append, List.mem_append] at hmem
      obtain (hmem | hmem) | hmem := hmem
      · exact h.color 32 hmem hblank
      · exact absurd hmem (by decide)
      · exact (h.protocols protocols rfl 32 hmem).1 hblank

/-! ### The colors found so far -/

/-- The colors found so far are plain, and no two are the same. -/
structure Collected (work : List ColorsProtocols) : Prop where
  plain : ∀ col ∈ work, col.Plain
  nodup : (work.map key).Nodup

theorem collapse_eq_none {new : ColorsProtocols} {work : List ColorsProtocols} :
    new.collapse work = none ↔ new.key ∉ work.map key := by
  induction work with
  | nil => simp [collapse]
  | cons col work ih =>
      unfold collapse
      by_cases hkey : col.key = new.key
      · simp [hkey]
      · rw [if_neg hkey, Option.map_eq_none_iff, ih, List.map_cons, List.mem_cons]
        simp [Ne.symm hkey]

theorem collapse_eq_some {new : ColorsProtocols} {work work' : List ColorsProtocols}
    (hnew : new.Plain) (h : new.collapse work = some work') :
    work'.map key = work.map key ∧ ((∀ col ∈ work, col.Plain) → ∀ col ∈ work', col.Plain) := by
  induction work generalizing work' with
  | nil => exact absurd h (by simp [collapse])
  | cons col work ih =>
      unfold collapse at h
      split at h
      · obtain rfl := Option.some.inj h
        refine ⟨by rw [List.map_cons, append_key, List.map_cons], fun hplain => ?_⟩
        rw [List.forall_mem_cons] at hplain ⊢
        exact ⟨hplain.1.append hnew, hplain.2⟩
      · obtain ⟨rest, hrest, rfl⟩ := Option.map_eq_some_iff.mp h
        obtain ⟨hkeys, hplain⟩ := ih hrest
        refine ⟨by rw [List.map_cons, hkeys, List.map_cons], fun hwork => ?_⟩
        rw [List.forall_mem_cons] at hwork ⊢
        exact ⟨hwork.1, hplain hwork.2⟩

theorem Collected.addColor {work : List ColorsProtocols} (h : Collected work)
    (entry : List UInt8) : Collected (addColor work entry) := by
  unfold EtherApe.addColor
  cases hentry : splitColor entry with
  | none => exact h
  | some new =>
      have hnew := plain_of_splitColor hentry
      show Collected ((new.collapse work).getD (new :: work))
      cases hwork : new.collapse work with
      | none =>
          refine ⟨List.forall_mem_cons.mpr ⟨hnew, h.plain⟩, ?_⟩
          exact List.nodup_cons.mpr ⟨collapse_eq_none.mp hwork, h.nodup⟩
      | some work' =>
          obtain ⟨hkeys, hplain⟩ := collapse_eq_some hnew hwork
          exact ⟨hplain h.plain, hkeys ▸ h.nodup⟩

theorem collected_foldl (entries : List (List UInt8)) {work : List ColorsProtocols}
    (h : Collected work) : Collected (entries.foldl EtherApe.addColor work) := by
  induction entries generalizing work with
  | nil => exact h
  | cons entry entries ih => exact ih (h.addColor entry)

theorem collected_reverse {work : List ColorsProtocols} (h : Collected work) :
    Collected work.reverse where
  plain := fun col hcol => h.plain col (List.mem_reverse.mp hcol)
  nodup := by
    rw [List.map_reverse]
    exact List.nodup_reverse.mpr h.nodup

theorem foldl_joined (cols work : List ColorsProtocols) (h : Collected (cols ++ work)) :
    (cols.map joined).foldl EtherApe.addColor work = cols.reverse ++ work := by
  induction cols generalizing work with
  | nil => rfl
  | cons col cols ih =>
      have hmoved : (col :: cols ++ work).Perm (cols ++ col :: work) := List.perm_middle.symm
      have hnodup := (hmoved.map key).nodup_iff.mp h.nodup
      have hfresh : col.key ∉ work.map key := by
        rw [List.map_append, List.nodup_append] at hnodup
        exact (List.nodup_cons.mp hnodup.2.1).1
      have hadd : EtherApe.addColor work col.joined = col :: work := by
        unfold EtherApe.addColor
        rw [(h.plain col (by simp)).splitColor_joined]
        show (col.collapse work).getD (col :: work) = col :: work
        rw [collapse_eq_none.mpr hfresh, Option.getD_none]
      rw [List.map_cons, List.foldl_cons, hadd, ih, List.reverse_cons, List.append_assoc]
      · rfl
      · exact ⟨fun c hc => h.plain c (hmoved.mem_iff.mpr hc), hnodup⟩

end ColorsProtocols

open ColorsProtocols

theorem protohashCompact_collected (entries : List (List UInt8)) :
    ∃ cols, Collected cols ∧ protohashCompact entries = cols.map joined := by
  have hempty : Collected [] := ⟨by simp, by simp⟩
  exact ⟨_, collected_reverse (collected_foldl entries hempty), rfl⟩

theorem protohashCompact_idempotent (entries : List (List UInt8)) :
    protohashCompact (protohashCompact entries) = protohashCompact entries := by
  obtain ⟨cols, hcols, heq⟩ := protohashCompact_collected entries
  rw [heq, protohashCompact, foldl_joined cols [] (by rwa [List.append_nil]), List.append_nil,
    List.reverse_reverse]

/-- A compacted array is the tokens of its entries with blanks between them. -/
theorem gStrsplit_gStrjoinv (entries : List (List UInt8)) :
    gStrsplit (gStrjoinv (lit " ") (protohashCompact entries)) 32 = protohashCompact entries := by
  obtain ⟨cols, hcols, heq⟩ := protohashCompact_collected entries
  rw [heq, show lit " " = [32] by decide, gStrsplit, gStrjoinv]
  cases cols with
  | nil => rfl
  | cons col cols =>
      have hblanks : ∀ entry ∈ (col :: cols).map joined, 32 ∉ entry := by
        intro entry hentry
        obtain ⟨col', hcol', rfl⟩ := List.mem_map.mp hentry
        exact (hcols.plain col' hcol').blank_not_mem
      rw [if_neg, List.splitOn_intercalate 32 hblanks (by simp)]
      intro hnil
      refine (hcols.plain col List.mem_cons_self).joined ?_
      cases cols with
      | nil => simpa using hnil
      | cons col' cols => simp_all

end EtherApe
