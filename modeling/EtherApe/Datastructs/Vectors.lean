import EtherApe.Datastructs
import Mathlib.Data.List.Induction

/-!
# The vectors of tokens

The memory that `protohash_compact` works on: an entry is split into a vector with a slot for each token
and one for the NULL that ends it, and protocols are put into the second slot in place. The vectors hold
the colors of `addColor`; a vector of a single token loses its NULL when protocols come over it.
-/

namespace EtherApe

open Printf ColorsProtocols

/-- The slots of a vector, a NULL pointer being `none`. -/
abbrev TokenVector := List (Option (List UInt8))

namespace TokenVector

def slot (v : TokenVector) (i : Nat) : Option (List UInt8) := (v[i]?).join

/-- The color and the protocols that the slots hold. -/
def view (v : TokenVector) : ColorsProtocols := ⟨(v.slot 0).getD [], v.slot 1⟩

/-- The NULL that ends a vector is still inside its slots. -/
def Terminated (v : TokenVector) : Prop := none ∈ v

def ofEntry (entry : List UInt8) : TokenVector :=
  (gStrsplitSet entry colorDelimiters).map some ++ [none]

/-- `colors_protocols[1] = remove_spaces(colors_protocols[1])`. -/
def removeSpaces (v : TokenVector) : TokenVector := v.set 1 ((v.slot 1).map EtherApe.removeSpaces)

/-- Puts the protocols of a vector behind those of another of the same color. -/
def append (col new : TokenVector) : TokenVector :=
  match new.slot 1 with
  | none => col
  | some protocols =>
      if protocols = [] then col
      else
        col.set 1 (some (match col.slot 1 with
          | some old => gStrjoinv (lit ",") [old, protocols]
          | none => protocols))

/-- The loop over the vectors found so far, with those it looks at; `none` when it ends without finding
the color. -/
def collapse (new : TokenVector) : List TokenVector → Option (List TokenVector) × List TokenVector
  | [] => (none, [])
  | col :: work =>
      if col.view.key = new.view.key then (some (col.append new :: work), [col])
      else
        let (found, read) := collapse new work
        (found.map (col :: ·), col :: read)

end TokenVector

/-- The vectors found so far, and those that have been read or freed, as they were then. -/
structure CompactRun where
  work : List TokenVector
  used : List TokenVector

open TokenVector

/-- Looks for the color of a new vector, which is freed when it is found. -/
def CompactRun.addVector (s : CompactRun) (new : TokenVector) : CompactRun :=
  match new.collapse s.work with
  | (none, read) => ⟨new :: s.work, s.used ++ read⟩
  | (some work, read) => ⟨work, s.used ++ read ++ [new]⟩

def CompactRun.addEntry (s : CompactRun) (entry : List UInt8) : CompactRun :=
  match (TokenVector.ofEntry entry).slot 0 with
  | none => s
  | some _ => s.addVector (TokenVector.ofEntry entry).removeSpaces

def collectVectors (colors : List (List UInt8)) : CompactRun := colors.foldl CompactRun.addEntry ⟨[], []⟩

/-- All vectors that are read or freed; those that are kept are joined and freed in the end. -/
def vectorsUsed (colors : List (List UInt8)) : List TokenVector :=
  (collectVectors colors).used ++ (collectVectors colors).work.reverse

/-! ### The colors in the vectors -/

namespace TokenVector

/-- A vector of a single token as it was made, or one whose NULL lies behind the second slot. -/
def Intact (v : TokenVector) : Prop :=
  (∃ color, v = [some color, none]) ∨ v.view.protocols ≠ none ∧ none ∈ v.drop 2

theorem Intact.terminated {v : TokenVector} (h : v.Intact) : v.Terminated := by
  rcases h with ⟨color, rfl⟩ | ⟨_, h⟩
  · exact List.mem_cons_of_mem _ List.mem_cons_self
  · exact List.mem_of_mem_drop h

theorem Intact.two_le {v : TokenVector} (h : v.Intact) : 2 ≤ v.length := by
  rcases h with ⟨color, rfl⟩ | ⟨_, h⟩
  · exact le_rfl
  · by_contra hlt
    rw [List.drop_eq_nil_of_le (by omega)] at h
    exact absurd h List.not_mem_nil

theorem slot_ofEntry_of_none {entry : List UInt8} (h : splitColor entry = none) :
    (ofEntry entry).slot 0 = none := by
  unfold splitColor at h
  unfold ofEntry
  cases htokens : gStrsplitSet entry colorDelimiters with
  | nil => rfl
  | cons color rest =>
      rw [htokens] at h
      exact absurd h (Option.some_ne_none _)

theorem removeSpaces_ofEntry {entry : List UInt8} {new : ColorsProtocols}
    (h : splitColor entry = some new) :
    (ofEntry entry).slot 0 ≠ none ∧ (ofEntry entry).removeSpaces.view = new ∧
      (ofEntry entry).removeSpaces.Intact := by
  unfold splitColor at h
  unfold ofEntry
  cases htokens : gStrsplitSet entry colorDelimiters with
  | nil =>
      rw [htokens] at h
      exact absurd h.symm (Option.some_ne_none new)
  | cons color rest =>
      rw [htokens] at h
      obtain rfl := Option.some.inj h
      refine ⟨Option.some_ne_none color, ?_⟩
      cases rest with
      | nil => exact ⟨rfl, Or.inl ⟨color, rfl⟩⟩
      | cons token rest =>
          refine ⟨rfl, Or.inr ⟨Option.some_ne_none _, ?_⟩⟩
          exact List.mem_append_right (rest.map some) List.mem_cons_self

theorem slot_zero_append (col new : TokenVector) : (col.append new).slot 0 = col.slot 0 := by
  unfold append
  split
  · rfl
  · split
    · rfl
    · rw [slot, List.getElem?_set_ne (by decide), slot]

theorem drop_append (col new : TokenVector) : (col.append new).drop 2 = col.drop 2 := by
  unfold append
  split
  · rfl
  · split
    · rfl
    · rw [List.drop_set_of_lt (by decide)]

theorem length_append (col new : TokenVector) : (col.append new).length = col.length := by
  unfold append
  split
  · rfl
  · split
    · rfl
    · rw [List.length_set]

theorem view_append {col new : TokenVector} (h : 2 ≤ col.length) :
    (col.append new).view = col.view.append new.view := by
  have hslot : ∀ x, TokenVector.slot (col.set 1 (some x)) 1 = some x := by
    intro x
    rw [slot, List.getElem?_set_self (by omega)]
    rfl
  unfold view
  rw [slot_zero_append]
  unfold append ColorsProtocols.append
  cases hnew : new.slot 1 with
  | none => rfl
  | some protocols =>
      dsimp only
      by_cases hempty : protocols = []
      · rw [if_pos hempty, if_pos hempty]
      · rw [if_neg hempty, if_neg hempty]
        exact congrArg (ColorsProtocols.mk ((col.slot 0).getD [])) (hslot _)

theorem collapse_eq (new : TokenVector) (work : List TokenVector) :
    (new.view.key ∉ work.map (fun v => v.view.key) ∧ new.collapse work = (none, work)) ∨
      ∃ before col after, work = before ++ col :: after ∧ col.view.key = new.view.key ∧
        new.view.key ∉ before.map (fun v => v.view.key) ∧
        new.collapse work = (some (before ++ col.append new :: after), before ++ [col]) := by
  induction work with
  | nil => exact Or.inl ⟨List.not_mem_nil, rfl⟩
  | cons col work ih =>
      unfold collapse
      by_cases hkey : col.view.key = new.view.key
      · rw [if_pos hkey]
        exact Or.inr ⟨[], col, work, rfl, hkey, List.not_mem_nil, rfl⟩
      · rw [if_neg hkey]
        rcases ih with ⟨hnone, heq⟩ | ⟨before, found, after, rfl, hfound, hbefore, heq⟩
        · rw [heq]
          refine Or.inl ⟨?_, rfl⟩
          rw [List.map_cons, List.mem_cons, not_or]
          exact ⟨Ne.symm hkey, hnone⟩
        · rw [heq]
          refine Or.inr ⟨col :: before, found, after, rfl, hfound, ?_, rfl⟩
          rw [List.map_cons, List.mem_cons, not_or]
          exact ⟨Ne.symm hkey, hbefore⟩

theorem key_append (col new : TokenVector) : (col.append new).view.key = col.view.key := by
  unfold view ColorsProtocols.key
  rw [slot_zero_append]

/-- Once its NULL is lost a vector does not get it back. -/
theorem not_terminated_append {col : TokenVector} (new : TokenVector) (h : ¬col.Terminated) :
    ¬(col.append new).Terminated := by
  unfold append
  split
  · exact h
  · split
    · exact h
    · intro hmem
      rcases List.mem_or_eq_of_mem_set hmem with hmem | heq
      · exact h hmem
      · exact Option.some_ne_none _ heq.symm

/-- Protocols take the slot of the NULL in a vector of a single token. -/
theorem not_terminated_append_single {new : TokenVector} (color : List UInt8)
    (h : new.view.protocols.getD [] ≠ []) :
    ¬TokenVector.Terminated (append [some color, none] new) := by
  unfold append
  have hslot : new.slot 1 = new.view.protocols := rfl
  rw [hslot]
  cases hprotocols : new.view.protocols with
  | none =>
      rw [hprotocols] at h
      exact absurd rfl h
  | some protocols =>
      rw [hprotocols] at h
      have hne : protocols ≠ [] := h
      dsimp only
      rw [if_neg hne]
      simp [Terminated]

theorem append_protocols_ne_none (col : ColorsProtocols) {new : ColorsProtocols}
    (h : new.protocols.getD [] ≠ []) : (col.append new).protocols ≠ none := by
  unfold ColorsProtocols.append
  cases hprotocols : new.protocols with
  | none =>
      rw [hprotocols] at h
      exact absurd rfl h
  | some protocols =>
      rw [hprotocols] at h
      have hne : protocols ≠ [] := h
      dsimp only
      rw [if_neg hne]
      exact Option.some_ne_none _

theorem append_of_empty {col new : TokenVector} (h : new.view.protocols.getD [] = []) :
    col.append new = col := by
  unfold append
  have hslot : new.slot 1 = new.view.protocols := rfl
  rw [hslot]
  cases hprotocols : new.view.protocols with
  | none => rfl
  | some protocols =>
      rw [hprotocols] at h
      exact if_pos h

end TokenVector

/-! ### What is compacted -/

theorem addEntry_of_none (s : CompactRun) {entry : List UInt8} (h : splitColor entry = none) :
    s.addEntry entry = s := by
  unfold CompactRun.addEntry
  rw [slot_ofEntry_of_none h]

theorem addEntry_of_some (s : CompactRun) {entry : List UInt8} {new : ColorsProtocols}
    (h : splitColor entry = some new) :
    ∃ v : TokenVector, v.view = new ∧ v.Intact ∧ s.addEntry entry = s.addVector v := by
  obtain ⟨hslot, hview, hintact⟩ := removeSpaces_ofEntry h
  refine ⟨_, hview, hintact, ?_⟩
  obtain ⟨color, hcolor⟩ := Option.ne_none_iff_exists'.mp hslot
  unfold CompactRun.addEntry
  rw [hcolor]

section View

open TokenVector

theorem collapse_view (new : TokenVector) {work : List TokenVector} (h : ∀ v ∈ work, 2 ≤ v.length) :
    ColorsProtocols.collapse new.view (work.map view) =
      (TokenVector.collapse new work).1.map (List.map view) := by
  induction work with
  | nil => rfl
  | cons col work ih =>
      obtain ⟨hcol, hwork⟩ := List.forall_mem_cons.mp h
      unfold TokenVector.collapse
      rw [List.map_cons, ColorsProtocols.collapse]
      by_cases hkey : col.view.key = new.view.key
      · rw [if_pos hkey, if_pos hkey, ← view_append hcol]
        rfl
      · rw [if_neg hkey, if_neg hkey, ih hwork, Option.map_map, Option.map_map]
        rfl

theorem length_of_collapse {new : TokenVector} {work work' : List TokenVector}
    (h : ∀ v ∈ work, 2 ≤ v.length) (hwork : (TokenVector.collapse new work).1 = some work') :
    ∀ v ∈ work', 2 ≤ v.length := by
  rcases collapse_eq new work with ⟨_, heq⟩ | ⟨before, col, after, rfl, _, _, heq⟩
  · rw [heq] at hwork
    exact absurd hwork.symm (Option.some_ne_none work')
  · rw [heq] at hwork
    obtain rfl := Option.some.inj hwork
    intro v hv
    rcases List.mem_append.mp hv with hv | hv
    · exact h v (List.mem_append_left _ hv)
    · rcases List.mem_cons.mp hv with rfl | hv
      · rw [length_append]
        exact h col (List.mem_append_right _ List.mem_cons_self)
      · exact h v (List.mem_append_right _ (List.mem_cons_of_mem _ hv))

theorem collectVectors_view (entries : List (List UInt8)) :
    (collectVectors entries).work.map view = entries.foldl addColor [] ∧
      ∀ v ∈ (collectVectors entries).work, 2 ≤ v.length := by
  induction entries using List.reverseRecOn with
  | nil => exact ⟨rfl, List.forall_mem_nil _⟩
  | append_singleton entries entry ih =>
      obtain ⟨hview, hlength⟩ := ih
      have hrun : collectVectors (entries ++ [entry]) = (collectVectors entries).addEntry entry := by
        rw [collectVectors, List.foldl_append]
        rfl
      rw [hrun, List.foldl_append, List.foldl_cons, List.foldl_nil, addColor]
      cases hentry : splitColor entry with
      | none =>
          rw [addEntry_of_none _ hentry]
          exact ⟨hview, hlength⟩
      | some new =>
          obtain ⟨v, rfl, hintact, hadd⟩ := addEntry_of_some (collectVectors entries) hentry
          dsimp only
          rw [hadd, ← hview, collapse_view v hlength, CompactRun.addVector]
          cases hfound : TokenVector.collapse v (collectVectors entries).work with
          | mk found read =>
              cases found with
              | none => exact ⟨rfl, List.forall_mem_cons.mpr ⟨hintact.two_le, hlength⟩⟩
              | some work' => exact ⟨rfl, length_of_collapse hlength (congrArg Prod.fst hfound)⟩

/-- The compacted entries are joined from the vectors that are left. -/
theorem protohashCompact_eq_vectors (entries : List (List UInt8)) :
    protohashCompact entries = (collectVectors entries).work.reverse.map fun v => v.view.joined := by
  rw [protohashCompact, ← (collectVectors_view entries).1, ← List.map_reverse, List.map_map]
  rfl

end View

/-! ### Which vectors stay terminated -/

/-- No color that first comes without protocols is given any later. -/
def KeepsVectors (cols : List ColorsProtocols) : Prop :=
  ∀ before new after, cols = before ++ new :: after →
    ∀ first, before.find? (fun col => col.key = new.key) = some first → first.protocols = none →
      new.protocols.getD [] = []

theorem keepsVectors_snoc {cols : List ColorsProtocols} {new : ColorsProtocols} :
    KeepsVectors (cols ++ [new]) ↔ KeepsVectors cols ∧
      ∀ first, cols.find? (fun col => col.key = new.key) = some first → first.protocols = none →
        new.protocols.getD [] = [] := by
  constructor
  · intro h
    refine ⟨fun before col after heq => ?_, h cols new [] rfl⟩
    exact h before col (after ++ [new]) (by rw [heq, List.append_assoc, List.cons_append])
  · rintro ⟨hcols, hnew⟩ before col after heq
    rcases List.eq_nil_or_concat after with rfl | ⟨after', last, rfl⟩
    · obtain ⟨hbefore, hcol⟩ := List.append_inj' heq rfl
      obtain rfl := List.cons.inj hcol |>.1
      rwa [← hbefore]
    · rw [List.concat_eq_append, ← List.cons_append, ← List.append_assoc] at heq
      exact hcols before col after' (List.append_inj' heq rfl).1

/-- What the loop keeps: while no NULL is lost, all vectors are intact and have protocols exactly where
the first entry of their color has; a vector that lost its NULL stays. -/
structure Kept (cols : List ColorsProtocols) (s : CompactRun) : Prop where
  keys : ∀ col ∈ cols, col.key ∈ s.work.map fun v => v.view.key
  used : KeepsVectors cols → ∀ v ∈ s.used, v.Terminated
  work : KeepsVectors cols → ∀ v ∈ s.work, v.Intact ∧
    ∃ first, cols.find? (fun col => col.key = v.view.key) = some first ∧
      (first.protocols = none ↔ v.view.protocols = none)
  lost : ¬KeepsVectors cols → ∃ v ∈ s.work, ¬v.Terminated

theorem find?_append_some {cols : List ColorsProtocols} {k : List UInt8} {first : ColorsProtocols}
    (new : ColorsProtocols) (h : cols.find? (fun col => col.key = k) = some first) :
    (cols ++ [new]).find? (fun col => col.key = k) = some first := by
  rw [List.find?_append, h]
  rfl

section Step

variable {cols : List ColorsProtocols} {s : CompactRun} {new : TokenVector}

theorem Kept.addVector_fresh (h : Kept cols s) (hnew : new.Intact)
    (hfresh : new.view.key ∉ s.work.map fun v => v.view.key) :
    Kept (cols ++ [new.view]) ⟨new :: s.work, s.used ++ s.work⟩ := by
  have hnone : cols.find? (fun col => col.key = new.view.key) = none := by
    rw [List.find?_eq_none]
    intro col hcol hsame
    exact hfresh (of_decide_eq_true hsame ▸ h.keys col hcol)
  have hkeeps : KeepsVectors (cols ++ [new.view]) ↔ KeepsVectors cols := by
    rw [keepsVectors_snoc, hnone]
    exact and_iff_left fun first hsome => absurd hsome.symm (Option.some_ne_none first)
  refine ⟨fun col hcol => ?_, fun hkept v hv => ?_, fun hkept v hv => ?_, fun hlost => ?_⟩
  · rw [List.map_cons, List.mem_cons]
    rcases List.mem_append.mp hcol with hcol | hcol
    · exact Or.inr (h.keys col hcol)
    · exact Or.inl (congrArg key (List.mem_singleton.mp hcol))
  · rcases List.mem_append.mp hv with hv | hv
    · exact h.used (hkeeps.mp hkept) v hv
    · exact (h.work (hkeeps.mp hkept) v hv).1.terminated
  · rcases List.mem_cons.mp hv with rfl | hv
    · refine ⟨hnew, v.view, ?_, Iff.rfl⟩
      rw [List.find?_append, hnone]
      simp
    · obtain ⟨hintact, first, hfound, hiff⟩ := h.work (hkeeps.mp hkept) v hv
      exact ⟨hintact, first, find?_append_some new.view hfound, hiff⟩
  · obtain ⟨v, hv, hterminated⟩ := h.lost (mt hkeeps.mpr hlost)
    exact ⟨v, List.mem_cons_of_mem new hv, hterminated⟩

theorem Kept.addVector_found {before after : List TokenVector} {col : TokenVector} (h : Kept cols s)
    (hnew : new.Intact) (hwork : s.work = before ++ col :: after) (hkey : col.view.key = new.view.key) :
    Kept (cols ++ [new.view])
      ⟨before ++ col.append new :: after, s.used ++ (before ++ [col]) ++ [new]⟩ := by
  have hkeys : (before ++ col.append new :: after).map (fun v => v.view.key) =
      s.work.map fun v => v.view.key := by
    rw [hwork, List.map_append, List.map_append, List.map_cons, List.map_cons, key_append]
  have hmem : col ∈ s.work := hwork ▸ List.mem_append_right before List.mem_cons_self
  have hother : ∀ v ∈ before ++ col.append new :: after, v = col.append new ∨ v ∈ s.work := by
    intro v hv
    rw [hwork]
    rcases List.mem_append.mp hv with hv | hv
    · exact Or.inr (List.mem_append_left _ hv)
    · rcases List.mem_cons.mp hv with rfl | hv
      · exact Or.inl rfl
      · exact Or.inr (List.mem_append_right _ (List.mem_cons_of_mem _ hv))
  refine ⟨fun c hc => ?_, fun hkept v hv => ?_, fun hkept v hv => ?_, fun hlost => ?_⟩
  · rw [hkeys]
    rcases List.mem_append.mp hc with hc | hc
    · exact h.keys c hc
    · rw [List.mem_singleton.mp hc, ← hkey]
      exact List.mem_map_of_mem hmem
  · have hbefore := (keepsVectors_snoc.mp hkept).1
    rcases List.mem_append.mp hv with hv | hv
    · rcases List.mem_append.mp hv with hv | hv
      · exact h.used hbefore v hv
      · have hread : v ∈ s.work := by
          rcases List.mem_append.mp hv with hv | hv
          · exact hwork ▸ List.mem_append_left _ hv
          · exact List.mem_singleton.mp hv ▸ hmem
        exact (h.work hbefore v hread).1.terminated
    · exact List.mem_singleton.mp hv ▸ hnew.terminated
  · obtain ⟨hbefore, hlast⟩ := keepsVectors_snoc.mp hkept
    rcases hother v hv with rfl | hv
    · obtain ⟨hintact, first, hfound, hiff⟩ := h.work hbefore col hmem
      rw [key_append]
      by_cases hempty : new.view.protocols.getD [] = []
      · rw [append_of_empty hempty]
        exact ⟨hintact, first, find?_append_some new.view hfound, hiff⟩
      · have hgiven : first.protocols ≠ none := fun hnone =>
          hempty (hlast first (hkey ▸ hfound) hnone)
        have hprotocols : (col.append new).view.protocols ≠ none := by
          rw [view_append hintact.two_le]
          exact append_protocols_ne_none col.view hempty
        refine ⟨Or.inr ⟨hprotocols, ?_⟩, first, find?_append_some new.view hfound,
          iff_of_false hgiven hprotocols⟩
        rw [drop_append]
        rcases hintact with ⟨color, rfl⟩ | ⟨_, hdrop⟩
        · exact absurd (hiff.mpr rfl) hgiven
        · exact hdrop
    · obtain ⟨hintact, first, hfound, hiff⟩ := h.work hbefore v hv
      exact ⟨hintact, first, find?_append_some new.view hfound, hiff⟩
  · have hchanged : col.append new ∈ before ++ col.append new :: after :=
      List.mem_append_right before List.mem_cons_self
    by_cases hbefore : KeepsVectors cols
    · have hlast : ∃ first, cols.find? (fun c => c.key = new.view.key) = some first ∧
          first.protocols = none ∧ new.view.protocols.getD [] ≠ [] := by
        by_contra hall
        push Not at hall
        exact hlost (keepsVectors_snoc.mpr ⟨hbefore, hall⟩)
      obtain ⟨first, hfound, hnone, hgiven⟩ := hlast
      obtain ⟨hintact, first', hfound', hiff⟩ := h.work hbefore col hmem
      rw [hkey, hfound] at hfound'
      obtain rfl := Option.some.inj hfound'
      rcases hintact with ⟨color, rfl⟩ | ⟨hprotocols, _⟩
      · exact ⟨_, hchanged, not_terminated_append_single color hgiven⟩
      · exact absurd (hiff.mp hnone) hprotocols
    · obtain ⟨v, hv, hterminated⟩ := h.lost hbefore
      rw [hwork] at hv
      rcases List.mem_append.mp hv with hv | hv
      · exact ⟨v, List.mem_append_left _ hv, hterminated⟩
      · rcases List.mem_cons.mp hv with rfl | hv
        · exact ⟨_, hchanged, not_terminated_append new hterminated⟩
        · exact ⟨v, List.mem_append_right _ (List.mem_cons_of_mem _ hv), hterminated⟩

theorem Kept.addVector (h : Kept cols s) (hnew : new.Intact) :
    Kept (cols ++ [new.view]) (s.addVector new) := by
  unfold CompactRun.addVector
  rcases collapse_eq new s.work with ⟨hfresh, heq⟩ | ⟨before, col, after, hwork, hkey, _, heq⟩
  · rw [heq]
    exact h.addVector_fresh hnew hfresh
  · rw [heq]
    exact h.addVector_found hnew hwork hkey

end Step

theorem collectVectors_kept (entries : List (List UInt8)) :
    Kept (entries.filterMap splitColor) (collectVectors entries) := by
  induction entries using List.reverseRecOn with
  | nil =>
      refine ⟨by simp, fun _ => by simp [collectVectors], fun _ => by simp [collectVectors], ?_⟩
      intro hlost
      refine absurd (fun before new after heq => ?_) hlost
      exact absurd heq.symm (List.append_ne_nil_of_right_ne_nil before (List.cons_ne_nil new after))
  | append_singleton entries entry ih =>
      have hrun : collectVectors (entries ++ [entry]) = (collectVectors entries).addEntry entry := by
        rw [collectVectors, List.foldl_append]
        rfl
      rw [hrun, List.filterMap_append]
      cases hentry : splitColor entry with
      | none =>
          rw [addEntry_of_none _ hentry, List.filterMap_cons_none hentry, List.filterMap_nil,
            List.append_nil]
          exact ih
      | some new =>
          obtain ⟨v, rfl, hintact, hadd⟩ := addEntry_of_some (collectVectors entries) hentry
          rw [hadd, List.filterMap_cons_some hentry, List.filterMap_nil]
          exact ih.addVector hintact

/-- All vectors that the compaction reads or frees are terminated, if and only if no color that first
comes alone in its entry is given protocols by a later one. -/
theorem vectorsUsed_terminated_iff (entries : List (List UInt8)) :
    (∀ v ∈ vectorsUsed entries, v.Terminated) ↔ KeepsVectors (entries.filterMap splitColor) := by
  have hkept := collectVectors_kept entries
  constructor
  · intro hall
    by_contra hlost
    obtain ⟨v, hv, hterminated⟩ := hkept.lost hlost
    exact hterminated (hall v (List.mem_append_right _ (List.mem_reverse.mpr hv)))
  · intro hkeeps v hv
    rcases List.mem_append.mp hv with hv | hv
    · exact hkept.used hkeeps v hv
    · exact (hkept.work hkeeps v (List.mem_reverse.mp hv)).1.terminated

instance (v : TokenVector) : Decidable v.Terminated := inferInstanceAs (Decidable (_ ∈ _))

/-- A color alone, and then with a protocol. -/
theorem not_all_vectors_terminated : ¬∀ entries, ∀ v ∈ vectorsUsed entries, v.Terminated := by
  intro h
  have hall := h [lit "red", lit "red;http"]
  revert hall
  decide +kernel

end EtherApe
