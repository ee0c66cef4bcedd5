import EtherApe.Lib.SortedTree
import Mathlib.Data.List.Basic
import Mathlib.Data.List.Perm.Basic
import Mathlib.Data.List.TakeWhile

/-!
# Rows under an iterator

A list store and an iterator that goes through it, as the rows before the iterator and the rows from it
on. The iterator is valid as long as there is a row from it on. In a store that is sorted a row whose values
are set stays where it is in order with its neighbours, and goes behind all rows that are not above it
elsewhere; the iterator goes with its row.
-/

structure RowCursor (ρ : Type*) where
  passed : List ρ
  ahead : List ρ

namespace RowCursor

variable {ρ : Type*}

def first (rows : List ρ) : RowCursor ρ := ⟨[], rows⟩

def rows (c : RowCursor ρ) : List ρ := c.passed ++ c.ahead

def current (c : RowCursor ρ) : Option ρ := c.ahead.head?

def next (c : RowCursor ρ) : RowCursor ρ := ⟨c.passed ++ c.ahead.take 1, c.ahead.tail⟩

def set (c : RowCursor ρ) (row : ρ) : RowCursor ρ := ⟨c.passed, row :: c.ahead.tail⟩

/-- Puts a row before the one at the iterator, and moves to it. -/
def insertBefore (c : RowCursor ρ) (row : ρ) : RowCursor ρ := ⟨c.passed, row :: c.ahead⟩

def remove (c : RowCursor ρ) : RowCursor ρ := ⟨c.passed, c.ahead.tail⟩

/-- Puts a row in front of all others, behind which an iterator at the end stays at the end. -/
def prepend (c : RowCursor ρ) (row : ρ) : RowCursor ρ := ⟨row :: c.passed, c.ahead⟩

theorem ahead_eq_of_current {c : RowCursor ρ} {row : ρ} (h : c.current = some row) :
    c.ahead = row :: c.ahead.tail := (List.cons_head?_tail h).symm

theorem length_remove {c : RowCursor ρ} {row : ρ} (h : c.current = some row) :
    c.remove.ahead.length < c.ahead.length := by
  rw [ahead_eq_of_current h, List.length_cons]
  exact Nat.lt_succ_self _

theorem set_next (c : RowCursor ρ) (row : ρ) : (c.set row).next = ⟨c.passed ++ [row], c.ahead.tail⟩ :=
  rfl

def append (c : RowCursor ρ) (row : ρ) : RowCursor ρ := ⟨c.rows, [row]⟩

/-- Leaves the iterator behind the last row. -/
def finish (c : RowCursor ρ) : RowCursor ρ := ⟨c.rows, []⟩

section Sorted

variable (cmp : ρ → ρ → Int)

/-- A row is in order between the one before it and the one behind it. -/
def InOrder (before : Option ρ) (row : ρ) (behind : Option ρ) : Prop :=
  (∀ other ∈ before, cmp other row ≤ 0) ∧ ∀ other ∈ behind, cmp row other ≤ 0

instance (before behind : Option ρ) (row : ρ) : Decidable (InOrder cmp before row behind) :=
  inferInstanceAs (Decidable ((∀ other ∈ before, cmp other row ≤ 0) ∧ ∀ other ∈ behind, cmp row other ≤ 0))

/-- Changes the values of the row at the iterator in a sorted store. -/
def setSorted (c : RowCursor ρ) (row : ρ) : RowCursor ρ :=
  if InOrder cmp c.passed.getLast? row c.ahead.tail.head? then c.set row
  else
    let others := c.passed ++ c.ahead.tail
    ⟨others.takeWhile fun other => cmp other row ≤ 0,
      row :: others.dropWhile fun other => cmp other row ≤ 0⟩

theorem setSorted_others (c : RowCursor ρ) (row : ρ) :
    (c.setSorted cmp row).passed ++ (c.setSorted cmp row).ahead.tail = c.passed ++ c.ahead.tail := by
  unfold setSorted
  split
  · rfl
  · exact List.takeWhile_append_dropWhile

theorem setSorted_rows_perm (c : RowCursor ρ) (row : ρ) :
    (c.setSorted cmp row).rows.Perm (row :: (c.passed ++ c.ahead.tail)) := by
  rw [← setSorted_others cmp c row, rows]
  unfold setSorted
  split
  · exact List.perm_middle
  · exact List.perm_middle

theorem next_rows (c : RowCursor ρ) : c.next.rows = c.rows := by
  obtain ⟨passed, ahead⟩ := c
  cases ahead with
  | nil => simp only [next, rows, List.take_nil, List.tail_nil, List.append_nil]
  | cons row ahead => exact List.append_assoc passed [row] ahead

theorem setSorted_of_inOrder {c : RowCursor ρ} {row : ρ}
    (h : InOrder cmp c.passed.getLast? row c.ahead.tail.head?) : c.setSorted cmp row = c.set row := if_pos h

/-- The rows behind a row that is not below those before it. -/
def behind (row : ρ) (rows : List ρ) : List ρ :=
  if InOrder cmp none row rows.head? then rows else rows.dropWhile fun other => cmp other row ≤ 0

theorem length_behind_le (row : ρ) (rows : List ρ) : (behind cmp row rows).length ≤ rows.length := by
  unfold behind
  split
  · exact le_rfl
  · exact List.length_dropWhile_le _ _

theorem inOrder_iff_of_le {passed : List ρ} {row : ρ} {next : Option ρ}
    (h : ∀ other ∈ passed, cmp other row ≤ 0) :
    InOrder cmp passed.getLast? row next ↔ InOrder cmp none row next := by
  constructor
  · exact fun hin => ⟨fun other hother => absurd hother (Option.not_mem_none other), hin.2⟩
  · exact fun hin => ⟨fun other hother => h other (List.mem_of_getLast? hother), hin.2⟩

/-- A row that is not below the passed ones goes over some of those behind it, or over none when it is in
order. -/
theorem setSorted_next_of_le [ThreeWay cmp] {c : RowCursor ρ} {row : ρ}
    (hpassed : ∀ other ∈ c.passed, cmp other row ≤ 0) :
    ∃ jumped, jumped ++ behind cmp row c.ahead.tail = c.ahead.tail ∧ (∀ other ∈ jumped, cmp other row ≤ 0) ∧
      (jumped = [] → InOrder cmp c.passed.getLast? row c.ahead.tail.head?) ∧
      (c.setSorted cmp row).next = ⟨c.passed ++ jumped ++ [row], behind cmp row c.ahead.tail⟩ := by
  by_cases hin : InOrder cmp none row c.ahead.tail.head?
  · have hplace := (inOrder_iff_of_le cmp hpassed).mpr hin
    refine ⟨[], ?_, fun other hother => absurd hother List.not_mem_nil, fun _ => hplace, ?_⟩
    · rw [behind, if_pos hin, List.nil_append]
    · rw [setSorted_of_inOrder cmp hplace, set_next, behind, if_pos hin, List.append_nil]
  · have hplace := fun hin' => hin ((inOrder_iff_of_le cmp hpassed).mp hin')
    have hall : ∀ other ∈ c.passed, decide (cmp other row ≤ 0) = true := fun other hother =>
      decide_eq_true (hpassed other hother)
    refine ⟨c.ahead.tail.takeWhile fun other => cmp other row ≤ 0, ?_, ?_, ?_, ?_⟩
    · rw [behind, if_neg hin, List.takeWhile_append_dropWhile]
    · intro other hother
      have hle := List.mem_takeWhile_imp hother
      rwa [decide_eq_true_iff] at hle
    · intro hjumped
      refine absurd ⟨fun other hother => absurd hother (Option.not_mem_none other), ?_⟩ hin
      intro other hother
      obtain ⟨rest, hrest⟩ := List.head?_eq_some_iff.mp hother
      rw [hrest, List.takeWhile_eq_nil_iff] at hjumped
      have hnot : ¬decide (cmp other row ≤ 0) = true := hjumped (Nat.succ_pos _)
      rw [decide_eq_true_iff, not_le] at hnot
      exact (ThreeWay.lt_of_pos hnot).le
    · rw [setSorted, if_neg hplace, next, behind, if_neg hin]
      dsimp only
      rw [List.takeWhile_append_of_pos hall, List.dropWhile_append_of_pos hall]
      rfl

theorem setSorted_next_of_gt {c : RowCursor ρ} {row last : ρ} (hlast : last ∈ c.passed.getLast?)
    (h : 0 < cmp last row) :
    ∃ before first rest, (c.setSorted cmp row).next = ⟨before ++ [row], first :: rest⟩ ∧
      first ∈ c.passed ∧ before ++ first :: rest = c.passed ++ c.ahead.tail := by
  have hplace : ¬InOrder cmp c.passed.getLast? row c.ahead.tail.head? := by
    intro hin
    have hle := hin.1 last hlast
    omega
  obtain ⟨first, rest, hdrop⟩ :
      ∃ first rest, c.passed.dropWhile (fun other => cmp other row ≤ 0) = first :: rest := by
    apply List.exists_cons_of_ne_nil
    intro hnil
    rw [List.dropWhile_eq_nil_iff] at hnil
    have hle := hnil last (List.mem_of_getLast? hlast)
    rw [decide_eq_true_iff] at hle
    omega
  have hsplit := @List.takeWhile_append_dropWhile _ (fun other => cmp other row ≤ 0) c.passed
  have hfirst : first ∈ c.passed := by
    rw [← hsplit, hdrop]
    exact List.mem_append_right _ List.mem_cons_self
  refine ⟨(c.passed ++ c.ahead.tail).takeWhile fun other => cmp other row ≤ 0, first, rest ++ c.ahead.tail,
    ?_, hfirst, ?_⟩
  · rw [setSorted, if_neg hplace, next]
    dsimp only
    rw [List.dropWhile_append, hdrop]
    rfl
  · conv_rhs => rw [← @List.takeWhile_append_dropWhile _ (fun other => cmp other row ≤ 0)
      (c.passed ++ c.ahead.tail), List.dropWhile_append, hdrop]
    rfl

end Sorted

end RowCursor
