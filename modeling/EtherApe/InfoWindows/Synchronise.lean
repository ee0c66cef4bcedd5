import EtherApe.InfoWindows

/-!
# Rows of the protocols

When the table of protocols has one row for every displayed protocol after an update. It has when every row
stays between its neighbours while it is refreshed, as it always does where the rows are sorted by their
names. A row that goes back takes the iterator back with it, and the refreshed row that it finds there is
removed; a row that goes on over others leaves them behind, which only a later row that goes back can bring
to the iterator again.
-/

namespace EtherApe.InfoWindows

open Printf

def rowNames (rows : List ProtocolRow) : List (List UInt8) := rows.map fun row => row.item.name.bytes

def protoNames (protos : List Export.Protocol) : List (List UInt8) :=
  protos.map fun stackProto => stackProto.name.bytes

/-- Every protocol has one row, and there is no other. -/
def OneRowEach (rows : List ProtocolRow) (protos : List Export.Protocol) : Prop :=
  (rowNames rows).Perm (protoNames protos)

section Conditions

variable (cmp : ProtocolRow → ProtocolRow → Int) (env : TableEnv)

/-- Every row that is refreshed is in order between the one refreshed before it and the row behind it. -/
def KeepsPlaces : Option ProtocolRow → List ProtocolRow → List Export.Protocol → Prop
  | _, [], _ => True
  | _, _ :: _, [] => True
  | prev, row :: rows, stackProto :: protos =>
      if row.item.name.bytes ≠ stackProto.name.bytes then KeepsPlaces prev rows (stackProto :: protos)
      else
        let row := refreshed env stackProto row
        RowCursor.InOrder cmp prev row rows.head? ∧ KeepsPlaces (some row) rows protos

/-- No row that is refreshed is below the one refreshed before it, though it may go over others. -/
def Ascends (prev : Option ProtocolRow) (rows : List ProtocolRow) (protos : List Export.Protocol) : Prop :=
  match rows, protos with
  | [], _ => True
  | _ :: _, [] => True
  | row :: rows, stackProto :: protos =>
      if row.item.name.bytes ≠ stackProto.name.bytes then Ascends prev rows (stackProto :: protos)
      else
        let row := refreshed env stackProto row
        (∀ before ∈ prev, cmp before row ≤ 0) ∧ Ascends (some row) (RowCursor.behind cmp row rows) protos
termination_by rows.length
decreasing_by
  · exact Nat.lt_succ_self _
  · exact Nat.lt_succ_of_le (RowCursor.length_behind_le _ _ _)

/-- The first row that leaves its place goes over others, and a later one goes back. -/
def TurnsBack : Option ProtocolRow → List ProtocolRow → List Export.Protocol → Prop
  | _, [], _ => False
  | _, _ :: _, [] => False
  | prev, row :: rows, stackProto :: protos =>
      if row.item.name.bytes ≠ stackProto.name.bytes then TurnsBack prev rows (stackProto :: protos)
      else
        let row := refreshed env stackProto row
        if RowCursor.InOrder cmp prev row rows.head? then TurnsBack (some row) rows protos
        else (∀ before ∈ prev, cmp before row ≤ 0) ∧
          ¬Ascends cmp env (some row) (RowCursor.behind cmp row rows) protos

variable {cmp env} {prev : Option ProtocolRow} {row : ProtocolRow} {rows : List ProtocolRow}
  {stackProto : Export.Protocol} {protos : List Export.Protocol}

theorem keepsPlaces_of_ne (h : row.item.name.bytes ≠ stackProto.name.bytes) :
    KeepsPlaces cmp env prev (row :: rows) (stackProto :: protos) ↔
      KeepsPlaces cmp env prev rows (stackProto :: protos) := by
  rw [KeepsPlaces, if_pos h]

theorem keepsPlaces_of_eq (h : row.item.name.bytes = stackProto.name.bytes) :
    KeepsPlaces cmp env prev (row :: rows) (stackProto :: protos) ↔
      RowCursor.InOrder cmp prev (refreshed env stackProto row) rows.head? ∧
        KeepsPlaces cmp env (some (refreshed env stackProto row)) rows protos := by
  rw [KeepsPlaces, if_neg (not_not.mpr h)]

theorem turnsBack_of_ne (h : row.item.name.bytes ≠ stackProto.name.bytes) :
    TurnsBack cmp env prev (row :: rows) (stackProto :: protos) ↔
      TurnsBack cmp env prev rows (stackProto :: protos) := by
  rw [TurnsBack, if_pos h]

theorem turnsBack_of_inOrder (h : row.item.name.bytes = stackProto.name.bytes)
    (hplace : RowCursor.InOrder cmp prev (refreshed env stackProto row) rows.head?) :
    TurnsBack cmp env prev (row :: rows) (stackProto :: protos) ↔
      TurnsBack cmp env (some (refreshed env stackProto row)) rows protos := by
  rw [TurnsBack, if_neg (not_not.mpr h), if_pos hplace]

theorem turnsBack_of_not_inOrder (h : row.item.name.bytes = stackProto.name.bytes)
    (hplace : ¬RowCursor.InOrder cmp prev (refreshed env stackProto row) rows.head?) :
    TurnsBack cmp env prev (row :: rows) (stackProto :: protos) ↔
      (∀ before ∈ prev, cmp before (refreshed env stackProto row) ≤ 0) ∧
        ¬Ascends cmp env (some (refreshed env stackProto row))
          (RowCursor.behind cmp (refreshed env stackProto row) rows) protos := by
  rw [TurnsBack, if_neg (not_not.mpr h), if_neg hplace]

end Conditions

/-! ### The rounds for one protocol -/

section Iterate

variable {cmp : ProtocolRow → ProtocolRow → Int} {env : TableEnv} {stackProto : Export.Protocol}

theorem protocolsTableIterate_end (passed : List ProtocolRow) :
    ∃ row passed', protocolsTableIterate cmp env stackProto ⟨passed, []⟩ = ⟨passed', []⟩ ∧
      passed'.Perm (row :: passed) ∧ row.item.name = stackProto.name := by
  let row := ProtocolRow.create env stackProto
  let gs := (RowCursor.append ⟨passed, []⟩ row).setSorted cmp row
  refine ⟨refreshed env stackProto row, (gs.setSorted cmp (refreshed env stackProto row)).rows, ?_, ?_, rfl⟩
  · rw [protocolsTableIterate]
    rfl
  · apply (RowCursor.setSorted_rows_perm cmp gs _).trans
    rw [RowCursor.setSorted_others, RowCursor.append, RowCursor.rows]
    simp only [List.tail_cons, List.append_nil, List.Perm.refl]

theorem protocolsTableIterate_of_ne {passed rows : List ProtocolRow} {row : ProtocolRow}
    (h : row.item.name.bytes ≠ stackProto.name.bytes) :
    protocolsTableIterate cmp env stackProto ⟨passed, row :: rows⟩ =
      protocolsTableIterate cmp env stackProto ⟨passed, rows⟩ := by
  rw [protocolsTableIterate]
  exact if_pos h

theorem protocolsTableIterate_of_eq {passed rows : List ProtocolRow} {row : ProtocolRow}
    (h : row.item.name.bytes = stackProto.name.bytes) :
    protocolsTableIterate cmp env stackProto ⟨passed, row :: rows⟩ =
      (RowCursor.setSorted cmp ⟨passed, row :: rows⟩ (refreshed env stackProto row)).next := by
  rw [protocolsTableIterate]
  exact if_neg (not_not.mpr h)

theorem mem_rowNames_of_iterate {gs : RowCursor ProtocolRow} {name : List UInt8}
    (h : name ∈ rowNames (protocolsTableIterate cmp env stackProto gs).rows) :
    name ∈ rowNames gs.rows ∨ name = stackProto.name.bytes := by
  obtain ⟨passed, ahead⟩ := gs
  induction ahead with
  | nil =>
      obtain ⟨row, passed', hiterate, hperm, hname⟩ := @protocolsTableIterate_end cmp env stackProto passed
      rw [hiterate, RowCursor.rows, List.append_nil, rowNames, (hperm.map _).mem_iff, List.map_cons,
        List.mem_cons, hname] at h
      rw [RowCursor.rows, List.append_nil]
      exact h.symm
  | cons row ahead ih =>
      by_cases heq : row.item.name.bytes = stackProto.name.bytes
      · rw [protocolsTableIterate_of_eq heq, RowCursor.next_rows, rowNames,
          ((RowCursor.setSorted_rows_perm cmp _ _).map _).mem_iff, List.map_cons, List.mem_cons] at h
        rcases h with hrow | hother
        · exact Or.inr (hrow.trans heq)
        · left
          rw [rowNames, RowCursor.rows, List.perm_middle.map _ |>.mem_iff]
          exact List.mem_cons_of_mem _ hother
      · rw [protocolsTableIterate_of_ne heq] at h
        rcases ih h with hold | hproto
        · left
          rw [rowNames, RowCursor.rows, List.perm_middle.map _ |>.mem_iff]
          exact List.mem_cons_of_mem _ hold
        · exact Or.inr hproto

end Iterate

/-! ### The rounds for all protocols -/

section Rounds

variable {cmp : ProtocolRow → ProtocolRow → Int} {env : TableEnv}

theorem synchronise_cons (stackProto : Export.Protocol) (protos : List Export.Protocol)
    (gs : RowCursor ProtocolRow) :
    synchronise cmp env (stackProto :: protos) gs =
      synchronise cmp env protos (protocolsTableIterate cmp env stackProto gs) := rfl

theorem synchronise_of_ne {stackProto : Export.Protocol} {row : ProtocolRow}
    (h : row.item.name.bytes ≠ stackProto.name.bytes) (passed rows : List ProtocolRow)
    (protos : List Export.Protocol) :
    synchronise cmp env (stackProto :: protos) ⟨passed, row :: rows⟩ =
      synchronise cmp env (stackProto :: protos) ⟨passed, rows⟩ := by
  rw [synchronise_cons, synchronise_cons, protocolsTableIterate_of_ne h]

theorem synchronise_of_eq {stackProto : Export.Protocol} {row : ProtocolRow}
    (h : row.item.name.bytes = stackProto.name.bytes) (passed rows : List ProtocolRow)
    (protos : List Export.Protocol) :
    synchronise cmp env (stackProto :: protos) ⟨passed, row :: rows⟩ =
      synchronise cmp env protos
        (RowCursor.setSorted cmp ⟨passed, row :: rows⟩ (refreshed env stackProto row)).next := by
  rw [synchronise_cons, protocolsTableIterate_of_eq h]

theorem synchronise_end (protos : List Export.Protocol) (passed : List ProtocolRow) :
    (rowNames (synchronise cmp env protos ⟨passed, []⟩)).Perm (rowNames passed ++ protoNames protos) := by
  induction protos generalizing passed with
  | nil =>
      rw [protoNames, List.map_nil, List.append_nil]
      rfl
  | cons stackProto protos ih =>
      obtain ⟨row, passed', hiterate, hperm, hname⟩ := @protocolsTableIterate_end cmp env stackProto passed
      rw [synchronise_cons, hiterate]
      have hnew : (rowNames passed' ++ protoNames protos).Perm
          (row.item.name.bytes :: rowNames passed ++ protoNames protos) := (hperm.map _).append_right _
      apply ((ih passed').trans hnew).trans
      rw [hname]
      exact List.perm_middle.symm

theorem mem_rowNames_of_synchronise {protos : List Export.Protocol} {gs : RowCursor ProtocolRow}
    {name : List UInt8} (h : name ∈ rowNames (synchronise cmp env protos gs)) :
    name ∈ rowNames gs.rows ∨ name ∈ protoNames protos := by
  induction protos generalizing gs with
  | nil =>
      left
      rw [rowNames, RowCursor.rows, List.map_append, List.mem_append]
      exact Or.inl h
  | cons stackProto protos ih =>
      rw [protoNames, List.map_cons, List.mem_cons]
      rcases ih h with hrow | hproto
      · rcases mem_rowNames_of_iterate hrow with hold | hname
        · exact Or.inl hold
        · exact Or.inr (Or.inl hname)
      · exact Or.inr (Or.inr hproto)

theorem rowNames_append (rows others : List ProtocolRow) :
    rowNames (rows ++ others) = rowNames rows ++ rowNames others := List.map_append

theorem rowNames_concat_refreshed {stackProto : Export.Protocol} {row : ProtocolRow}
    (h : row.item.name.bytes = stackProto.name.bytes) (rows : List ProtocolRow)
    (protos : List Export.Protocol) :
    rowNames (rows ++ [refreshed env stackProto row]) ++ protoNames protos =
      rowNames rows ++ protoNames (stackProto :: protos) := by
  rw [rowNames_append, List.append_assoc]
  exact congrArg (fun name => rowNames rows ++ name :: protoNames protos) h

/-- Rows that keep their places are passed one for each protocol. -/
theorem synchronise_keepsPlaces {protos : List Export.Protocol} {passed ahead : List ProtocolRow}
    (h : KeepsPlaces cmp env passed.getLast? ahead protos) :
    (rowNames (synchronise cmp env protos ⟨passed, ahead⟩)).Perm (rowNames passed ++ protoNames protos) := by
  induction ahead generalizing passed protos with
  | nil => exact synchronise_end protos passed
  | cons row ahead ih =>
      cases protos with
      | nil =>
          rw [protoNames, List.map_nil, List.append_nil]
          rfl
      | cons stackProto protos =>
          by_cases heq : row.item.name.bytes = stackProto.name.bytes
          · rw [keepsPlaces_of_eq heq] at h
            rw [synchronise_of_eq heq, RowCursor.setSorted_of_inOrder cmp h.1, RowCursor.set_next,
              ← rowNames_concat_refreshed heq]
            apply ih
            rw [List.getLast?_concat]
            exact h.2
          · rw [keepsPlaces_of_ne heq] at h
            rw [synchronise_of_ne heq]
            exact ih h

section Order

variable [ThreeWay cmp]

/-- The passed rows are not below the last of them. -/
def LastIsTop (cmp : ProtocolRow → ProtocolRow → Int) (passed : List ProtocolRow) : Prop :=
  ∀ last ∈ passed.getLast?, ∀ row ∈ passed, cmp row last ≤ 0

theorem lastIsTop_concat {rows : List ProtocolRow} {row : ProtocolRow}
    (h : ∀ other ∈ rows, cmp other row ≤ 0) : LastIsTop cmp (rows ++ [row]) := by
  intro last hlast other hother
  rw [List.getLast?_concat, Option.mem_some_iff] at hlast
  subst hlast
  rcases List.mem_append.mp hother with hrows | hrow
  · exact h other hrows
  · rw [List.mem_singleton.mp hrow]
    exact (ThreeWay.refl row).le

theorem LastIsTop.le_of_last {passed : List ProtocolRow} (h : LastIsTop cmp passed) {row : ProtocolRow}
    (hlast : ∀ last ∈ passed.getLast?, cmp last row ≤ 0) : ∀ other ∈ passed, cmp other row ≤ 0 := by
  intro other hother
  obtain ⟨last, hsome⟩ := Option.isSome_iff_exists.mp (List.getLast?_isSome.mpr (List.ne_nil_of_mem hother))
  exact ThreeWay.trans other last row (h last hsome other hother) (hlast last hsome)

/-- Rows that only ascend are all kept, also those that they go over. -/
theorem length_synchronise_of_ascends {protos : List Export.Protocol} {passed ahead : List ProtocolRow}
    (h : Ascends cmp env passed.getLast? ahead protos) (htop : LastIsTop cmp passed) :
    passed.length + protos.length ≤ (synchronise cmp env protos ⟨passed, ahead⟩).length := by
  generalize hlength : ahead.length = n
  induction n using Nat.strong_induction_on generalizing passed ahead protos with
  | _ n ih =>
      cases ahead with
      | nil =>
          have hend := (@synchronise_end cmp env protos passed).length_eq
          rw [List.length_append, rowNames, rowNames, protoNames, List.length_map, List.length_map,
            List.length_map] at hend
          exact hend.ge
      | cons row ahead =>
          cases protos with
          | nil => exact le_rfl
          | cons stackProto protos =>
              by_cases heq : row.item.name.bytes = stackProto.name.bytes
              · rw [Ascends, if_neg (not_not.mpr heq)] at h
                have hle := htop.le_of_last h.1
                obtain ⟨jumped, hrows, hjumped, -, hnext⟩ :=
                  @RowCursor.setSorted_next_of_le _ cmp _ ⟨passed, row :: ahead⟩ _ hle
                rw [synchronise_of_eq heq, hnext]
                have hall : ∀ other ∈ passed ++ jumped, cmp other (refreshed env stackProto row) ≤ 0 :=
                  fun other hother => (List.mem_append.mp hother).elim (hle other) (hjumped other)
                have hshorter := RowCursor.length_behind_le cmp (refreshed env stackProto row) ahead
                have hrest := @ih (RowCursor.behind cmp (refreshed env stackProto row) ahead).length
                  (hlength ▸ Nat.lt_succ_of_le hshorter) protos (passed ++ jumped ++ [refreshed env stackProto row])
                  (RowCursor.behind cmp (refreshed env stackProto row) ahead)
                  (by rw [List.getLast?_concat]; exact h.2) (lastIsTop_concat hall) rfl
                rw [List.length_append, List.length_append, List.length_singleton] at hrest
                rw [List.length_cons]
                refine le_trans ?_ hrest
                omega
              · rw [Ascends, if_pos heq] at h
                rw [synchronise_of_ne heq]
                exact @ih ahead.length (hlength ▸ Nat.lt_succ_self _) (stackProto :: protos) passed ahead h
                  htop rfl

/-- A row that goes over others leaves more rows than there are protocols. -/
theorem length_synchronise_of_over {stackProto : Export.Protocol} {protos : List Export.Protocol}
    {row : ProtocolRow} {passed ahead : List ProtocolRow} (heq : row.item.name.bytes = stackProto.name.bytes)
    (htop : LastIsTop cmp passed)
    (hle : ∀ last ∈ passed.getLast?, cmp last (refreshed env stackProto row) ≤ 0)
    (hplace : ¬RowCursor.InOrder cmp passed.getLast? (refreshed env stackProto row) ahead.head?)
    (hascends : Ascends cmp env (some (refreshed env stackProto row))
      (RowCursor.behind cmp (refreshed env stackProto row) ahead) protos) :
    passed.length + (stackProto :: protos).length <
      (synchronise cmp env (stackProto :: protos) ⟨passed, row :: ahead⟩).length := by
  have hpassed := htop.le_of_last hle
  obtain ⟨jumped, hrows, hjumped, hnil, hnext⟩ :=
    @RowCursor.setSorted_next_of_le _ cmp _ ⟨passed, row :: ahead⟩ _ hpassed
  have hall : ∀ other ∈ passed ++ jumped, cmp other (refreshed env stackProto row) ≤ 0 :=
    fun other hother => (List.mem_append.mp hother).elim (hpassed other) (hjumped other)
  have hpos : 0 < jumped.length := List.length_pos_iff.mpr fun hempty => hplace (hnil hempty)
  have hrest := @length_synchronise_of_ascends cmp env _ protos
    (passed ++ jumped ++ [refreshed env stackProto row])
    (RowCursor.behind cmp (refreshed env stackProto row) ahead)
    (by rw [List.getLast?_concat]; exact hascends) (lastIsTop_concat hall)
  rw [List.length_append, List.length_append, List.length_singleton] at hrest
  rw [synchronise_of_eq heq, hnext, List.length_cons]
  refine lt_of_lt_of_le ?_ hrest
  omega

end Order

theorem not_mem_rowNames_of_removed {protos : List Export.Protocol} {passed rest : List ProtocolRow}
    {row : ProtocolRow} (hproto : row.item.name.bytes ∉ protoNames protos)
    (hrows : row.item.name.bytes ∉ rowNames (passed ++ rest)) :
    row.item.name.bytes ∉ rowNames (synchronise cmp env protos ⟨passed, row :: rest⟩) := by
  intro hmem
  cases protos with
  | nil =>
      apply hrows
      rw [rowNames_append]
      exact List.mem_append_left _ hmem
  | cons stackProto protos =>
      have hne : row.item.name.bytes ≠ stackProto.name.bytes := fun heq =>
        hproto (heq ▸ List.mem_cons_self)
      rw [synchronise_of_ne hne] at hmem
      rcases mem_rowNames_of_synchronise hmem with hrow | hname
      · exact hrows hrow
      · exact hproto hname

/-- A row that goes back costs a passed row. -/
theorem exists_passed_not_mem {stackProto : Export.Protocol} {protos : List Export.Protocol}
    {row last : ProtocolRow} {passed ahead : List ProtocolRow}
    (heq : row.item.name.bytes = stackProto.name.bytes)
    (hlast : last ∈ passed.getLast?) (hgt : 0 < cmp last (refreshed env stackProto row))
    (hrows : (rowNames (passed ++ row :: ahead)).Nodup)
    (hprotos : (rowNames passed ++ protoNames (stackProto :: protos)).Nodup) :
    ∃ first ∈ passed, first.item.name.bytes ∉
      rowNames (synchronise cmp env (stackProto :: protos) ⟨passed, row :: ahead⟩) := by
  obtain ⟨before, first, rest, hnext, hfirst, hothers⟩ :=
    @RowCursor.setSorted_next_of_gt _ cmp ⟨passed, row :: ahead⟩ (refreshed env stackProto row) last hlast hgt
  have hname : first.item.name.bytes ∈ rowNames passed := List.mem_map_of_mem hfirst
  have hproto : first.item.name.bytes ∉ protoNames (stackProto :: protos) :=
    List.disjoint_of_nodup_append hprotos hname
  have hperm : (passed ++ row :: ahead).Perm (first :: row :: (before ++ rest)) := by
    apply List.perm_middle.trans
    rw [show passed ++ ahead = before ++ first :: rest from hothers.symm]
    exact (List.perm_middle.cons row).trans (List.Perm.swap _ _ _)
  have hnodup := List.nodup_cons.mp ((hperm.map fun row : ProtocolRow => row.item.name.bytes).nodup_iff.mp hrows)
  refine ⟨first, hfirst, ?_⟩
  rw [synchronise_of_eq heq, hnext]
  apply not_mem_rowNames_of_removed
  · exact fun hmem => hproto (List.mem_cons_of_mem _ hmem)
  · intro hmem
    apply hnodup.1
    have hmiddle : (before ++ [refreshed env stackProto row] ++ rest).Perm
        (refreshed env stackProto row :: (before ++ rest)) := by
      rw [List.append_assoc]
      exact List.perm_middle
    exact (hmiddle.map fun row => row.item.name.bytes).mem_iff.mp hmem

/-- When a row leaves its place and none goes back after one went over others, there is not one row for each
protocol. -/
theorem not_perm_of_not_keepsPlaces [ThreeWay cmp] {protos : List Export.Protocol}
    {passed ahead : List ProtocolRow} (hplaces : ¬KeepsPlaces cmp env passed.getLast? ahead protos)
    (hback : ¬TurnsBack cmp env passed.getLast? ahead protos) (htop : LastIsTop cmp passed)
    (hrows : (rowNames (passed ++ ahead)).Nodup) (hprotos : (rowNames passed ++ protoNames protos).Nodup) :
    ¬(rowNames (synchronise cmp env protos ⟨passed, ahead⟩)).Perm (rowNames passed ++ protoNames protos) := by
  induction ahead generalizing passed protos with
  | nil => exact absurd trivial hplaces
  | cons row ahead ih =>
      cases protos with
      | nil => exact absurd trivial hplaces
      | cons stackProto protos =>
          by_cases heq : row.item.name.bytes = stackProto.name.bytes
          · rw [keepsPlaces_of_eq heq] at hplaces
            by_cases hplace : RowCursor.InOrder cmp passed.getLast? (refreshed env stackProto row) ahead.head?
            · have hle := htop.le_of_last hplace.1
              rw [synchronise_of_eq heq, RowCursor.setSorted_of_inOrder cmp hplace, RowCursor.set_next,
                ← rowNames_concat_refreshed heq]
              apply ih
              · rw [List.getLast?_concat]
                exact fun hkeep => hplaces ⟨hplace, hkeep⟩
              · rw [List.getLast?_concat]
                exact fun hturns => hback ((turnsBack_of_inOrder heq hplace).mpr hturns)
              · exact lastIsTop_concat hle
              · rw [List.append_assoc]
                rw [rowNames_append] at hrows ⊢
                exact hrows
              · rw [rowNames_concat_refreshed heq]
                exact hprotos
            · rw [turnsBack_of_not_inOrder heq hplace, not_and, not_not] at hback
              by_cases hle : ∀ last ∈ passed.getLast?, cmp last (refreshed env stackProto row) ≤ 0
              · have hlonger := length_synchronise_of_over heq htop hle hplace (hback hle)
                intro hperm
                have hlength := hperm.length_eq
                rw [List.length_append, rowNames, rowNames, protoNames, List.length_map, List.length_map,
                  List.length_map] at hlength
                exact hlonger.ne hlength.symm
              · push Not at hle
                obtain ⟨last, hlast, hgt⟩ := hle
                obtain ⟨first, hfirst, hmissing⟩ := exists_passed_not_mem heq hlast hgt hrows hprotos
                intro hperm
                apply hmissing
                rw [hperm.mem_iff]
                exact List.mem_append_left _ (List.mem_map_of_mem hfirst)
          · rw [keepsPlaces_of_ne heq] at hplaces
            rw [turnsBack_of_ne heq] at hback
            rw [synchronise_of_ne heq]
            apply ih hplaces hback htop _ hprotos
            exact hrows.sublist ((List.sublist_append_right [row] ahead).append_left passed |>.map _)

end Rounds

/-! ### Sorted by names -/

/-- Where the rows are sorted by their names, a row that is refreshed keeps its place. -/
theorem keepsPlaces_byName {idcol : ProtoColumn} (h : ByName idcol) (order : SortType) (env : TableEnv)
    {prev : Option ProtocolRow} {rows : List ProtocolRow} (protos : List Export.Protocol)
    (hprev : ∀ before ∈ prev, ∀ row ∈ rows, sortedBy idcol order before row ≤ 0)
    (hrows : rows.Pairwise fun a b => sortedBy idcol order a b ≤ 0) :
    KeepsPlaces (sortedBy idcol order) env prev rows protos := by
  induction rows generalizing prev protos with
  | nil => exact trivial
  | cons row rows ih =>
      cases protos with
      | nil => exact trivial
      | cons stackProto protos =>
          obtain ⟨hrow, hrest⟩ := List.pairwise_cons.mp hrows
          by_cases heq : row.item.name.bytes = stackProto.name.bytes
          · have hsame : ∀ other, sortedBy idcol order (refreshed env stackProto row) other =
                sortedBy idcol order row other := fun other => sortedBy_congr h order rfl rfl
            refine (keepsPlaces_of_eq heq).mpr ⟨⟨fun before hbefore => ?_, fun other hother => ?_⟩, ?_⟩
            · rw [@sortedBy_congr idcol h order before before (refreshed env stackProto row) row rfl rfl]
              exact hprev before hbefore row List.mem_cons_self
            · rw [hsame]
              exact hrow other (List.mem_of_head? hother)
            · apply ih _ _ hrest
              intro before hbefore other hother
              rw [← Option.mem_some_iff.mp hbefore, hsame]
              exact hrow other hother
          · rw [keepsPlaces_of_ne heq]
            apply ih _ _ hrest
            exact fun before hbefore other hother =>
              hprev before hbefore other (List.mem_cons_of_mem _ hother)

/-! ### An update of the table -/

/-- For every stack and every column an update leaves one row for each displayed protocol when every row
that it refreshes keeps its place. It does not when a row leaves its place, unless one goes over others and a
later one goes back. Where the rows are sorted by their names, in either order, they keep their places. -/
theorem updateProtocolsTable_oneRowEach (env : TableEnv) (idcol : ProtoColumn) (order : SortType)
    (pstk : Option (Level → List Export.Protocol)) (stackLevel : Level) (rows : List ProtocolRow) :
    (KeepsPlaces (sortedBy idcol order) env none rows (displayed pstk stackLevel) →
      OneRowEach (updateProtocolsTable env idcol order pstk stackLevel rows) (displayed pstk stackLevel)) ∧
    ((rowNames rows).Nodup → (protoNames (displayed pstk stackLevel)).Nodup →
      ¬TurnsBack (sortedBy idcol order) env none rows (displayed pstk stackLevel) →
      OneRowEach (updateProtocolsTable env idcol order pstk stackLevel rows) (displayed pstk stackLevel) →
      KeepsPlaces (sortedBy idcol order) env none rows (displayed pstk stackLevel)) ∧
    (ByName idcol → rows.Pairwise (fun a b => sortedBy idcol order a b ≤ 0) →
      KeepsPlaces (sortedBy idcol order) env none rows (displayed pstk stackLevel)) := by
  refine ⟨fun hplaces => ?_, fun hrows hprotos hback hone => ?_, fun hname hsorted => ?_⟩
  · exact @synchronise_keepsPlaces (sortedBy idcol order) env _ [] rows hplaces
  · by_contra hplaces
    refine @not_perm_of_not_keepsPlaces (sortedBy idcol order) env _ _ [] rows hplaces hback ?_ hrows
      hprotos hone
    exact fun last hlast => absurd hlast (Option.not_mem_none last)
  · exact keepsPlaces_byName hname order env _
      (fun before hbefore => absurd hbefore (Option.not_mem_none before)) hsorted

/-! ### An overtaken row -/

def statsOf (accumulated : Int) : BasicStats := { BasicStats.reset ⟨0, 0⟩ with accumulated := accumulated }

def rowOf (name : CString) (accumulated : Int) : ProtocolRow :=
  ⟨⟨name, ⟨0, 0, 0⟩, statsOf accumulated⟩, fun _ => none⟩

def protocolOf (name : CString) (accumulated : Int) : Export.Protocol := ⟨name, statsOf accumulated, []⟩

def arpName : CString := ⟨lit "ARP", by decide +kernel⟩

def tcpName : CString := ⟨lit "TCP", by decide +kernel⟩

/-- An environment in which nothing else is known. -/
def plainEnv : TableEnv := ⟨⟨⟨0, 0⟩, fun _ => none⟩, none, fun _ => ⟨0, 0, 0⟩, fun _ => statsOf 0⟩

theorem updateProtocolsTable_oneRowEach_two :
    OneRowEach
      (updateProtocolsTable plainEnv .accumulated .ascending
        (some fun _ => [protocolOf arpName 3, protocolOf tcpName 4]) 0 [rowOf arpName 1, rowOf tcpName 9])
      [protocolOf arpName 3, protocolOf tcpName 4] := by
  refine (updateProtocolsTable_oneRowEach plainEnv .accumulated .ascending
    (some fun _ => [protocolOf arpName 3, protocolOf tcpName 4]) 0 [rowOf arpName 1, rowOf tcpName 9]).1 ?_
  refine (keepsPlaces_of_eq rfl).mpr ⟨⟨?_, ?_⟩, (keepsPlaces_of_eq rfl).mpr ⟨⟨?_, ?_⟩, trivial⟩⟩ <;>
    decide +kernel

/-- ARP goes over TCP, behind which the iterator is at the end, so that TCP gets a second row. -/
theorem not_all_updateProtocolsTable_oneRowEach :
    ¬∀ (env : TableEnv) (idcol : ProtoColumn) (order : SortType)
      (pstk : Option (Level → List Export.Protocol)) (stackLevel : Level) (rows : List ProtocolRow),
      (rowNames rows).Nodup → (protoNames (displayed pstk stackLevel)).Nodup →
      rows.Pairwise (fun a b => sortedBy idcol order a b ≤ 0) →
      OneRowEach (updateProtocolsTable env idcol order pstk stackLevel rows)
        (displayed pstk stackLevel) := by
  intro hall
  have hone := hall plainEnv .accumulated .ascending
    (some fun _ => [protocolOf arpName 3, protocolOf tcpName 4]) 0 [rowOf arpName 1, rowOf tcpName 2]
    (by decide +kernel) (by decide +kernel) (by decide +kernel)
  have hover := @length_synchronise_of_over (sortedBy .accumulated .ascending) plainEnv _
    (protocolOf arpName 3) [protocolOf tcpName 4] (rowOf arpName 1) [] [rowOf tcpName 2] rfl
    (fun last hlast => absurd hlast (Option.not_mem_none last))
    (fun last hlast => absurd hlast (Option.not_mem_none last)) (by decide +kernel)
    (by
      have hbehind : RowCursor.behind (sortedBy .accumulated .ascending)
          (refreshed plainEnv (protocolOf arpName 3) (rowOf arpName 1)) [rowOf tcpName 2] = [] := rfl
      rw [hbehind, Ascends]
      exact trivial)
  have hlength := hone.length_eq
  rw [rowNames, List.length_map] at hlength
  exact hover.ne hlength.symm

end EtherApe.InfoWindows
