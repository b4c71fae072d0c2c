import MicroSql.Table.Keys

/-!
# DELETE on an array of pages

What DELETE does to one slot, and from it what it does to the rows of the table.
-/

namespace MicroSql

open Lib

/-- What DELETE leaves of a row, and whether it counts it. -/
def deleteAction (pr : ParseResult) (columns : Schema) : RowAction := fun row => do
  let shouldDelete ← whereMatches pr row (columns.map (·.name))
  return (shouldDelete, if shouldDelete then none else some row)

variable {limit : ℕ} {pr : ParseResult} {columns : Schema}

theorem deleteSlot_readOnly {σ : Type} (pr : ParseResult) (columns : Schema) (pageIndex : ℕ)
    (s : Page × ℕ) (slot : ℕ) :
    (deleteSlot pr columns pageIndex s slot : Prog σ _ _).ReadOnly := by
  refine Prog.ReadOnly.ite (Prog.ReadOnly.pure _) ?_
  refine Prog.ReadOnly.bind (Prog.ReadOnly.lift _) fun row => ?_
  refine Prog.ReadOnly.bind (Prog.ReadOnly.lift _) fun shouldDelete => ?_
  refine Prog.ReadOnly.ite (Prog.ReadOnly.pure _) ?_
  refine Prog.ReadOnly.bind (onPage_readOnly _ _) fun _ => ?_
  exact Prog.ReadOnly.bind (Prog.ReadOnly.lift _) fun _ => Prog.ReadOnly.pure _

/-- DELETE passes over a slot without a row. -/
theorem deleteSlot_of_deleted {σ : Type} {s : σ} {k count slot : ℕ} {p : Page}
    (hd : p.slotDeleted slot = true) :
    deleteSlot pr columns k (p, count) slot s = (.ok (p, count), s) := by
  rw [deleteSlot]
  dsimp only
  rw [if_pos hd]
  rfl

/-- What it takes for DELETE to get past a slot. -/
theorem deleteSlot_eq_ok {σ : Type} {s : σ} {k count slot : ℕ} {p p' : Page} {count' : ℕ}
    (h : (deleteSlot pr columns k (p, count) slot s).1 = .ok (p', count')) :
    (p.slotDeleted slot = true ∧ p' = p ∧ count' = count) ∨
      ∃ row, readSlotRow p slot columns = .ok row ∧
        (whereMatches pr row (columns.map (·.name)) = .ok false ∧ p' = p ∧ count' = count ∨
          whereMatches pr row (columns.map (·.name)) = .ok true ∧
            Page.deleteRow slot p = (.ok (), p') ∧ count + 1 < 2 ^ 31 ∧ count' = count + 1) := by
  have hrun := (deleteSlot_readOnly pr columns k (p, count) slot).eq s
  rw [h, deleteSlot] at hrun
  by_cases hd : p.slotDeleted slot = true
  · simp only [if_pos hd, Prog.pure_apply] at hrun
    cases hrun
    exact .inl ⟨hd, rfl, rfl⟩
  simp only [if_neg hd] at hrun
  obtain ⟨row, hrow, hrun⟩ := Prog.lift_bind_eq_ok.1 hrun
  obtain ⟨shouldDelete, hmatch, hrun⟩ := Prog.lift_bind_eq_ok.1 hrun
  refine .inr ⟨row, hrow, ?_⟩
  cases shouldDelete with
  | false =>
    cases hrun
    exact .inl ⟨hmatch, rfl, rfl⟩
  | true =>
    obtain ⟨⟨u, q⟩, hpage, hrun⟩ := (onPage_readOnly _ _).bind_eq_ok.1 hrun
    obtain ⟨next, hnext, hrun⟩ := Prog.lift_bind_eq_ok.1 hrun
    cases hrun
    rw [onPage_apply] at hpage
    obtain ⟨a, ha, hq⟩ := map_eq_ok.1 (mapError_eq_ok.1 (Prod.mk.inj hpage).1)
    cases hq
    exact .inr ⟨hmatch, Prod.ext ha rfl, increment_eq_ok.1 hnext⟩

theorem deleteSlot_keepsPages : KeepsPages (deleteSlot pr columns) := by
  intro bs k p count slot p' count' hp hid h
  rcases deleteSlot_eq_ok h with ⟨-, rfl, -⟩ | ⟨row, -, ⟨-, rfl, -⟩ | ⟨-, hpage, -⟩⟩
  · exact ⟨hp, hid⟩
  · exact ⟨hp, hid⟩
  · obtain ⟨hi, -, rfl⟩ := Page.deleteRow_eq_ok hp hpage
    exact ⟨Page.wf_removed hp hi, hid⟩

theorem deleteSlot_countsInInt : CountsInInt (deleteSlot pr columns) := by
  intro bs k p count slot p' count' h hcount
  rcases deleteSlot_eq_ok h with ⟨-, -, rfl⟩ | ⟨row, -, ⟨-, -, rfl⟩ | ⟨-, -, hlt, rfl⟩⟩
  · exact hcount
  · exact hcount
  · exact hlt

/-- DELETE acts on the row of a slot, and keeps the primary keys distinct. -/
theorem deleteSlot_actsOnRow :
    ActsOnRow (deleteSlot pr columns) columns (deleteAction pr columns)
      (KeysDistinct columns) := by
  intro bs k p count slot p' count' h hgood hk hkn hp hid hslot hK hbody
  rcases deleteSlot_eq_ok hbody with ⟨hd, rfl, rfl⟩ | ⟨row, hread, hcase⟩
  · exact ⟨hid, hp, hK, .inl ⟨hp.row_of_deleted hslot hd, rfl, rfl⟩⟩
  · obtain ⟨hd, hrow⟩ := hp.row_of_read hslot hread
    obtain ⟨hlen, hget⟩ := List.getElem?_eq_some_iff.1 hrow
    have hsame : (p.rows columns).set slot (some row) = p.rows columns := by
      rw [← hget, List.set_getElem_self]
    rcases hcase with ⟨hmatch, rfl, rfl⟩ | ⟨hmatch, hpage, -, rfl⟩
    · refine ⟨hid, hp, hK, .inr ⟨row, false, some row, hrow, ?_, hsame.symm, rfl⟩⟩
      rw [deleteAction, hmatch]
      rfl
    · obtain ⟨heq, hp', hrows⟩ := hp.deleteRow_eq hslot hd
      rw [heq] at hpage
      cases hpage
      refine ⟨hid, hp', ?_, .inr ⟨row, true, none, hrow, ?_, hrows, rfl⟩⟩
      · rw [rowsWith_set hslot hrows, Option.toList_none, List.append_nil]
        rw [rowsWith_split hslot hrow] at hK
        exact hK.others.1
      · rw [deleteAction, hmatch]
        rfl

/-- **DELETE on an array of pages** maps `deleteAction` over the rows and keeps the
primary keys distinct, on all pages or, when it fails, on those before the failure. -/
theorem deleteRows_rows {bs : List (Block pageSize)} (h : TablePages bs)
    (hgood : GoodPages columns bs) (hkeys : KeysDistinct columns (liveRows columns bs)) :
    Prog.Spec (fun cs => cs = bs) (deleteRows (pageArray limit) pr columns)
      (fun n cs => PagesDone columns (deleteAction pr columns) (KeysDistinct columns) bs bs.length
        n cs)
      (fun _ cs => ∃ k n, 1 ≤ k ∧ k < bs.length ∧
        PagesDone columns (deleteAction pr columns) (KeysDistinct columns) bs k n cs) :=
  rewritePages_rows (deleteSlot_readOnly pr columns) deleteSlot_keepsPages deleteSlot_actsOnRow h
    hgood hkeys

/-! ### How many rows are deleted -/

/-- What SELECT selects of rows that can all be read, from row to row. -/
theorem selectFrom_cons_ok {p : Row → Expected ExecError Bool} {row : Row} {m : Bool}
    (h : p row = .ok m) (rows : List Row) :
    selectFrom p ((row :: rows).map .ok) =
      (fun rest => if m then row :: rest else rest) <$> selectFrom p (rows.map .ok) := by
  rw [List.map_cons, selectFrom, ok_bind, h, ok_bind]
  rcases selectFrom p (rows.map .ok) with e | rest <;> rfl

theorem selectFrom_cons_error {p : Row → Expected ExecError Bool} {row : Row}
    {e : Failure ExecError} (h : p row = .error e) (rows : List Row) :
    selectFrom p ((row :: rows).map .ok) = .error e := by
  rw [List.map_cons, selectFrom, ok_bind, h, error_bind]

/-- One row more: it is counted if `p` holds. -/
def countStep (p : Row → Expected ExecError Bool) (count : ℕ) (row : Row) :
    Expected ExecError ℕ := do
  let isMatch ← p row
  if isMatch then increment count else return count

/-- The rows for which `p` holds, counted on from `count` in an `int`. -/
def countFrom (p : Row → Expected ExecError Bool) (count : ℕ) (rows : List Row) :
    Expected ExecError ℕ := rows.foldlM (countStep p) count

section Count

variable {p : Row → Expected ExecError Bool} {row : Row} {rows : List Row} {count : ℕ}

theorem countFrom_cons_error {e : Failure ExecError} (h : p row = .error e) :
    countFrom p count (row :: rows) = .error e := by
  rw [countFrom, List.foldlM_cons, countStep, h]
  rfl

theorem countFrom_cons_false (h : p row = .ok false) :
    countFrom p count (row :: rows) = countFrom p count rows := by
  rw [countFrom, List.foldlM_cons, countStep, h]
  rfl

theorem countFrom_cons_true (h : p row = .ok true) : countFrom p count (row :: rows) =
    increment count >>= fun count => countFrom p count rows := by
  rw [countFrom, List.foldlM_cons, countStep, h]
  rfl

theorem countFrom_append (rows' : List Row) : countFrom p count (rows ++ rows') =
    countFrom p count rows >>= fun count => countFrom p count rows' := List.foldlM_append

/-- Counting goes as selecting does, up to the end of the `int`. -/
theorem countFrom_of_selectFrom_ok {found : List Row} (hcount : count < 2 ^ 31)
    (h : selectFrom p (rows.map .ok) = .ok found) : countFrom p count rows =
      if count + found.length < 2 ^ 31 then .ok (count + found.length)
      else .error (.fault .signedOverflow) := by
  induction rows generalizing count found with
  | nil =>
    cases h
    exact (if_pos hcount).symm
  | cons row rows ih =>
    rcases hrow : p row with e | m
    · rw [selectFrom_cons_error hrow] at h
      cases h
    rw [selectFrom_cons_ok hrow] at h
    obtain ⟨rest, hrest, rfl⟩ := map_eq_ok.1 h
    cases m with
    | false =>
      rw [countFrom_cons_false hrow]
      exact ih hcount hrest
    | true =>
      have hlen : count + 1 + rest.length = count + (row :: rest).length := by
        rw [List.length_cons]
        omega
      rw [countFrom_cons_true hrow, if_pos rfl, ← hlen]
      by_cases hlt : count + 1 < 2 ^ 31
      · rw [increment_of_lt hlt, ok_bind, ih hlt hrest]
      · rw [increment_of_le (Nat.not_lt.1 hlt), error_bind, if_neg (by omega)]

/-- Where at most 2147483647 rows match, counting goes as selecting does. -/
theorem countFrom_eq
    (hcount : count + rows.countP (fun row => decide (p row = .ok true)) < 2 ^ 31) :
    countFrom p count rows =
      (fun found => count + found.length) <$> selectFrom p (rows.map .ok) := by
  induction rows generalizing count with
  | nil => rfl
  | cons row rows ih =>
    rw [List.countP_cons] at hcount
    rcases hrow : p row with e | m
    · rw [countFrom_cons_error hrow, selectFrom_cons_error hrow]
      rfl
    rw [selectFrom_cons_ok hrow]
    cases m with
    | false =>
      rw [countFrom_cons_false hrow, ih (by omega)]
      rcases selectFrom p (rows.map .ok) with e | rest <;> rfl
    | true =>
      rw [if_pos (by simp [hrow])] at hcount
      rw [countFrom_cons_true hrow, increment_of_lt (by omega), ok_bind, ih (by omega)]
      rcases selectFrom p (rows.map .ok) with e | rest
      · rfl
      · exact congrArg Except.ok (by simp only [if_true, List.length_cons]; omega)

theorem countFrom_of_selectFrom_error {e : Failure ExecError}
    (h : selectFrom p (rows.map .ok) = .error e) : countFrom p count rows = .error e ∨
      countFrom p count rows = .error (.fault .signedOverflow) := by
  induction rows generalizing count with
  | nil => cases h
  | cons row rows ih =>
    rcases hrow : p row with e' | m
    · rw [selectFrom_cons_error hrow] at h
      cases h
      exact .inl (countFrom_cons_error hrow)
    rw [selectFrom_cons_ok hrow] at h
    have hrest : selectFrom p (rows.map .ok) = .error e := by
      rcases hrest : selectFrom p (rows.map .ok) with e' | rest <;> rw [hrest] at h <;> cases h
      rfl
    cases m with
    | false =>
      rw [countFrom_cons_false hrow]
      exact ih hrest
    | true =>
      rw [countFrom_cons_true hrow]
      by_cases hlt : count + 1 < 2 ^ 31
      · rw [increment_of_lt hlt, ok_bind]
        exact ih hrest
      · rw [increment_of_le (Nat.not_lt.1 hlt)]
        exact .inr rfl

end Count

/-- The slot loop of DELETE from slot `i` on counts the rows for which the condition holds, in
their order: a slot that has been passed does not matter for those after it. -/
theorem foldlM_deleteSlot (bs : List (Block pageSize)) (k m : ℕ) {i count : ℕ} {p : Page}
    (hp : p.Good columns) (hi : i + m = p.numSlots) :
    ((List.range' i m).foldlM (deleteSlot pr columns k) (p, count) bs).1.map (·.2) =
      countFrom (whereMatches pr · (columns.map (·.name))) count
        ((p.rows columns).drop i).reduceOption := by
  induction m generalizing i count p with
  | zero =>
    rw [List.drop_of_length_le (by rw [Page.length_rows]; omega)]
    rfl
  | succ m ih =>
    have hlt : i < p.numSlots := by omega
    have hlen : i < (p.rows columns).length := by rw [Page.length_rows]; exact hlt
    rw [List.range'_succ, List.foldlM_cons, List.drop_eq_getElem_cons hlen]
    rcases hp.slot_cases hlt with ⟨hd, hrow⟩ | ⟨hd, -, row, -, -, hrow, hread⟩
    · -- a deleted slot is skipped by both
      have hstep : deleteSlot pr columns k (p, count) i bs = (.ok (p, count), bs) := by
        rw [deleteSlot]
        simp only [if_pos hd, Prog.pure_apply]
      have hrow' := (List.getElem?_eq_some_iff.1 hrow).2
      rw [Prog.bind_ok hstep, hrow', List.reduceOption_cons_of_none]
      exact ih hp (by omega)
    · have hd' : ¬p.slotDeleted i = true := by rw [hd]; exact Bool.false_ne_true
      have hrow' := (List.getElem?_eq_some_iff.1 hrow).2
      rw [hrow', List.reduceOption_cons_of_some]
      rcases hmatch : whereMatches pr row (columns.map (·.name)) with e | shouldDelete
      · have hstep : deleteSlot pr columns k (p, count) i bs = (.error e, bs) := by
          rw [deleteSlot]
          simp only [if_neg hd', hread, Prog.lift_ok_bind_apply, hmatch,
            Prog.lift_error_bind_apply]
        rw [Prog.bind_error hstep, countFrom_cons_error hmatch]
        rfl
      cases shouldDelete with
      | false =>
        have hstep : deleteSlot pr columns k (p, count) i bs = (.ok (p, count), bs) := by
          rw [deleteSlot]
          simp only [if_neg hd', hread, Prog.lift_ok_bind_apply, hmatch, Bool.not_false,
            if_true, Prog.pure_apply]
        rw [Prog.bind_ok hstep, ih hp (by omega), countFrom_cons_false hmatch]
      | true =>
        obtain ⟨hrun, hq, hrows⟩ := hp.deleteRow_eq hlt hd
        have hstep : deleteSlot pr columns k (p, count) i bs =
            ((fun n => (p.removed i, n)) <$> increment count, bs) := by
          rw [deleteSlot]
          simp only [if_neg hd', hread, Prog.lift_ok_bind_apply, hmatch, Bool.not_true,
            Bool.false_eq_true, if_false]
          have hpage : (onPage p (Page.deleteRow i) :
              Prog (List (Block pageSize)) _ _) bs = (.ok ((), p.removed i), bs) := by
            rw [onPage_apply, hrun]
            rfl
          rw [Prog.bind_ok hpage]
          rcases increment count with e | n <;> rfl
        -- the slots that are left are those of the page before
        have hnum : (p.removed i).numSlots = p.numSlots := by
          rw [← Page.length_rows columns, hrows, List.length_set, Page.length_rows]
        have hdrop : ((p.removed i).rows columns).drop (i + 1) =
            (p.rows columns).drop (i + 1) := by
          rw [hrows, List.drop_set_of_lt (Nat.lt_succ_self i)]
        rw [countFrom_cons_true hmatch]
        rcases hnext : increment count with e | n <;> rw [hnext] at hstep
        · rw [Prog.bind_error hstep]
          rfl
        · rw [Prog.bind_ok hstep, ih hq (by omega), hdrop]
          rfl

/-- The page loop of DELETE from page `i` on. -/
theorem foldlM_deletePage (m count : ℕ) {i : ℕ} {bs : List (Block pageSize)} (h : TablePages bs)
    (hi : 1 ≤ i) (hm : i + m = bs.length)
    (hgood : ∀ b ∈ bs.drop i, (blockPage b).Good columns) :
    ((List.range' i m).foldlM (rewritePage (pageArray limit) (deleteSlot pr columns))
        count bs).1 =
      countFrom (whereMatches pr · (columns.map (·.name))) count
        (liveRows columns (bs.drop i)) := by
  induction m generalizing i count bs with
  | zero =>
    rw [List.drop_of_length_le (by omega)]
    rfl
  | succ m ih =>
    have hlt : i < bs.length := by omega
    have hb : bs[i]? = some bs[i] := List.getElem?_eq_getElem hlt
    rw [List.drop_eq_getElem_cons hlt] at hgood ⊢
    have hpage : ({ data := bs[i], pageId := i } : Page).Good columns :=
      (hgood _ List.mem_cons_self).with_id i
    have hslots : ((slotLoop (deleteSlot pr columns) i ⟨bs[i], i⟩ count) bs).1.map (·.2) =
        countFrom (whereMatches pr · (columns.map (·.name))) count
          ((blockPage bs[i]).rows columns).reduceOption := by
      rw [slotLoop, List.range_eq_range']
      exact foldlM_deleteSlot bs i _ hpage (Nat.zero_add _)
    have hone : liveRows columns [bs[i]] = ((blockPage bs[i]).rows columns).reduceOption :=
      liveRows_singleton columns (blockPage bs[i])
    rw [List.range'_succ, List.foldlM_cons, ← List.singleton_append, liveRows_append, hone,
      countFrom_append, ← hslots]
    rcases hloop : ((slotLoop (deleteSlot pr columns) i ⟨bs[i], i⟩ count) bs).1 with
      e | ⟨p', count'⟩
    · rw [Prog.bind_error (rewritePage_of_error (deleteSlot_readOnly pr columns) h hb hloop)]
      rfl
    · obtain ⟨hwf, hrun⟩ := rewritePage_of_ok (deleteSlot_readOnly pr columns) h hb limit
        deleteSlot_keepsPages hloop
      -- the pages after this one have not been touched
      have hdrop : (bs.set i p'.data).drop (i + 1) = bs.drop (i + 1) :=
        List.drop_set_of_lt (Nat.lt_succ_self i)
      have hgood' : ∀ b ∈ (bs.set i p'.data).drop (i + 1), (blockPage b).Good columns := by
        rw [hdrop]
        exact fun b hb => hgood b (List.mem_cons_of_mem _ hb)
      have hrest := ih count' (h.set hi hwf) (by omega) (by rw [List.length_set]; omega) hgood'
      rw [Prog.bind_ok hrun, hrest, hdrop]
      rfl

/-- **DELETE counts the rows for which its condition holds**, page after page, and fails at the
first row on which the condition has no value, or where the count ends. -/
theorem deleteRows_count {bs : List (Block pageSize)} (h : TablePages bs)
    (hgood : GoodPages columns bs) :
    (deleteRows (pageArray limit) pr columns bs).1 =
      countFrom (whereMatches pr · (columns.map (·.name))) 0 (liveRows columns bs) := by
  have hpos := h.length_pos
  have hrun : deleteRows (pageArray limit) pr columns bs =
      (List.range' 1 (bs.length - 1)).foldlM
        (rewritePage (pageArray limit) (deleteSlot pr columns)) 0 bs :=
    Prog.bind_ok (getNumPages_apply limit bs) _
  have hcount : ((List.range' 1 (bs.length - 1)).foldlM
      (rewritePage (pageArray limit) (deleteSlot pr columns)) 0 bs).1 = _ :=
    foldlM_deletePage (bs.length - 1) 0 h (le_refl 1) (by omega) fun b hb =>
      hgood b (List.mem_of_mem_drop hb)
  -- page 0 has no rows
  have hzero : liveRows columns (bs.take 1) = [] := by
    rw [liveRows_take_succ h.reserved]
    show ((Page.init 0).rows columns).reduceOption = []
    rw [Page.rows_init]
    rfl
  have hsplit : liveRows columns bs = liveRows columns (bs.drop 1) := by
    conv_lhs => rw [← List.take_append_drop 1 bs]
    rw [liveRows_append, hzero, List.nil_append]
  rw [hrun, hcount, hsplit]

end MicroSql
