import MicroSql.Engine.Step

/-!
# Reachable engines

A run starts without tables, in any file system, and executes statements, which may fail.
Between two statements the process may end and another one take over, if it loads the
catalog as it was.  In every engine that a run reaches the table files consist of
well-formed pages; if the statements encode only rows of at most 65535 bytes, each live
slot holds the encoding of a row, and no two rows have the same primary key.
-/

namespace MicroSql

open Lib

/-- The engine that a statement leaves. -/
def Engine.after (w : Engine) (pr : ParseResult) : Engine := (execute pr w).2

section After

variable {w : Engine} {pr : ParseResult}

theorem Engine.after_insert (hkind : pr.statement.kind = .insert) :
    w.after pr = (execInsert pr w).2 := by
  rw [after, execute, executeWith, hkind, orError_snd]
  exact bind_pure_snd (execInsert pr) (fun _ => _) w

theorem Engine.after_update (hkind : pr.statement.kind = .update) :
    w.after pr = (execUpdate pr w).2 := by
  rw [after, execute, executeWith, hkind, orError_snd]
  exact bind_pure_snd (execUpdate pr) _ w

theorem Engine.after_delete (hkind : pr.statement.kind = .delete) :
    w.after pr = (execDelete pr w).2 := by
  rw [after, execute, executeWith, hkind, orError_snd]
  exact bind_pure_snd (execDelete pr) _ w

end After

/-- The engines that are reached by statements for which `C` holds in the engine before
them. -/
inductive Reachable (C : ParseResult → Engine → Prop) : Engine → Prop
  | start (fs : FileSystem) : Reachable C { fs := fs }
  | execute {w : Engine} (h : Reachable C w) (pr : ParseResult) (hC : C pr w) :
      Reachable C (w.after pr)
  | reopen {w : Engine} (h : Reachable C w)
      (hload : Catalog.load w.fs {} = (.ok (), w.catalog)) :
      Reachable C { catalog := w.catalog, fs := w.fs }

/-- No condition on the statements of a run. -/
abbrev anyStatement (_ : ParseResult) (_ : Engine) : Prop := True

namespace Reachable

variable {C C' : ParseResult → Engine → Prop} {w : Engine}

theorem mono (hC : ∀ pr w, C pr w → C' pr w) (h : Reachable C w) : Reachable C' w := by
  induction h with
  | start fs => exact .start fs
  | execute h pr hpr ih => exact .execute ih pr (hC _ _ hpr)
  | reopen h hload ih => exact .reopen ih hload

/-- An invariant of runs: `T` holds of new tables, and every statement for which `C` holds
keeps it for the pages of its own table. -/
theorem inv {T : TableSchema → List (Block pageSize) → Prop}
    (hfresh : ∀ t, T t [(Page.init 0).data])
    {serialize : Row → Schema → Expected RowError (List UInt8)}
    (hexec : ∀ pr w, C pr w → MicroSql.execute pr w = executeWith serialize pr w)
    (hstep : ∀ pr w t bs, C pr w → w.Stores pr.statement.tableName t bs → TablePages bs →
      T t bs → T t (pagesAfter w.fs.limit serialize pr t.columns bs))
    (h : Reachable C w) : Engine.Inv T w := by
  induction h with
  | start fs => exact Engine.Inv.start T fs
  | @execute w _ pr hpr ih =>
    rw [Engine.after, hexec pr w hpr]
    exact ih.executeWith hfresh serialize pr fun t bs hs hp hT => hstep pr w t bs hpr hs hp hT
  | reopen _ _ ih => exact ih.reopen

end Reachable

/-! ### Well-formed pages -/

/-- The tables of every reachable engine consist of well-formed pages. -/
theorem Reachable.wf {C : ParseResult → Engine → Prop} {w : Engine} (h : Reachable C w) :
    Engine.Inv (fun _ _ => True) w :=
  h.inv (fun _ => trivial) (fun _ _ _ => rfl) fun _ _ _ _ _ _ _ _ => trivial

/-! ### Good rows -/

/-- Every live slot of the table holds the encoding of a row, and the primary keys are
distinct. -/
structure GoodTable (t : TableSchema) (bs : List (Block pageSize)) : Prop where
  pages : GoodPages t.columns bs
  keys : KeysDistinct t.columns (liveRows t.columns bs)

/-- Primary keys are pairwise different, unless they are doubles. -/
theorem GoodTable.keys_nodup {t : TableSchema} {bs : List (Block pageSize)} (h : GoodTable t bs)
    {pk : ℕ} {c : ColumnDefinition} (hpk : primaryKeyIndex t.columns = some pk)
    (hc : t.columns[pk]? = some c) (htype : c.type ≠ .float) :
    ((liveRows t.columns bs).map (·[pk]?)).Nodup := by
  refine h.keys.nodup hpk fun row hrow => ?_
  obtain ⟨bytes, hencodes⟩ := h.pages.encodes hrow
  have hvalue : row[pk]? = some (row.get ⟨pk, hencodes.length_eq ▸ primaryKeyIndex_lt hpk⟩) :=
    List.getElem?_eq_getElem _
  exact ⟨_, hvalue, hencodes.ne_float hvalue hc htype⟩

theorem goodPages_fresh (columns : Schema) : GoodPages columns [(Page.init 0).data] := by
  intro b hb
  cases List.mem_singleton.1 hb
  exact (Page.good_init columns 0).with_id 0

theorem liveRows_fresh (columns : Schema) : liveRows columns [(Page.init 0).data] = [] := by
  rw [liveRows_singleton, Page.rows_init]
  rfl

theorem goodTable_fresh (t : TableSchema) : GoodTable t [(Page.init 0).data] where
  pages := goodPages_fresh t.columns
  keys := by
    rw [liveRows_fresh]
    exact KeysDistinct.nil

/-- However a DELETE ends, it has passed some pages and left the others as they were. -/
theorem GoodTable.deleteRows_done {t : TableSchema} {bs : List (Block pageSize)}
    (h : GoodTable t bs) (hp : TablePages bs) (limit : ℕ) (pr : ParseResult) :
    ∃ k n, PagesDone t.columns (deleteAction pr t.columns) (KeysDistinct t.columns) bs k n
      (deleteRows (pageArray limit) pr t.columns bs).2 :=
  exists_pagesDone (deleteRows_rows hp h.pages h.keys)

/-- And so has an UPDATE whose encodings fit. -/
theorem GoodTable.updateRows_done {t : TableSchema} {bs : List (Block pageSize)}
    (h : GoodTable t bs) (hp : TablePages bs) (limit : ℕ)
    {serialize : Row → Schema → Expected RowError (List UInt8)} (hser : FitsSlots serialize)
    (pr : ParseResult) :
    ∃ k n, PagesDone t.columns (updateAction pr t.columns) (KeysDistinct t.columns) bs k n
      (updateRows (pageArray limit) serialize pr t.columns bs).2 :=
  exists_pagesDone (updateRows_rows hser hp h.pages h.keys)

/-- A statement whose encodings fit leaves a good table, also when it fails. -/
theorem GoodTable.after {t : TableSchema} {bs : List (Block pageSize)} (h : GoodTable t bs)
    (hp : TablePages bs) {limit : ℕ} (hlimit : limit ≤ maxFileSize)
    {serialize : Row → Schema → Expected RowError (List UInt8)} (hser : FitsSlots serialize)
    (pr : ParseResult) : GoodTable t (pagesAfter limit serialize pr t.columns bs) := by
  unfold pagesAfter
  cases pr.statement.kind with
  | insert =>
    dsimp only
    have hrule : Prog.Spec _ (insertRow (pageArray limit) serialize pr t.columns) _ _ :=
      insertRow_rows hser hp hlimit h.pages
    have hspec := hrule bs rfl
    rcases hr : insertRow (pageArray limit) serialize pr t.columns bs with ⟨e | u, cs⟩ <;>
      rw [hr] at hspec
    · obtain ⟨-, hgood, hrows⟩ := hspec
      refine ⟨hgood, ?_⟩
      rw [hrows]
      exact h.keys
    · obtain ⟨-, hgood, row, bytes, before, after, -, hbytes, hkey, hold, hnew⟩ := hspec
      refine ⟨hgood, ?_⟩
      rw [hnew]
      exact keysDistinct_insert hp h.pages (hser _ _ _ hbytes) hkey hold h.keys
  | delete =>
    obtain ⟨k, n, hdone⟩ := h.deleteRows_done hp limit pr
    exact ⟨hdone.good, hdone.keeps⟩
  | update =>
    obtain ⟨k, n, hdone⟩ := h.updateRows_done hp limit hser pr
    exact ⟨hdone.good, hdone.keeps⟩
  | _ => exact h

/-- A property of rows that holds after a statement, also when it fails: it holds of the rows
before, of the row that INSERT builds, and of the rows that UPDATE builds of rows that have
it. -/
theorem GoodTable.forall_rows_after {t : TableSchema} {bs : List (Block pageSize)}
    (h : GoodTable t bs) (hp : TablePages bs) {limit : ℕ} (hlimit : limit ≤ maxFileSize)
    {serialize : Row → Schema → Expected RowError (List UInt8)} (hser : FitsSlots serialize)
    {pr : ParseResult} {P : Row → Prop} (hold : ∀ row ∈ liveRows t.columns bs, P row)
    (hinsert : pr.statement.kind = .insert → ∀ row,
      rowFromInsertValues pr t.columns = .ok row → P row)
    (hupdate : pr.statement.kind = .update → ∀ row ∈ liveRows t.columns bs,
      whereMatches pr row t.columnNames = .ok true → ∀ updated,
      rowFromUpdate row pr.statement.assignments pr t.columnNames = .ok updated → P updated) :
    ∀ row ∈ liveRows t.columns (pagesAfter limit serialize pr t.columns bs), P row := by
  unfold pagesAfter
  cases hkind : pr.statement.kind with
  | insert =>
    dsimp only
    have hrule : Prog.Spec _ (insertRow (pageArray limit) serialize pr t.columns) _ _ :=
      insertRow_rows hser hp hlimit h.pages
    have hspec := hrule bs rfl
    rcases hr : insertRow (pageArray limit) serialize pr t.columns bs with ⟨e | u, cs⟩ <;>
      rw [hr] at hspec
    · obtain ⟨-, -, hrows⟩ := hspec
      rw [hrows]
      exact hold
    · obtain ⟨-, -, row, bytes, before, after, hrow, -, -, hbefore, hafter⟩ := hspec
      rw [hbefore] at hold
      rw [hafter]
      intro r hr
      rcases List.mem_append.1 hr with hr | hr
      · exact hold r (List.mem_append_left _ hr)
      · rcases List.mem_cons.1 hr with rfl | hr
        · exact hinsert hkind _ hrow
        · exact hold r (List.mem_append_right _ hr)
  | delete =>
    obtain ⟨k, n, hdone⟩ := h.deleteRows_done hp limit pr
    intro row hrow
    -- a row is as before, or what DELETE has made of one: none at all, or the same
    rcases hdone.cases_of_mem hrow with hrow | ⟨r, hr, c, hact⟩
    · exact hold row hrow
    · obtain ⟨m, -, hact⟩ := bind_eq_ok.1 hact
      cases m <;> cases hact
      exact hold _ hr
  | update =>
    obtain ⟨k, n, hdone⟩ := h.updateRows_done hp limit hser pr
    intro row hrow
    rcases hdone.cases_of_mem hrow with hrow | ⟨r, hr, c, hact⟩
    · exact hold row hrow
    · obtain ⟨row', heq, hto, -⟩ := updateAction_eq_ok hact
      cases heq
      rcases hto with ⟨-, rfl⟩ | ⟨hmatch, hrow⟩
      · exact hold _ hr
      · exact hupdate hkind r hr hmatch _ hrow
  | _ => exact hold

/-- The tables of an engine that is reached by encoding only rows of at most 65535 bytes. -/
theorem Reachable.good {w : Engine} (h : Reachable EncodesWithin w) : Engine.Inv GoodTable w :=
  h.inv goodTable_fresh (fun _ _ hC => hC.eq) fun pr w _ _ _ _ hp hT =>
    hT.after hp w.fs.limit_le fitsSlots_serializeWithin pr

end MicroSql
