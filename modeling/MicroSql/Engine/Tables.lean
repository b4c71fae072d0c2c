import MicroSql.Executor.Within
import MicroSql.Executor.Simulation
import MicroSql.Table.Delete
import MicroSql.Table.Insert
import MicroSql.Table.Update

/-!
# The tables of the engine

`Engine.Inv T` is the invariant of the engine: the catalog lists each table once, the file
of a table is a list of pages that begins with the reserved page and satisfies `T`, and the
open handles belong to tables.  `Inv.executeWith` says that every statement keeps it, given
what the statement does to the pages of its own table.
-/

namespace MicroSql

open Lib

/-- What a statement leaves of the pages of its table. -/
def pagesAfter (limit : ℕ) (serialize : Row → Schema → Expected RowError (List UInt8))
    (pr : ParseResult) (columns : Schema) (bs : List (Block pageSize)) :
    List (Block pageSize) :=
  match pr.statement.kind with
  | .insert => (insertRow (pageArray limit) serialize pr columns bs).2
  | .delete => (deleteRows (pageArray limit) pr columns bs).2
  | .update => (updateRows (pageArray limit) serialize pr columns bs).2
  | _ => bs

/-- Every statement leaves well-formed pages, whatever the encoder produces. -/
theorem TablePages.after {limit : ℕ} (hlimit : limit ≤ maxFileSize)
    (serialize : Row → Schema → Expected RowError (List UInt8)) (pr : ParseResult)
    (columns : Schema) {bs : List (Block pageSize)} (h : TablePages bs) :
    TablePages (pagesAfter limit serialize pr columns bs) := by
  have hrewrite : ∀ {body}, (∀ k s slot, (body k s slot).ReadOnly) → KeepsPages body →
      TablePages (rewritePages (pageArray limit) body bs).2 := by
    intro body hread hkeep
    have hrule : Prog.Spec _ (rewritePages (pageArray limit) body) _ _ :=
      rewritePages_passed hread hkeep h
    have hspec := hrule bs rfl
    rcases hr : rewritePages (pageArray limit) body bs with ⟨e | n, cs⟩ <;> rw [hr] at hspec
    · exact hspec.1
    · exact hspec.1
  unfold pagesAfter
  cases pr.statement.kind with
  | insert =>
    rcases insertRow_cases limit serialize pr columns bs with ⟨e, hrun⟩ |
      ⟨row, bytes, -, -, -, -, hrun⟩
    · dsimp only
      rw [hrun]
      exact h
    · dsimp only
      rw [hrun]
      exact (storeBytes_spec h hlimit bytes).tablePages h hlimit
  | delete => exact hrewrite (deleteSlot_readOnly pr columns) deleteSlot_keepsPages
  | update =>
    exact hrewrite (updateSlot_readOnly limit serialize pr columns) updateSlot_keepsPages
  | _ => exact h

namespace Engine

/-! ### The invariant -/

/-- A table of the catalog: where its file is, and what is in it. -/
structure Holds (T : TableSchema → List (Block pageSize) → Prop) (w : Engine) (name : Str)
    (t : TableSchema) : Prop where
  filePath_eq : t.filePath = tablePath name
  /-- the file system has room for the reserved page -/
  pageSize_le : pageSize ≤ w.fs.limit
  stored : ∃ bs, w.Stores name t bs ∧ TablePages bs ∧ T t bs

/-- The invariant of the engine; `T` is what the schema and the pages of each table satisfy. -/
structure Inv (T : TableSchema → List (Block pageSize) → Prop) (w : Engine) : Prop where
  names : (w.catalog.tables.map (·.tableName)).Nodup
  table : ∀ name t, w.catalog.findTable name = some t → Holds T w name t
  closed : ∀ name, w.catalog.findTable name = none → w.openFiles name = none

theorem tablePath_injective {name name' : Str} (h : tablePath name = tablePath name') :
    name = name' := List.append_cancel_right h

theorem tablePath_ne_catalog (name : Str) : tablePath name ≠ Catalog.path := by
  intro h
  -- the last letters differ
  have hlast := congrArg List.getLast? h
  rw [tablePath, List.getLast?_append_of_ne_nil _ (by decide)] at hlast
  revert hlast
  decide

variable {T : TableSchema → List (Block pageSize) → Prop} {w w' : Engine} {name : Str}
  {t : TableSchema} {bs : List (Block pageSize)}

/-- The pages of a table are determined by its file. -/
theorem Stores.unique {t' : TableSchema} {bs' : List (Block pageSize)} (h : w.Stores name t bs)
    (h' : w.Stores name t' bs') : t' = t ∧ bs' = bs := by
  have ht : t' = t := by
    have := h.find
    rw [h'.find] at this
    exact Option.some.inj this
  subst ht
  have hflat : Block.flat bs' = Block.flat bs := by
    have := h.file
    rw [h'.file] at this
    exact Option.some.inj this
  refine ⟨rfl, ?_⟩
  rw [← Block.cut_flat (n := pageSize) (by decide) bs', hflat, Block.cut_flat (by decide)]

/-- A table that a step does not touch. -/
theorem Stores.frame (h : w.Stores name t bs) (hfind : w'.catalog.findTable name = some t)
    (hfile : w'.fs.files t.filePath = w.fs.files t.filePath) (hr : w'.fs.mayRead = w.fs.mayRead)
    (hw : w'.fs.mayWrite = w.fs.mayWrite) (hopen : w'.openFiles name = w.openFiles name) :
    w'.Stores name t bs where
  find := hfind
  file := hfile.trans h.file
  mayRead := by rw [hr, h.mayRead]
  mayWrite := by rw [hw, h.mayWrite]
  handle := fun f hf => h.handle f (hopen ▸ hf)

theorem Holds.frame (h : Holds T w name t) (hfind : w'.catalog.findTable name = some t)
    (hfile : w'.fs.files t.filePath = w.fs.files t.filePath) (hr : w'.fs.mayRead = w.fs.mayRead)
    (hw : w'.fs.mayWrite = w.fs.mayWrite) (hl : w'.fs.limit = w.fs.limit)
    (hopen : w'.openFiles name = w.openFiles name) : Holds T w' name t := by
  obtain ⟨bs, hs, hp, hT⟩ := h.stored
  exact ⟨h.filePath_eq, hl ▸ h.pageSize_le, bs, hs.frame hfind hfile hr hw hopen, hp, hT⟩

namespace Inv

/-- An engine without tables. -/
theorem start (T : TableSchema → List (Block pageSize) → Prop) (fs : FileSystem) :
    Inv T { fs := fs } where
  names := List.nodup_nil
  table := fun _ _ h => by cases h
  closed := fun _ _ => rfl

/-- Forgetting all handles, as a new process does. -/
theorem reopen (h : Inv T w) : Inv T { catalog := w.catalog, fs := w.fs } where
  names := h.names
  table := by
    intro name t hfind
    have ht := h.table name t hfind
    obtain ⟨bs, hs, hp, hT⟩ := ht.stored
    refine ⟨ht.filePath_eq, ht.pageSize_le, bs, ?_, hp, hT⟩
    exact ⟨hs.find, hs.file, hs.mayRead, hs.mayWrite, fun _ hf => by cases hf⟩
  closed := fun _ _ => rfl

/-- A table is not stored under the name of another one. -/
theorem filePath_ne_tablePath (h : Inv T w) {n n' : Str} {t : TableSchema}
    (ht : w.catalog.findTable n = some t) (hne : n ≠ n') : t.filePath ≠ tablePath n' := by
  rw [(h.table n t ht).filePath_eq]
  exact fun heq => hne (tablePath_injective heq)

/-- The paths of two tables are different. -/
theorem filePath_ne (h : Inv T w) {n n' : Str} {t t' : TableSchema} (hne : n' ≠ n)
    (ht : w.catalog.findTable n = some t) (ht' : w.catalog.findTable n' = some t') :
    t'.filePath ≠ t.filePath := by
  rw [(h.table n t ht).filePath_eq]
  exact h.filePath_ne_tablePath ht' hne

/-- No table is stored in the file of the catalog. -/
theorem filePath_ne_catalog (h : Inv T w) {n : Str} {t : TableSchema}
    (ht : w.catalog.findTable n = some t) : t.filePath ≠ Catalog.path := by
  rw [(h.table n t ht).filePath_eq]
  exact tablePath_ne_catalog n

/-- A step that replaces the pages of one table. -/
theorem changes (h : Inv T w) {bs' : List (Block pageSize)} (hs : w.Stores name t bs)
    (hc : Changes w name t.filePath bs' w') (hp : TablePages bs') (hT : T t bs') : Inv T w' where
  names := by
    rw [hc.catalog_eq]
    exact h.names
  closed := by
    intro n hn
    rw [hc.catalog_eq] at hn
    have hne : n ≠ name := by
      rintro rfl
      rw [hs.find] at hn
      cases hn
    rw [hc.others n hne, h.closed n hn]
  table := by
    intro n t' hfind
    have hfind' := hfind
    rw [hc.catalog_eq] at hfind'
    have ht' := h.table n t' hfind'
    by_cases hn : n = name
    · subst hn
      obtain rfl : t' = t := Option.some.inj (hfind'.symm.trans hs.find)
      refine ⟨ht'.filePath_eq, by rw [hc.fs_eq]; exact ht'.pageSize_le, bs', ?_, hp, hT⟩
      refine ⟨hfind, ?_, by rw [hc.fs_eq]; exact hs.mayRead, by rw [hc.fs_eq]; exact hs.mayWrite,
        fun f hf => ?_⟩
      · rw [hc.fs_eq, FileSystem.files_put, if_pos rfl]
      · obtain ⟨f', hf', h1, h2, h3⟩ := hc.handle
        rw [hf'] at hf
        cases hf
        exact ⟨h1, h2, h3⟩
    · refine ht'.frame hfind ?_ (by rw [hc.fs_eq]; rfl) (by rw [hc.fs_eq]; rfl)
        (by rw [hc.fs_eq]; rfl) (hc.others n hn)
      rw [hc.fs_eq, FileSystem.files_put, if_neg (h.filePath_ne hn hs.find hfind')]

end Inv

end Engine

end MicroSql
