import MicroSql.Catalog.Damaged
import MicroSql.Engine.Reachable

/-!
# After a failed load

`main` warns of a catalog that it could not load and carries on with the tables that it has.
CREATE TABLE then writes these tables, and the new one, over the file of the catalog.
-/

namespace MicroSql

open Lib

namespace Engine

/-- CREATE TABLE leaves the file of the catalog alone or writes the tables and the new one. -/
theorem create_catalogFile {pr : ParseResult} (hkind : pr.statement.kind = .createTable)
    (w : Engine) :
    (w.after pr).fs.files Catalog.path = w.fs.files Catalog.path ∨
      (w.after pr).fs.files Catalog.path =
        some (Catalog.text ⟨w.catalog.tables ++ [newTable pr]⟩) := by
  rw [after, execute, MicroSql.executeWith, orError_snd, hkind]
  dsimp only
  rw [bind_pure_snd]
  have hcases := execCreateTable_cases pr w
  generalize execCreateTable pr w = r at hcases
  have hput : ∀ bytes, (w.fs.put (newTable pr).filePath bytes).files Catalog.path =
      w.fs.files Catalog.path := fun bytes =>
    (FileSystem.files_put _ _ _ _).trans (if_neg (tablePath_ne_catalog _).symm)
  cases hcases with
  | notCreated => exact .inl rfl
  | notOpened => exact .inl (hput [])
  | duplicate => exact .inl (hput _)
  | created =>
    dsimp only [created, Catalog.save]
    split
    · exact .inr (by rw [FileSystem.files_put, if_pos rfl])
    · exact .inl (hput _)

end Engine

/-- Loading is safe, and no CREATE TABLE after a failed load writes any of its tables. -/
structure DamageIsSafe (fs : FileSystem) (c : Catalog) : Prop extends Catalog.LoadsSafely fs c where
  notOverwritten : ∀ e c', Catalog.load fs c = (.error (.error e), c') →
    ∀ w : Engine, w.catalog = c' → w.fs = fs →
      ∀ pr : ParseResult, pr.statement.kind = .createTable →
        (w.after pr).fs.files Catalog.path = fs.files Catalog.path ∨
          (w.after pr).fs.files Catalog.path =
            some (Catalog.text ⟨c.tables ++ [Engine.newTable pr]⟩)

/-- **Loading a damaged catalog is safe** exactly when the file is one of those that cannot be
opened, that are not damaged, or whose damage is a wrong number of words in the first table. -/
theorem damageIsSafe_iff (fs : FileSystem) (c : Catalog) :
    DamageIsSafe fs c ↔ Catalog.SafeFile fs c := by
  refine ⟨fun h => h.toLoadsSafely.safeFile, fun h => ⟨h.loadsSafely, ?_⟩⟩
  rintro e _ hload w hw rfl pr hkind
  have hsame := h.loadsSafely.unchanged e (congrArg Prod.fst hload)
  rw [congrArg Prod.snd hload, ← hw] at hsame
  have hfile := w.create_catalogFile hkind
  rwa [hsame] at hfile

/-- A catalog with a table, and the beginning of another one that has lost its name. -/
def damagedFile : FileSystem where
  files path := if path = Catalog.path then some (str "TABLE t\nFILE t.ms\nEND\nTABLE\n") else none
  mayRead := fun _ => true
  mayWrite := fun _ => true
  limit := maxFileSize
  limit_le := le_refl _

/-- The table before the damage is in the catalog, though loading it has failed. -/
theorem damagedFile_not_safe : ¬DamageIsSafe damagedFile {} := by
  intro h
  have hload : Catalog.load damagedFile {} = (.error (.error .unvalidTableLineFormat),
      ⟨[{ tableName := str "t", filePath := str "t.ms" }]⟩) := by decide
  have hsame := h.unchanged .unvalidTableLineFormat
  rw [hload] at hsame
  cases hsame rfl

end MicroSql
