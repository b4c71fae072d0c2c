import MicroSql.Catalog.Decimal
import MicroSql.Relational.Compose

/-!
# The answers keep account of the rows

Every answer says how many rows a command has added or removed.  `Tally` adds this up over a run
for one table, as a user can who sees the answers only; a DELETE that fails says nothing, and ends
the count.  The sum is the number of rows that the table has.
-/

namespace MicroSql

open Lib Engine Catalog

/-! ### Messages -/

/-- The number in front of a message. -/
theorem takeWhile_countRows (n : ℕ) (rest : Str) :
    (countRows n ++ rest).takeWhile isDigit = numeral n := by
  have hword : ∃ word, countRows n = numeral n ++ 32 :: word := by
    rw [countRows, show toString (n : ℤ) = n.repr from rfl, str_repr]
    by_cases h : (n : ℤ) = 1
    · exact ⟨_, by rw [if_pos h]; rfl⟩
    · exact ⟨_, by rw [if_neg h]; rfl⟩
  obtain ⟨word, hword⟩ := hword
  rw [hword, List.append_assoc, List.takeWhile_append_of_pos fun b hb => isDigit_of_mem_numeral hb]
  exact List.append_nil _

/-- As many rows as an `int` can count. -/
theorem rowCount_of_lt {rows : List Row} (h : rows.length < 2 ^ 31) :
    rowCount rows = rows.length := by
  unfold rowCount
  have hlt : (rows.length : ℤ) < 2 ^ 31 := mod_cast h
  exact Int.bmod_eq_of_le (by omega) (by omega)

/-- The message tells the number. -/
theorem countRows_injective {m n : ℕ} {rest rest' : Str}
    (h : countRows m ++ rest = countRows n ++ rest') : m = n := by
  have hnumeral := congrArg (List.takeWhile isDigit) h
  rw [takeWhile_countRows, takeWhile_countRows] at hnumeral
  have hdigits := congrArg (digits 0) hnumeral
  rwa [digits_numeral, digits_numeral] at hdigits

/-! ### The tally of a run -/

/-- The answer of an INSERT that has added a row. -/
def insertedAnswer : Except Fault Result := .ok { message := str "1 row inserted" }

/-- The answer of a DELETE that has deleted `n` rows. -/
def deletedAnswer (n : ℕ) : Except Fault Result :=
  .ok { message := countRows n ++ str " deleted" }

/-- The answer of a CREATE TABLE that has made a table. -/
def createdAnswer : Except Fault Result := .ok { message := str "Table created" }

/-- The answer of a CREATE TABLE whose name is taken. -/
def emptiedAnswer : Except Fault Result := .ok (makeError .duplicateTable)

/-- The answer of a DROP TABLE that has removed a table. -/
def droppedAnswer : Except Fault Result := .ok { message := str "Table dropped" }

/-- The answers that say that a command has changed no number. -/
def Command.quiet : Command → Except Fault Result → Prop
  | select .., _ | update .., _ | unsupported .., _ => True
  | insert .., out => out ≠ insertedAnswer
  | delete .., _ => False
  | createTable .., out => out ≠ createdAnswer ∧ out ≠ emptiedAnswer
  | dropTable .., out => out ≠ droppedAnswer

/-- The number of rows of table `name` after a run, by what is answered; `none` is no table.  The
answers do not tell it once a DELETE of the table has failed, until the table is made, emptied or
removed. -/
inductive Tally (name : Str) : List (Command × Except Fault Result) → Option ℕ → Prop
  | start : Tally name [] none
  | created (l : List (Command × Except Fault Result)) (columns : Schema) :
      Tally name (l ++ [(.createTable name columns, createdAnswer)]) (some 0)
  | emptied (l : List (Command × Except Fault Result)) (columns : Schema) :
      Tally name (l ++ [(.createTable name columns, emptiedAnswer)]) (some 0)
  | dropped (l : List (Command × Except Fault Result)) :
      Tally name (l ++ [(.dropTable name, droppedAnswer)]) none
  | inserted {l : List (Command × Except Fault Result)} {n : ℕ} {names : List Str}
      {values : List Tree} (h : Tally name l (some n)) :
      Tally name (l ++ [(.insert name names values, insertedAnswer)]) (some (n + 1))
  | deleted {l : List (Command × Except Fault Result)} {m n : ℕ} {condition : Option Tree}
      (h : Tally name l (some (m + n))) :
      Tally name (l ++ [(.delete name condition, deletedAnswer m)]) (some n)
  /-- there are no rows to delete -/
  | absent {l : List (Command × Except Fault Result)} {condition : Option Tree}
      {out : Except Fault Result} (h : Tally name l none) :
      Tally name (l ++ [(.delete name condition, out)]) none
  | same {l : List (Command × Except Fault Result)} {n : Option ℕ} {command : Command}
      {out : Except Fault Result} (h : Tally name l n)
      (hquiet : command.table ≠ name ∨ command.quiet out) : Tally name (l ++ [(command, out)]) n

/-! ### One command -/

/-- The number of rows of a relation. -/
def Relation.size (r : Relation) : ℕ := r.rows.length

section Step

variable {db db' : Database} {command : Command} {out : Except Fault Result}

/-- A run of one command is a step. -/
theorem Database.step_of_run (h : Database.system.Run db [(command, out)] db') :
    Database.Step db command out db' := by
  cases h with
  | step hstep rest =>
    cases rest with
    | nil => exact hstep
    | silent hsilent => cases hsilent
  | silent hsilent => cases hsilent

theorem Database.Step.other (h : Database.Step db command out db') {name : Str}
    (hname : command.table ≠ name) : db' name = db name := by
  obtain ⟨hanswers⟩ := h
  exact Function.update_of_ne (Ne.symm hname) _ _

theorem Database.Step.exists_answers (h : Database.Step db command out db') :
    ∃ answer, out = resultOf answer ∧ Answers command (db command.table) answer
      (db' command.table) := by
  obtain ⟨hanswers⟩ := h
  exact ⟨_, rfl, by rwa [Function.update_self]⟩

end Step

/-- One for each element. -/
theorem sum_map_one {ρ : Type} (l : List ρ) : (l.map fun _ => 1).sum = l.length := by simp

/-- A sweep that takes nothing away leaves as many elements. -/
theorem sweeps_length_eq {ε ρ : Type} {visit : Visit ε ρ} {limits : Limits ε} {rows new : List ρ}
    {out : Except ε ℕ} (h : Sweeps visit limits rows out new)
    (hvisit : ∀ before x after c o, visit before x after = .ok (c, o) → o.isSome = true) :
    new.length = rows.length := by
  obtain ⟨old, rest, n, done, rfl, rfl, hswept⟩ := h.exists_swept
  have hmeasure := hswept.measure (f := fun _ => 1) (d := 0) fun before x after c o hx => by
    obtain ⟨y, rfl⟩ := Option.isSome_iff_exists.1 (hvisit before x after c o hx)
    simp
  rw [sum_map_one, sum_map_one] at hmeasure
  rw [List.length_append, List.length_append]
  omega

/-- What an UPDATE leaves of a row: the row, or one that passes the checks. -/
theorem updateVisit_cases {assignments : List (Str × Tree)} {condition : Option Tree}
    {columns : Schema} {before after : List Row} {row : Row} {c : Bool} {o : Option Row}
    (h : updateVisit assignments condition columns before row after = .ok (c, o)) :
    o = some row ∨ ∃ updated, o = some updated ∧ checkRow updated columns = .ok () := by
  obtain ⟨m, -, h⟩ := bind_eq_ok.1 h
  cases m with
  | false =>
    cases h
    exact .inl rfl
  | true =>
    simp only [Bool.not_true, Bool.false_eq_true, if_false] at h
    obtain ⟨updated, -, h⟩ := bind_eq_ok.1 h
    split at h
    · cases h
    · rcases hrow : checkRow updated columns with e | u <;> rw [hrow] at h <;> cases h
      exact .inr ⟨updated, rfl, hrow⟩

/-- A DELETE that visits all rows takes away as many as it counts. -/
theorem deleteSweeps_length {condition : Option Tree} {columns : Schema} {rows new : List Row}
    {n : ℕ} (h : Sweeps (deleteVisit condition columns) sweepLimits rows (.ok n) new) :
    new.length + n = rows.length := by
  cases h with
  | done hswept =>
    have hmeasure := hswept.measure (f := fun _ => 1) (d := 1) fun before row after c o hvisit => by
      obtain ⟨m, -, hvisit⟩ := bind_eq_ok.1 hvisit
      cases m <;> cases hvisit <;> rfl
    rw [sum_map_one, sum_map_one] at hmeasure
    omega

section Answers

variable {r r' : Option Relation} {answer : Except (Failure ExecError) Result}

/-- What is returned of an error is no success. -/
theorem resultOf_error_ne {e : Failure ExecError} {message : Str} :
    resultOf (.error e) ≠ .ok { message := message } := by
  cases e <;> rintro ⟨⟩

theorem Answers.created_size {name : Str} {columns : Schema}
    (h : Answers (.createTable name columns) r answer r')
    (hout : resultOf answer = createdAnswer ∨ resultOf answer = emptiedAnswer) :
    r'.map Relation.size = some 0 := by
  cases h with
  | missing hneeds => cases hneeds
  | created | duplicate => rfl
  | refused => rcases hout with hout | hout <;> cases hout

theorem Answers.inserted_size {name : Str} {names : List Str} {values : List Tree}
    (h : Answers (.insert name names values) r answer r')
    (hout : resultOf answer = insertedAnswer) :
    ∀ n, r.map Relation.size = some n → r'.map Relation.size = some (n + 1) := by
  intro n hn
  cases h with
  | @inserted _ _ _ r row before after _ hrows =>
    simp only [Option.map_some, Option.some.injEq, Relation.size, Relation.withRows, hrows,
      List.length_append, List.length_cons] at hn ⊢
    omega
  | missing | rejected | full => exact absurd hout resultOf_error_ne

/-- An INSERT that changes the number of rows says so. -/
theorem Answers.inserted_of_size {name : Str} {names : List Str} {values : List Tree}
    (h : Answers (.insert name names values) r answer r')
    (hsize : r'.map Relation.size ≠ r.map Relation.size) : resultOf answer = insertedAnswer := by
  cases h with
  | inserted => rfl
  | missing | rejected | full => exact absurd rfl hsize

theorem Answers.deleted_size {name : Str} {condition : Option Tree} {m : ℕ}
    (h : Answers (.delete name condition) r answer r') (hout : resultOf answer = deletedAnswer m) :
    ∀ n, r.map Relation.size = some (m + n) → r'.map Relation.size = some n := by
  intro n hn
  cases h with
  | missing => exact absurd hout resultOf_error_ne
  | @delete _ _ r out rows hsweeps =>
    rcases out with e | k
    · exact absurd hout resultOf_error_ne
    · -- the message tells how many rows have been counted
      have hmessage := congrArg Result.message (Except.ok.inj hout)
      obtain rfl : k = m := countRows_injective hmessage
      have hlength := deleteSweeps_length hsweeps
      simp only [Option.map_some, Option.some.injEq, Relation.size, Relation.withRows] at hn ⊢
      omega

theorem Answers.absent_size {name : Str} {condition : Option Tree}
    (h : Answers (.delete name condition) r answer r') (hnone : r.map Relation.size = none) :
    r'.map Relation.size = none := by
  cases h with
  | missing => rfl
  | delete => cases hnone

theorem Answers.dropped_size {name : Str} (h : Answers (.dropTable name) r answer r')
    (hout : resultOf answer = droppedAnswer) : r'.map Relation.size = none := by
  cases h with
  | missing => exact absurd hout resultOf_error_ne
  | dropped => rfl

theorem Answers.quiet_size {command : Command} (h : Answers command r answer r')
    (hquiet : command.quiet (resultOf answer)) : r'.map Relation.size = r.map Relation.size := by
  cases h with
  | inserted => exact absurd rfl hquiet
  | delete => cases hquiet
  | created => exact absurd rfl hquiet.1
  | duplicate => exact absurd rfl hquiet.2
  | dropped => exact absurd rfl hquiet
  | update hsweeps =>
    refine congrArg some (sweeps_length_eq hsweeps fun _ _ _ _ _ hvisit => ?_)
    rcases updateVisit_cases hvisit with rfl | ⟨_, rfl, -⟩ <;> rfl
  | missing | select | rejected | full | refused | unsupported => rfl

end Answers

/-- **The tally is right**: over any run of the database that starts without relations. -/
theorem Tally.size_eq {name : Str} {l : List (Command × Except Fault Result)} {n : Option ℕ}
    (h : Tally name l n) {db : Database} (hrun : Database.system.Run Database.empty l db) :
    (db name).map Relation.size = n := by
  induction h generalizing db with
  | start =>
    cases hrun with
    | nil => rfl
    | silent hsilent => cases hsilent
  | created =>
    obtain ⟨mid, -, hlast⟩ := hrun.split
    obtain ⟨answer, hout, hanswers⟩ := (Database.step_of_run hlast).exists_answers
    exact hanswers.created_size (.inl hout.symm)
  | emptied =>
    obtain ⟨mid, -, hlast⟩ := hrun.split
    obtain ⟨answer, hout, hanswers⟩ := (Database.step_of_run hlast).exists_answers
    exact hanswers.created_size (.inr hout.symm)
  | inserted _ ih =>
    obtain ⟨mid, hbefore, hlast⟩ := hrun.split
    obtain ⟨answer, hout, hanswers⟩ := (Database.step_of_run hlast).exists_answers
    exact hanswers.inserted_size hout.symm _ (ih hbefore)
  | deleted _ ih =>
    obtain ⟨mid, hbefore, hlast⟩ := hrun.split
    obtain ⟨answer, hout, hanswers⟩ := (Database.step_of_run hlast).exists_answers
    exact hanswers.deleted_size hout.symm _ (ih hbefore)
  | dropped =>
    obtain ⟨mid, -, hlast⟩ := hrun.split
    obtain ⟨answer, hout, hanswers⟩ := (Database.step_of_run hlast).exists_answers
    exact hanswers.dropped_size hout.symm
  | absent _ ih =>
    obtain ⟨mid, hbefore, hlast⟩ := hrun.split
    obtain ⟨answer, -, hanswers⟩ := (Database.step_of_run hlast).exists_answers
    exact hanswers.absent_size (ih hbefore)
  | @same l n command out _ hquiet ih =>
    obtain ⟨mid, hbefore, hlast⟩ := hrun.split
    have hstep := Database.step_of_run hlast
    by_cases hname : command.table = name
    · obtain ⟨answer, rfl, hanswers⟩ := hstep.exists_answers
      rw [hname] at hanswers
      rw [← ih hbefore]
      exact hanswers.quiet_size (hquiet.resolve_left (not_not.2 hname))
    · rw [hstep.other hname]
      exact ih hbefore

/-- **The answers keep account of the rows.**  Take any run of the engine that starts without
tables, with restarts, whose statements stand for commands and encode only rows of at most 65535
bytes.  If the answers to the statements for a table tell how many rows it has, then it has as many:
`SELECT *` returns that number of rows, and says so if it is one of an `int`. -/
theorem answers_keep_account {fs : FileSystem} {w : Engine}
    {l : List (ParseResult × Except Fault Result)} (hrun : Engine.system.Run { fs := fs } l w)
    {cs : List (Command × Except Fault Result)} (hl : System.Relabelled Denotes l cs) {name : Str}
    {n : ℕ} (htally : Tally name cs (some n)) {pr : ParseResult}
    (hc : Denotes pr (.select name [] none)) :
    ∃ result, (execute pr w).1 = .ok result ∧ result.success = true ∧ result.rows.length = n ∧
      (n < 2 ^ 31 → result.message = countRows n) := by
  have hreach := run_reachable hrun
  have hsize := htally.size_eq (engine_refines_database hrun hl)
  obtain ⟨r, hr, hn⟩ := Option.map_eq_some_iff.1 hsize
  have hdecides : Decides none r.names r.rows := fun row _ => ⟨true, rfl⟩
  have hall : r.pickedRows none = r.rows := List.filter_eq_self.2 fun row _ => rfl
  have hselect : r.select [] none = _ := Relation.select_eq_ok.2 ⟨hdecides, rfl⟩
  have hfilter : r.rows.filter (picked none (resultNames [] r.names)) = r.rows := hall
  rw [hfilter] at hselect
  rw [hreach.select_answers hc hr, hselect]
  have hlength : r.rows.length = n := hn
  refine ⟨_, rfl, rfl, hlength, fun hlt => ?_⟩
  rw [← hlength] at hlt ⊢
  exact congrArg countRows (rowCount_of_lt hlt)

/-! ### A sample -/

theorem sampleInsert_answer {w : Engine} {a b : Int64} (h : Reachable EncodesWithin w)
    (hwithin : EncodesWithin (sampleInsert a b) w)
    (hsize : ((w.after (sampleInsert a b)).database (str "t")).map Relation.size ≠
      (w.database (str "t")).map Relation.size) :
    (execute (sampleInsert a b) w).1 = insertedAnswer := by
  have hstep := h.good.execute_answers (fun _ hfind => h.good.withinOn hwithin hfind)
    (sampleInsert_denotes a b)
  obtain ⟨answer, hout, hanswers⟩ := hstep.exists_answers
  rw [hout]
  exact hanswers.inserted_of_size hsize

theorem database_of_find {w : Engine} {t : TableSchema} {name : Str}
    (hfind : w.catalog.findTable name = some t) :
    w.database name = some ⟨t.columns, w.rows t⟩ := by
  rw [Engine.database, tableAt_some hfind]
  rfl

theorem database_size {w : Engine} {t : TableSchema} {name : Str}
    (hfind : w.catalog.findTable name = some t) :
    (w.database name).map Relation.size = some (w.rows t).length := by
  rw [database_of_find hfind]
  rfl

theorem sampleAnswers_eq : sampleAnswers = [createdAnswer, insertedAnswer, insertedAnswer] := by
  have hpath : sampleTable.filePath = tablePath sampleTable.tableName := by decide
  obtain ⟨f, hcreate⟩ := newEngine_eq hpath
  have hkind : (sampleInsert 1 10).statement.kind = .insert := rfl
  obtain ⟨hwithin, -⟩ := newEngine_insert hpath hkind rfl rfl sampleBytes_eq (by decide)
    (by decide)
  have hzero : (newEngine sampleTable).rows sampleTable = [] := by
    rw [Engine.rows, newEngine_pages hpath, liveRows_fresh]
  have hnew := database_size (newEngine_find hpath)
  have hone := database_size sampleOne_oneRow.find
  have htwo := database_size sampleTwo_find
  rw [hzero] at hnew
  rw [sampleOne_oneRow.rows_eq] at hone
  rw [sampleTwo_rows] at htwo
  have hfirst := sampleInsert_answer (newEngine_reachable hpath) hwithin
    (show (sampleOne.database (str "t")).map Relation.size ≠ _ by
      rw [show str "t" = sampleTable.tableName from rfl, hone, hnew]
      simp)
  have hsecond := sampleInsert_answer sampleOne_oneRow.reachable sampleTwo_inserted.1
    (show (sampleTwo.database (str "t")).map Relation.size ≠ _ by
      rw [htwo, show str "t" = sampleTable.tableName from rfl, hone]
      simp)
  have hcreated : (execute (createTable (str "t") sampleTable.columns)
      { fs := emptyDirectory }).1 = createdAnswer :=
    congrArg Prod.fst ((newEngine_within hpath).eq.trans hcreate)
  rw [sampleAnswers, hcreated, hfirst, hsecond]

theorem sample_tally : Tally (str "t") (sampleCommands.zip sampleAnswers) (some 2) := by
  rw [sampleAnswers_eq]
  exact .inserted (.inserted (.created [] _))

theorem answers_keep_account_sample :
    ∃ result, (execute (selectStar (str "t")) sampleTwo).1 = .ok result ∧
      result.success = true ∧ result.rows.length = 2 ∧
      (2 < 2 ^ 31 → result.message = countRows 2) := by
  obtain ⟨l, hrun, hl⟩ := sample_run
  exact answers_keep_account hrun hl sample_tally (.select rfl .nil (.none rfl))

end MicroSql
