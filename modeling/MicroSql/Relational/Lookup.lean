import MicroSql.Engine.LegalUpdate
import MicroSql.Relational.Rows

/-!
# Looking up a key

INSERT compares the key of a new row with `==`, and so does a SELECT whose condition is `k = e`.
So the SELECT finds a row exactly if the INSERT of the key would be refused, what has been
inserted is found, and what has been deleted by its key can be inserted again.
-/

namespace MicroSql

open Lib Engine

/-- The condition `k = e`. -/
def keyEquals (k : Str) (e : Tree) : Tree := .binary .equal (.leaf (.columnRef [] k)) e

/-- The key column has position `pk`, and is the first of its name. -/
structure Relation.KeyNamed (r : Relation) (pk : ℕ) (k : Str) : Prop where
  primary : primaryKeyIndex r.columns = some pk
  first : r.names.idxOf? k = some pk

/-- The rows that have a key. -/
def Relation.rowsWith (r : Relation) (pk : ℕ) (v : Value) : List Row :=
  r.rows.filter (holdsKey pk v)

/-- What a SELECT of all columns answers with these rows. -/
def Relation.shows (r : Relation) (rows : List Row) : Except Fault Result :=
  .ok { columns := r.names, rows := rows, message := countRows (rowCount rows) }

/-- An INSERT is refused for its key. -/
def refusedAnswer : Except Fault Result := .ok (makeError .primaryKeyViolation)

/-! ### The condition -/

/-- What has a value without a row has it on every row. -/
theorem Tree.evalExpr_of_closed {e : Tree} {v : Value} (h : e.evalExpr [] [] = .ok v) (row : Row)
    (columns : List Str) : e.evalExpr row columns = .ok v := by
  induction e generalizing v with
  | leaf expr =>
    cases expr with
    | columnRef tablePrefix name =>
      rw [evalExpr, evalLeaf] at h
      split at h <;> cases h
    | _ => exact h
  | binary op left right ihl ihr =>
    obtain ⟨a, ha, h⟩ := bind_eq_ok.1 h
    obtain ⟨b, hb, h⟩ := bind_eq_ok.1 h
    rw [evalExpr, ihl ha, ok_bind, ihr hb]
    exact h
  | unary op operand ih =>
    obtain ⟨a, ha, h⟩ := bind_eq_ok.1 h
    rw [evalExpr, ih ha]
    exact h

section Condition

variable {r : Relation} {pk : ℕ} {k : Str} {e : Tree} {v : Value}

theorem Relation.KeyNamed.lt (h : r.KeyNamed pk k) : pk < r.columns.length :=
  primaryKeyIndex_lt h.primary

theorem Relation.KeyNamed.holds_keyEquals (h : r.KeyNamed pk k) (he : e.evalExpr [] [] = .ok v)
    {row : Row} (hrow : row.length = r.columns.length) :
    holds (some (keyEquals k e)) r.names row = .ok (holdsKey pk v row) := by
  have hlt : pk < row.length := hrow ▸ h.lt
  have hvalue : row[pk]? = some row[pk] := List.getElem?_eq_getElem hlt
  have hcolumn : (Tree.leaf (.columnRef [] k)).evalExpr row r.names = .ok row[pk] := by
    rw [Tree.evalExpr, evalLeaf, if_pos rfl, columnValue, h.first]
    dsimp only
    rw [hvalue]
  change (do
    let a ← (Tree.leaf (.columnRef [] k)).evalExpr row r.names
    let b ← e.evalExpr row r.names
    compareWhere .equal a b) = _
  rw [hcolumn, ok_bind, Tree.evalExpr_of_closed he, ok_bind, compareWhere, holdsKey, hvalue]

theorem Relation.KeyNamed.decides (h : r.KeyNamed pk k) (he : e.evalExpr [] [] = .ok v)
    (hwhole : r.Whole) : Decides (some (keyEquals k e)) r.names r.rows :=
  fun row hrow => ⟨_, h.holds_keyEquals he (hwhole row hrow)⟩

theorem Relation.KeyNamed.filter_picked (h : r.KeyNamed pk k) (he : e.evalExpr [] [] = .ok v)
    (hwhole : r.Whole) :
    r.rows.filter (picked (some (keyEquals k e)) r.names) = r.rowsWith pk v :=
  List.filter_congr fun row hrow => picked_of_holds (h.holds_keyEquals he (hwhole row hrow))

theorem Relation.KeyNamed.select (h : r.KeyNamed pk k) (he : e.evalExpr [] [] = .ok v)
    (hwhole : r.Whole) :
    resultOf (r.select [] (some (keyEquals k e))) = r.shows (r.rowsWith pk v) := by
  rw [Relation.select_eq_ok.2 ⟨h.decides he hwhole, rfl⟩]
  change r.shows (r.rows.filter (picked (some (keyEquals k e)) r.names)) = _
  rw [h.filter_picked he hwhole]

end Condition

/-! ### The commands -/

section Commands

variable {r : Relation} {pk : ℕ} {v : Value} {names : List Str} {values : List Tree} {row : Row}

theorem Relation.any_holdsKey : r.rows.any (holdsKey pk v) = true ↔ r.rowsWith pk v ≠ [] := by
  rw [Relation.rowsWith, ne_eq, List.filter_eq_nil_iff, List.any_eq_true]
  push Not
  rfl

/-- The row that an INSERT builds has a value for each column, and key `v`. -/
structure Builds (r : Relation) (pk : ℕ) (names : List Str) (values : List Tree) (row : Row)
    (v : Value) : Prop where
  row_eq : insertedRow names values r.columns = .ok row
  length_eq : row.length = r.columns.length
  key : row[pk]? = some v

theorem Builds.holdsKey (h : Builds r pk names values row v) (u : Value) :
    holdsKey pk u row = v.eq u := by
  rw [MicroSql.holdsKey, h.key]

theorem Builds.checkInsert (h : Builds r pk names values row v)
    (hprimary : primaryKeyIndex r.columns = some pk) : checkInsert names values r =
      if r.rowsWith pk v ≠ [] then .error (.error .primaryKeyViolation)
      else (fun _ => row) <$> checkRow row r.columns := by
  have hcount : ¬(names = [] ∧ row.length ≠ r.columns.length) := fun hbad => hbad.2 h.length_eq
  rw [MicroSql.checkInsert, h.row_eq, ok_bind, if_neg hcount, repeatsKey_eq hprimary h.key]
  simp only [Relation.any_holdsKey]

/-- A row that cannot be encoded is not a row whose key is taken. -/
theorem resultOf_checkRow_error {columns : Schema} {e : Failure ExecError}
    (h : checkRow row columns = .error e) : resultOf (.error e) ≠ refusedAnswer := by
  rcases hencode : serializeRow row columns with (e' | f) | bytes <;>
    rw [checkRow, hencode] at h <;> cases h
  · change (.ok (makeError .internalError) : Except Fault Result) ≠ refusedAnswer
    decide
  · rintro ⟨⟩

/-- An INSERT is refused for its key exactly if a row has it. -/
theorem Answers.refused_iff {table : Str} {r' : Option Relation}
    {answer : Except (Failure ExecError) Result}
    (h : Answers (.insert table names values) (some r) answer r')
    (hbuilds : Builds r pk names values row v) (hprimary : primaryKeyIndex r.columns = some pk) :
    resultOf answer = refusedAnswer ↔ r.rowsWith pk v ≠ [] := by
  have hcheck := hbuilds.checkInsert hprimary
  split at hcheck
  · next htaken =>
    refine iff_of_true ?_ htaken
    cases h with
    | rejected hfail =>
      rw [hcheck] at hfail
      cases hfail
      rfl
    | inserted hpass =>
      rw [hcheck] at hpass
      cases hpass
    | full hpass =>
      rw [hcheck] at hpass
      cases hpass
  · next hfree =>
    refine iff_of_false ?_ hfree
    cases h with
    | @rejected _ _ _ _ e hfail =>
      rw [hcheck] at hfail
      rcases hrow : checkRow row r.columns with e' | u <;> rw [hrow] at hfail <;> cases hfail
      exact resultOf_checkRow_error hrow
    | inserted => decide
    | full => decide

/-- The row of an INSERT that succeeds. -/
theorem Answers.inserted_row {table : Str} {r' : Option Relation}
    {answer : Except (Failure ExecError) Result}
    (h : Answers (.insert table names values) (some r) answer r')
    (hbuilds : Builds r pk names values row v) (hprimary : primaryKeyIndex r.columns = some pk)
    (hok : resultOf answer = insertedAnswer) : r.rowsWith pk v = [] ∧ ∃ before after,
      r.rows = before ++ after ∧ r' = some (r.withRows (before ++ row :: after)) := by
  have hcheck := hbuilds.checkInsert hprimary
  cases h with
  | @rejected _ _ _ _ e hfail =>
    rcases e with e | f <;> cases hok
  | inserted hpass hrows =>
    rw [hcheck] at hpass
    split at hpass
    · cases hpass
    · next hfree =>
      rcases hrow : checkRow row r.columns with e' | u <;> rw [hrow] at hpass <;> cases hpass
      exact ⟨not_not.1 hfree, _, _, hrows, rfl⟩
  | full => cases hok

/-- However an INSERT ends, the rows of other keys are as they were. -/
theorem Answers.rowsWith_other {table : Str} {r' : Option Relation}
    {answer : Except (Failure ExecError) Result}
    (h : Answers (.insert table names values) (some r) answer r')
    (hbuilds : Builds r pk names values row v) {u : Value} (hne : v.eq u = false) :
    ∃ rows, r' = some (r.withRows rows) ∧ (r.withRows rows).rowsWith pk u = r.rowsWith pk u := by
  cases h with
  | rejected | full => exact ⟨r.rows, rfl, rfl⟩
  | @inserted _ _ _ _ row' before after hpass hrows =>
    obtain ⟨hrow, -⟩ := checkInsert_eq_ok hpass
    obtain rfl : row' = row := Except.ok.inj (hrow.symm.trans hbuilds.row_eq)
    have hother : holdsKey pk u row' = false := (hbuilds.holdsKey u).trans hne
    refine ⟨_, rfl, ?_⟩
    rw [Relation.rowsWith, Relation.rowsWith, hrows]
    change (before ++ row' :: after).filter (holdsKey pk u) = _
    rw [List.filter_append, List.filter_append, List.filter_cons_of_neg (by simp [hother])]

end Commands

/-! ### On the engine -/

section Engine

variable {w : Engine} {pr : ParseResult} {table k : Str} {r : Relation} {pk : ℕ} {e : Tree}
  {v : Value} {names : List Str} {values : List Tree} {row : Row}

theorem Reachable.select_key (h : Reachable EncodesWithin w) (hr : w.database table = some r)
    (hk : r.KeyNamed pk k) (he : e.evalExpr [] [] = .ok v)
    (hselect : Denotes pr (.select table [] (some (keyEquals k e)))) :
    (MicroSql.execute pr w).1 = r.shows (r.rowsWith pk v) := by
  rw [h.select_answers hselect hr, hk.select he (h.whole table r hr)]

theorem Reachable.insert_answers (h : Reachable EncodesWithin w) (hr : w.database table = some r)
    (hinsert : Denotes pr (.insert table names values)) (hwithin : EncodesWithin pr w) :
    ∃ answer, (MicroSql.execute pr w).1 = resultOf answer ∧
      Answers (.insert table names values) (some r) answer ((w.after pr).database table) := by
  have hstep := h.good.execute_answers (fun t => h.good.withinOn hwithin) hinsert
  obtain ⟨answer, hout, hanswers⟩ := hstep.exists_answers
  rw [show (Command.insert table names values).table = table from rfl, hr] at hanswers
  exact ⟨answer, hout, hanswers⟩

/-- At most one row has a given key. -/
theorem Reachable.length_rowsWith_le (h : Reachable EncodesWithin w)
    (hr : w.database table = some r) (hprimary : primaryKeyIndex r.columns = some pk) :
    (r.rowsWith pk v).length ≤ 1 := (h.keysDistinct hr).length_filter_le hprimary v

end Engine

/-- A statement on the sample table with the condition `a = n`. -/
def sampleKey (kind : StatementKind) (n : Int64) : ParseResult where
  expressions := [.columnRef [] (str "a"), .literalInt n, .binary .equal 0 1]
  statement := { kind := kind, tableName := str "t", whereIndex := 2 }

theorem sampleKey_condition (kind : StatementKind) (n : Int64) :
    (sampleKey kind n).Condition (some (keyEquals (str "a") (.leaf (.literalInt n)))) := by
  have hcolumn : (sampleKey kind n).HasNode 0 (.columnRef [] (str "a")) := ⟨le_rfl, rfl⟩
  have hliteral : (sampleKey kind n).HasNode 1 (.literalInt n) := ⟨Int.zero_le_ofNat 1, rfl⟩
  have hequal : (sampleKey kind n).HasNode 2 (.binary .equal 0 1) := ⟨Int.zero_le_ofNat 2, rfl⟩
  exact .some ⟨_, hequal, .binary hcolumn hliteral (.leaf rfl) (.leaf rfl)⟩

/-- **What has been inserted is found by its key.**  On every engine that a run reaches, take a
table with a key column `k`, an expression `e` that needs no row, and an INSERT of a row with the
value of `e` as its key.  `SELECT * … WHERE k = e` succeeds and finds one row at most; the INSERT
is refused for its key exactly if it finds one; after an INSERT that succeeds it finds the row that
was inserted and no other, unless the key is a NaN; and however the INSERT ends, what is found
under other keys is as it was. -/
theorem insert_lookup {w : Engine} (h : Reachable EncodesWithin w) {table k : Str} {r : Relation}
    (hr : w.database table = some r) {pk : ℕ} (hk : r.KeyNamed pk k) {e : Tree} {v : Value}
    (he : e.evalExpr [] [] = .ok v) {prSelect prInsert : ParseResult}
    (hselect : Denotes prSelect (.select table [] (some (keyEquals k e)))) {names : List Str}
    {values : List Tree} (hinsert : Denotes prInsert (.insert table names values))
    (hwithin : EncodesWithin prInsert w) {row : Row} (hbuilds : Builds r pk names values row v) :
    (∃ found, (execute prSelect w).1 = r.shows found ∧ found.length ≤ 1 ∧
      ((execute prInsert w).1 = refusedAnswer ↔ found ≠ [])) ∧
    ((execute prInsert w).1 = insertedAnswer → v.eq v = true →
      (execute prSelect (w.after prInsert)).1 = r.shows [row]) ∧
    ∀ e' u prOther, e'.evalExpr [] [] = .ok u → v.eq u = false →
      Denotes prOther (.select table [] (some (keyEquals k e'))) →
      (execute prOther (w.after prInsert)).1 = (execute prOther w).1 := by
  obtain ⟨answer, hout, hanswers⟩ := h.insert_answers hr hinsert hwithin
  have hafter : Reachable EncodesWithin (w.after prInsert) := h.execute prInsert hwithin
  rw [hout]
  refine ⟨⟨r.rowsWith pk v, h.select_key hr hk he hselect, h.length_rowsWith_le hr hk.primary,
    hanswers.refused_iff hbuilds hk.primary⟩,
    fun hok hself => ?_, fun e' u prOther he' hne hother => ?_⟩
  · obtain ⟨hfree, before, after, hrows, hr'⟩ := hanswers.inserted_row hbuilds hk.primary hok
    have hk' : (r.withRows (before ++ row :: after)).KeyNamed pk k := ⟨hk.primary, hk.first⟩
    have hholds : holdsKey pk v row = true := (hbuilds.holdsKey v).trans hself
    rw [hafter.select_key hr' hk' he hselect]
    -- before the INSERT no row has had the key
    rw [Relation.rowsWith, hrows, List.filter_append, List.append_eq_nil_iff] at hfree
    have hone : (r.withRows (before ++ row :: after)).rowsWith pk v = [row] := by
      change (before ++ row :: after).filter (holdsKey pk v) = _
      rw [List.filter_append, List.filter_cons_of_pos hholds, hfree.1, hfree.2, List.nil_append]
    rw [hone]
    rfl
  · obtain ⟨rows, hr', hsame⟩ := hanswers.rowsWith_other hbuilds hne
    have hk' : (r.withRows rows).KeyNamed pk k := ⟨hk.primary, hk.first⟩
    rw [hafter.select_key hr' hk' he' hother, h.select_key hr hk he' hother, hsame]
    rfl

theorem insert_lookup_sample : (execute (sampleKey .select 2) sampleTwo).1 =
    .ok { columns := [str "a", str "b"], rows := [[.int 2, .int 20]], message := str "1 row" } := by
  have hdatabase : sampleOne.database (str "t") =
      some ⟨sampleTable.columns, sampleOne.rows sampleTable⟩ :=
    database_of_find sampleOne_oneRow.find
  have hinserted : (execute (sampleInsert 2 20) sampleOne).1 = insertedAnswer :=
    (List.cons.inj (List.cons.inj (List.cons.inj sampleAnswers_eq).2).2).1
  have hkey : Relation.KeyNamed ⟨sampleTable.columns, sampleOne.rows sampleTable⟩ 0 (str "a") :=
    ⟨rfl, rfl⟩
  have hvalue : (Tree.leaf (.literalInt 2)).evalExpr [] [] = .ok (.int 2) := rfl
  obtain ⟨-, hfound, -⟩ := insert_lookup sampleOne_oneRow.reachable hdatabase hkey hvalue
    (.select rfl .nil (sampleKey_condition .select 2)) (sampleInsert_denotes 2 20)
    sampleTwo_inserted.1 ⟨rfl, rfl, rfl⟩
  exact hfound hinserted rfl

/-- **What has been deleted by its key can be inserted again.**  On every engine that a run
reaches, `DELETE … WHERE k = e` succeeds and deletes what `SELECT * … WHERE k = e` has shown;
afterwards that finds nothing, and an INSERT with this key is not refused for it. -/
theorem delete_frees_key {w : Engine} (h : Reachable EncodesWithin w) {table k : Str}
    {r : Relation} (hr : w.database table = some r) {pk : ℕ} (hk : r.KeyNamed pk k) {e : Tree}
    {v : Value} (he : e.evalExpr [] [] = .ok v) {prSelect prDelete prInsert : ParseResult}
    (hselect : Denotes prSelect (.select table [] (some (keyEquals k e))))
    (hdelete : Denotes prDelete (.delete table (some (keyEquals k e)))) {names : List Str}
    {values : List Tree} (hinsert : Denotes prInsert (.insert table names values))
    (hwithin : EncodesWithin prInsert (w.after prDelete)) {row : Row}
    (hbuilds : Builds r pk names values row v) :
    (∃ found, (execute prSelect w).1 = r.shows found ∧
      (execute prDelete w).1 = deletedAnswer found.length) ∧
    (execute prSelect (w.after prDelete)).1 = r.shows [] ∧
    (execute prInsert (w.after prDelete)).1 ≠ refusedAnswer := by
  have hwhole := h.whole table r hr
  have hdecides := hk.decides he hwhole
  have hkind : ¬(prDelete.statement.kind = .insert ∨ prDelete.statement.kind = .update) := by
    cases hdelete with
    | delete hkind => simp [hkind]
  obtain ⟨hafter, -⟩ := h.step_of_kind hdelete hkind
  -- one row is not too many for the counter
  have hone : (r.pickedRows (some (keyEquals k e))).length < 2 ^ 31 := by
    have hle := h.length_rowsWith_le (v := v) hr hk.primary
    rw [Relation.pickedRows, hk.filter_picked he hwhole]
    omega
  obtain ⟨hout, hdatabase⟩ := h.delete_answers hdelete hr hdecides hone
  have hr' : (w.after prDelete).database table =
      some (r.withRows (r.otherRows (some (keyEquals k e)))) := by
    rw [hdatabase, Function.update_self]
  have hk' : (r.withRows (r.otherRows (some (keyEquals k e)))).KeyNamed pk k :=
    ⟨hk.primary, hk.first⟩
  have hnone : (r.withRows (r.otherRows (some (keyEquals k e)))).rowsWith pk v = [] := by
    refine List.filter_eq_nil_iff.2 fun row hrow => ?_
    obtain ⟨hrow, hother⟩ := List.mem_filter.1 hrow
    rw [picked_of_holds (hk.holds_keyEquals he (hwhole row hrow))] at hother
    simpa using hother
  refine ⟨⟨r.rowsWith pk v, h.select_key hr hk he hselect, ?_⟩, ?_, ?_⟩
  · rw [hout, deletedAnswer, Relation.pickedRows, hk.filter_picked he hwhole]
  · rw [hafter.select_key hr' hk' he hselect, hnone]
    rfl
  · obtain ⟨answer, hanswer, hanswers⟩ := hafter.insert_answers hr' hinsert hwithin
    have hbuilds' : Builds (r.withRows (r.otherRows (some (keyEquals k e)))) pk names values row
      v := ⟨hbuilds.row_eq, hbuilds.length_eq, hbuilds.key⟩
    rw [hanswer, ne_eq, hanswers.refused_iff hbuilds' hk.primary, hnone]
    exact not_not.2 rfl

theorem delete_frees_key_sample :
    (execute (sampleKey .delete 1) sampleTwo).1 = deletedAnswer 1 ∧
    (execute (sampleInsert 1 30) (sampleTwo.after (sampleKey .delete 1))).1 ≠ refusedAnswer := by
  have hkey : Relation.KeyNamed ⟨sampleTable.columns, [[.int 1, .int 10], [.int 2, .int 20]]⟩ 0
    (str "a") := ⟨rfl, rfl⟩
  have hvalue : (Tree.leaf (.literalInt 1)).evalExpr [] [] = .ok (.int 1) := rfl
  have hdelete : Denotes (sampleKey .delete 1)
      (.delete (str "t") (some (keyEquals (str "a") (.leaf (.literalInt 1))))) :=
    .delete rfl (sampleKey_condition .delete 1)
  obtain ⟨hafter, -⟩ := sampleTwo_reachable.step_of_kind hdelete (by decide)
  -- DELETE leaves the columns, whose rows are short
  have hdecides := hkey.decides hvalue (sampleTwo_reachable.whole _ _ sampleTwo_database)
  obtain ⟨-, hdatabase⟩ := sampleTwo_reachable.delete_answers hdelete sampleTwo_database hdecides
    (by decide)
  have hwithin : EncodesWithin (sampleInsert 1 30) (sampleTwo.after (sampleKey .delete 1)) := by
    refine hafter.encodesWithin (sampleInsert_denotes 1 30) fun _ t hfind => ?_
    change (sampleTwo.after (sampleKey .delete 1)).catalog.findTable (str "t") = some t at hfind
    have htable := congrFun hdatabase (str "t")
    rw [Function.update_self, database_of_find hfind] at htable
    have hcolumns : t.columns = sampleTable.columns :=
      congrArg Relation.columns (Option.some.inj htable)
    rw [hcolumns]
    exact shortRows_of_rowLimit (by decide)
  obtain ⟨⟨found, hfound, hdeleted⟩, -, hinsert⟩ := delete_frees_key sampleTwo_reachable
    sampleTwo_database hkey hvalue (.select rfl .nil (sampleKey_condition .select 1)) hdelete
    (sampleInsert_denotes 1 30) hwithin ⟨rfl, rfl, rfl⟩
  have hone := sampleTwo_reachable.select_key sampleTwo_database hkey hvalue
    (.select rfl .nil (sampleKey_condition .select 1))
  rw [hfound] at hone
  obtain rfl : found = _ := congrArg Result.rows (Except.ok.inj hone)
  exact ⟨hdeleted, hinsert⟩

/-! ### UPDATE by a key -/

/-- The answer of an UPDATE. -/
def updatedAnswer (n : ℕ) : Except Fault Result :=
  .ok { message := countRows n ++ str " updated" }

/-- A list of which a filter keeps one element at most. -/
theorem exists_split_of_filter {p : Row → Bool} {rows : List Row}
    (h : (rows.filter p).length ≤ 1) : ∃ before after,
      rows = before ++ rows.filter p ++ after ∧ ∀ row ∈ before ++ after, p row = false := by
  rcases hfilter : rows.filter p with _ | ⟨row, rest⟩
  · refine ⟨rows, [], by simp, fun row hrow => ?_⟩
    rw [List.append_nil] at hrow
    simpa using List.filter_eq_nil_iff.1 hfilter row hrow
  · rw [hfilter, List.length_cons] at h
    obtain rfl : rest = [] := List.eq_nil_of_length_eq_zero (by omega)
    obtain ⟨before, after, rfl, hbefore, -, hafter⟩ := List.filter_eq_cons_iff.1 hfilter
    refine ⟨before, after, by simp, fun y hy => ?_⟩
    rcases List.mem_append.1 hy with hy | hy
    · simpa using hbefore y hy
    · simpa using List.filter_eq_nil_iff.1 hafter y hy

section Update

variable {r : Relation} {pk : ℕ} {k table : Str} {e : Tree} {v : Value}
  {assignments : List (Str × Tree)} {row : Row}

/-- A row of another key is left as it is. -/
theorem Relation.KeyNamed.updateVisit_other (hk : r.KeyNamed pk k) (he : e.evalExpr [] [] = .ok v)
    (hrow : row.length = r.columns.length) (hother : holdsKey pk v row = false)
    (before after : List Row) :
    updateVisit assignments (some (keyEquals k e)) r.columns before row after =
      .ok (false, some row) := by
  have hholds : holds (some (keyEquals k e)) (r.columns.map (·.name)) row = .ok false := by
    rw [← hother]
    exact hk.holds_keyEquals he hrow
  rw [updateVisit, hholds]
  rfl

/-- What the assignments make of a row of the key. -/
theorem Relation.KeyNamed.updateVisit_key (hk : r.KeyNamed pk k) (he : e.evalExpr [] [] = .ok v)
    (hrow : row.length = r.columns.length) (hkey : holdsKey pk v row = true)
    {before after : List Row} {c : Bool} {o : Option Row}
    (h : updateVisit assignments (some (keyEquals k e)) r.columns before row after = .ok (c, o)) :
    ∃ updated, updatedRow assignments r.names row = .ok updated ∧ c = true ∧ o = some updated := by
  have hholds : holds (some (keyEquals k e)) (r.columns.map (·.name)) row = .ok true := by
    rw [← hkey]
    exact hk.holds_keyEquals he hrow
  rw [updateVisit, hholds, ok_bind] at h
  simp only [Bool.not_true, Bool.false_eq_true, if_false] at h
  obtain ⟨updated, hupdated, h⟩ := bind_eq_ok.1 h
  split at h
  · cases h
  · rcases hcheck : checkRow updated r.columns with e' | u <;> rw [hcheck] at h <;> cases h
    exact ⟨updated, hupdated, rfl, rfl⟩

/-- An UPDATE by a key that one row has at most is all or nothing. -/
theorem Answers.update_key {answer : Except (Failure ExecError) Result} {r' : Option Relation}
    (h : Answers (.update table assignments (some (keyEquals k e))) (some r) answer r')
    (hk : r.KeyNamed pk k) (he : e.evalExpr [] [] = .ok v) (hwhole : r.Whole)
    {before after : List Row} (hrows : r.rows = before ++ r.rowsWith pk v ++ after)
    (hothers : ∀ row ∈ before ++ after, holdsKey pk v row = false)
    (hone : (r.rowsWith pk v).length ≤ 1) :
    (∃ new, List.Forall₂ (fun row row' => updatedRow assignments r.names row = .ok row')
        (r.rowsWith pk v) new ∧ resultOf answer = updatedAnswer (r.rowsWith pk v).length ∧
        r' = some (r.withRows (before ++ new ++ after))) ∨
      (∃ e', answer = .error e') ∧ r' = some r := by
  have hsame : ∀ row ∈ before ++ after, ∀ b a,
      updateVisit assignments (some (keyEquals k e)) r.columns b row a = .ok (false, some row) := by
    intro row hrow b a
    have hmem : row ∈ r.rows := by
      rw [hrows]
      rcases List.mem_append.1 hrow with hrow | hrow <;> simp [hrow]
    exact hk.updateVisit_other he (hwhole row hmem) (hothers row hrow) b a
  cases h with
  | @update _ _ _ _ out rows hsweeps =>
    rcases hfound : r.rowsWith pk v with _ | ⟨row, rest⟩
    · rw [hrows, hfound, List.append_nil] at hsweeps
      obtain ⟨rfl, rfl⟩ := hsweeps.unchanged hsame
      exact .inl ⟨[], .nil, rfl, by rw [List.append_nil]⟩
    · rw [hfound, List.length_cons] at hone
      obtain rfl : rest = [] := List.eq_nil_of_length_eq_zero (by omega)
      have hmem : row ∈ r.rowsWith pk v := by
        rw [hfound]
        exact List.mem_singleton_self row
      obtain ⟨hrow, hkey⟩ := List.mem_filter.1 hmem
      rw [hfound, List.append_assoc, List.singleton_append] at hrows
      rw [hrows] at hsweeps
      rcases hsweeps.single hsame with ⟨c, o, hvisit, rfl, rfl⟩ | ⟨e', rfl, rfl⟩
      · obtain ⟨updated, hupdated, rfl, rfl⟩ :=
          hk.updateVisit_key he (hwhole row hrow) hkey hvisit
        exact .inl ⟨[updated], .cons hupdated .nil, rfl, rfl⟩
      · refine .inr ⟨⟨e', rfl⟩, ?_⟩
        rw [← hrows]
        rfl

end Update

/-- **An UPDATE by a key is all or nothing.**  On every engine that a run reaches, take a table
with a key column `k`, an expression `e` that needs no row, and an UPDATE with `WHERE k = e`.
`SELECT * … WHERE k = e` finds one row at most.  If the UPDATE succeeds, it counts what the SELECT
has found, and in its place is what the assignments make of it; if it fails, be it with an error or
an exception, no table has changed. -/
theorem update_by_key {w : Engine} (h : Reachable EncodesWithin w) {table k : Str} {r : Relation}
    (hr : w.database table = some r) {pk : ℕ} (hk : r.KeyNamed pk k) {e : Tree} {v : Value}
    (he : e.evalExpr [] [] = .ok v) {prSelect prUpdate : ParseResult}
    (hselect : Denotes prSelect (.select table [] (some (keyEquals k e))))
    {assignments : List (Str × Tree)}
    (hupdate : Denotes prUpdate (.update table assignments (some (keyEquals k e))))
    (hwithin : EncodesWithin prUpdate w) :
    ∃ before found after, r.rows = before ++ found ++ after ∧ found.length ≤ 1 ∧
      (execute prSelect w).1 = r.shows found ∧
      ((∃ new, List.Forall₂ (fun row row' => updatedRow assignments r.names row = .ok row')
          found new ∧ (execute prUpdate w).1 = updatedAnswer found.length ∧
          (w.after prUpdate).database =
            Function.update w.database table (some (r.withRows (before ++ new ++ after)))) ∨
        ¬Succeeds (execute prUpdate w).1 ∧ (w.after prUpdate).database = w.database) := by
  have hone : (r.rowsWith pk v).length ≤ 1 := h.length_rowsWith_le hr hk.primary
  obtain ⟨before, after, hrows, hothers⟩ := exists_split_of_filter hone
  have hstep := h.good.execute_answers (fun t => h.good.withinOn hwithin) hupdate
  change Database.Step w.database _ _ (w.after prUpdate).database at hstep
  generalize (w.after prUpdate).database = db at hstep ⊢
  generalize (execute prUpdate w).1 = out at hstep ⊢
  obtain ⟨hanswers⟩ := hstep
  change Answers _ (w.database table) _ _ at hanswers
  rw [hr] at hanswers
  refine ⟨before, r.rowsWith pk v, after, hrows, hone, h.select_key hr hk he hselect, ?_⟩
  rcases hanswers.update_key hk he (h.whole table r hr) hrows hothers hone with
    ⟨new, hnew, hout, rfl⟩ | ⟨⟨e', rfl⟩, rfl⟩
  · exact .inl ⟨new, hnew, hout, rfl⟩
  · refine .inr ⟨fun hsucceeds => ?_, ?_⟩
    · obtain ⟨result, hok, -⟩ := succeeds_resultOf.1 hsucceeds
      cases hok
    · exact Function.update_eq_self_iff.2 hr.symm

/-- `UPDATE t SET b = 30 WHERE a = 1` -/
def sampleKeyUpdate : ParseResult where
  expressions := (sampleKey .update 1).expressions ++ [.literalInt 30]
  statement := { kind := .update, tableName := str "t", whereIndex := 2,
                 assignments := [(str "b", 3)] }

theorem sampleKeyUpdate_denotes : Denotes sampleKeyUpdate (.update (str "t")
    [(str "b", .leaf (.literalInt 30))] (some (keyEquals (str "a") (.leaf (.literalInt 1))))) := by
  have hcolumn : sampleKeyUpdate.HasNode 0 (.columnRef [] (str "a")) := ⟨le_rfl, rfl⟩
  have hliteral : sampleKeyUpdate.HasNode 1 (.literalInt 1) := ⟨Int.zero_le_ofNat 1, rfl⟩
  have hequal : sampleKeyUpdate.HasNode 2 (.binary .equal 0 1) := ⟨Int.zero_le_ofNat 2, rfl⟩
  have hvalue : sampleKeyUpdate.HasNode 3 (.literalInt 30) := ⟨Int.zero_le_ofNat 3, rfl⟩
  exact .update rfl (.cons ⟨rfl, _, hvalue, .leaf rfl⟩ .nil)
    (.some ⟨_, hequal, .binary hcolumn hliteral (.leaf rfl) (.leaf rfl)⟩)

theorem sampleKeyUpdate_within : EncodesWithin sampleKeyUpdate sampleTwo :=
  sampleTwo_reachable.encodesWithin sampleKeyUpdate_denotes fun _ t hfind => by
    obtain rfl := Option.some.inj (sampleTwo_find.symm.trans hfind)
    exact shortRows_of_rowLimit (by decide)

theorem sampleKeyUpdate_legal : ∀ row ∈ sampleTwo.rows sampleTable,
    Legal sampleKeyUpdate sampleTable.columns row := by
  intro row hrow
  rw [sampleTwo_rows, List.mem_pair] at hrow
  rcases hrow with rfl | rfl
  · have hsuits : Row.Suits [.int 1, .int 30] sampleTable.columns := .cons rfl (.cons rfl .nil)
    refine .new rfl rfl hsuits fun bytes hbytes => ?_
    rw [length_serializeRow hbytes rfl]
    decide
  · exact .kept rfl

/-- The new row is not longer than its slot. -/
theorem sampleKeyUpdate_room :
    HasGrowthRoom sampleKeyUpdate sampleTable.columns (sampleTwo.pages sampleTable) := by
  rw [sampleTwo_pages]
  intro b hb
  rcases List.mem_pair.1 hb with rfl | rfl <;> decide +kernel

theorem sampleKeyUpdate_succeeds : Succeeds (execute sampleKeyUpdate sampleTwo).1 := by
  have hfind : sampleTwo.catalog.findTable sampleKeyUpdate.statement.tableName =
      some sampleTable := sampleTwo_find
  obtain ⟨-, hp, hgood⟩ := sampleTwo_reachable.good.stores hfind
  have hcount : sampleTwo.matching sampleKeyUpdate sampleTable < 2 ^ 31 := by
    rw [Engine.matching, sampleTwo_rows]
    decide
  have hkey : ∀ pk, primaryKeyIndex sampleTable.columns = some pk →
      pkAssigned sampleKeyUpdate sampleTable.columns pk = false := by
    rintro pk hpk
    obtain rfl : 0 = pk := Option.some.inj hpk
    decide
  have hreturns : ∃ n, (execUpdate sampleKeyUpdate sampleTwo).1 = .ok n := by
    rw [sampleTwo_reachable.good.execUpdate_legal hfind sampleKeyUpdate_legal]
    exact (updateRows_ok_iff hp hgood.pages hgood.keys sampleKeyUpdate_legal hkey).2
      ⟨sampleKeyUpdate_room, hcount⟩
  obtain ⟨n, hok⟩ := hreturns
  exact ⟨_, congrArg Prod.fst (executeWith_update rfl hok), rfl⟩

theorem update_by_key_sample : (execute sampleKeyUpdate sampleTwo).1 = updatedAnswer 1 ∧
    (sampleTwo.after sampleKeyUpdate).database (str "t") =
      some ⟨sampleTable.columns, [[.int 1, .int 30], [.int 2, .int 20]]⟩ := by
  have hkey : Relation.KeyNamed ⟨sampleTable.columns, [[.int 1, .int 10], [.int 2, .int 20]]⟩ 0
    (str "a") := ⟨rfl, rfl⟩
  have hvalue : (Tree.leaf (.literalInt 1)).evalExpr [] [] = .ok (.int 1) := rfl
  have hselect : Denotes (sampleKey .select 1) _ :=
    .select rfl .nil (sampleKey_condition .select 1)
  obtain ⟨before, found, after, hrows, -, hshows, hends⟩ := update_by_key sampleTwo_reachable
    sampleTwo_database hkey hvalue hselect sampleKeyUpdate_denotes sampleKeyUpdate_within
  rw [sampleTwo_reachable.select_key sampleTwo_database hkey hvalue hselect] at hshows
  obtain rfl : [[.int 1, .int 10]] = found := congrArg Result.rows (Except.ok.inj hshows)
  obtain ⟨new, hnew, hout, hdatabase⟩ := hends.resolve_right fun h =>
    h.1 sampleKeyUpdate_succeeds
  refine ⟨hout, ?_⟩
  rw [hdatabase, Function.update_self]
  cases hnew with
  | cons hone hnil =>
    cases hnil
    obtain rfl := (Except.ok.inj hone).symm
    rcases before with _ | ⟨row, before⟩
    · obtain ⟨-, rfl⟩ := List.cons.inj hrows
      rfl
    · -- the second row has another key
      rcases before with _ | ⟨row', before⟩ <;> simp at hrows

end MicroSql
