import MicroSql.Engine.Insert

/-!
# UPDATE and DELETE

A successful UPDATE maps `rowFromUpdate` over the rows that match.  A statement that fails
has rewritten the pages before the one where it failed; that page and those after it are
as they were.
-/

namespace MicroSql

open Lib

/-- The number of rows for which the condition of a statement holds. -/
def Engine.matching (w : Engine) (pr : ParseResult) (t : TableSchema) : ℕ :=
  (w.rows t).countP fun row => decide (whereMatches pr row t.columnNames = .ok true)

/-- What a successful UPDATE does to the rows. -/
theorem update_rows {w : Engine} (h : Reachable EncodesWithin w) {pr : ParseResult}
    (hkind : pr.statement.kind = .update) {t : TableSchema}
    (hfind : w.catalog.findTable pr.statement.tableName = some t) (hwithin : EncodesWithin pr w)
    {n : ℕ} (hok : (execUpdate pr w).1 = .ok n) :
    (execUpdate pr w).2.catalog = w.catalog ∧
      List.Forall₂ (UpdatesTo pr t.columnNames) (w.rows t) ((execUpdate pr w).2.rows t) ∧
      (n = (w.rows t).countP fun row =>
        decide (whereMatches pr row t.columnNames = .ok true)) ∧ n < 2 ^ 31 := by
  have hinv := h.good
  obtain ⟨-, hp, hgood⟩ := hinv.stores hfind
  obtain ⟨hr, hc⟩ := (hinv.runs_update serializeWithin pr).ran_of_find hfind
  rw [← hwithin.execUpdate_eq hkind] at hr hc
  have hrule : Prog.Spec _ (updateRows (pageArray w.fs.limit) serializeWithin pr t.columns) _ _ :=
    updateRows_rows fitsSlots_serializeWithin hp hgood.pages hgood.keys
  have hdone := hrule.ok rfl (Prod.ext (hr.symm.trans hok) rfl)
  have hlt := rewritePages_count_lt (updateSlot_readOnly _ serializeWithin pr t.columns)
    updateSlot_keepsPages updateSlot_countsInInt hp (hr.symm.trans hok)
  obtain ⟨hall, hcount⟩ := hdone.rewrites.updatesTo
  refine ⟨hc.catalog_eq, ?_, hcount, hlt⟩
  rw [Engine.rows, Engine.rows, hc.pages_eq]
  exact hall

/-- **A successful UPDATE is a map over the rows.**  Each row for which the condition holds is
replaced by `rowFromUpdate` of it, the others stay, in the same order, and the count, which is an
`int`, is the number of rows that matched. -/
theorem update_maps_rows {w : Engine} (h : Reachable EncodesWithin w) {pr : ParseResult}
    (hkind : pr.statement.kind = .update) {t : TableSchema}
    (hfind : w.catalog.findTable pr.statement.tableName = some t) (hwithin : EncodesWithin pr w)
    {n : ℕ} (hok : (execUpdate pr w).1 = .ok n) :
    ∃ old new,
      (execSelect (selectStar pr.statement.tableName) w).1 =
        .ok { columns := t.columnNames, rows := old } ∧
      (execSelect (selectStar pr.statement.tableName) (execUpdate pr w).2).1 =
        .ok { columns := t.columnNames, rows := new } ∧
      List.Forall₂ (UpdatesTo pr t.columnNames) old new ∧
      (n = old.countP fun row => decide (whereMatches pr row t.columnNames = .ok true)) ∧
      n < 2 ^ 31 := by
  obtain ⟨hcat, hall, hcount⟩ := update_rows h hkind hfind hwithin hok
  have hinv := (h.execute pr hwithin).good
  rw [Engine.after_update hkind] at hinv
  have hfind' : (execUpdate pr w).2.catalog.findTable pr.statement.tableName = some t := by
    rw [hcat, hfind]
  exact ⟨w.rows t, _, h.good.selectStar hfind, hinv.selectStar hfind', hall, hcount⟩

theorem executeWith_update {serialize : Row → Schema → Expected RowError (List UInt8)}
    {pr : ParseResult} {w : Engine} (hkind : pr.statement.kind = .update) {n : ℕ}
    (h : (execUpdateWith serialize pr w).1 = .ok n) :
    executeWith serialize pr w =
      (.ok { message := countRows n ++ str " updated" }, (execUpdateWith serialize pr w).2) := by
  have hrun : execUpdateWith serialize pr w = (.ok n, (execUpdateWith serialize pr w).2) :=
    Prod.ext h rfl
  rw [executeWith, hkind, orError]
  dsimp only
  rw [Prog.bind_ok hrun]
  rfl

/-- `UPDATE t SET b = 5 WHERE a = 1` -/
def sampleUpdate : ParseResult where
  expressions := [.literalInt 5, .columnRef [] (str "a"), .literalInt 1, .binary .equal 1 2]
  statement := { kind := .update, tableName := str "t", whereIndex := 3,
                 assignments := [(str "b", 0)] }

theorem sampleUpdate_within :
    (execUpdateWith serializeWithin sampleUpdate sampleOne).1 = .ok 1 := by
  have hone := sampleOne_oneRow
  have hfind : sampleOne.catalog.findTable sampleUpdate.statement.tableName = some sampleTable :=
    hone.find
  have hran := (hone.reachable.good.runs_update serializeWithin sampleUpdate).ran_of_find hfind
  rw [hran.1, hone.pages_eq, hone.limit_eq]
  decide +kernel

theorem update_maps_rows_sample :
    ∃ old new,
      (execSelect (selectStar (str "t")) sampleOne).1 =
        .ok { columns := sampleTable.columnNames, rows := old } ∧
      (execSelect (selectStar (str "t")) (execUpdate sampleUpdate sampleOne).2).1 =
        .ok { columns := sampleTable.columnNames, rows := new } ∧
      List.Forall₂ (UpdatesTo sampleUpdate sampleTable.columnNames) old new ∧
      (1 = old.countP fun row =>
        decide (whereMatches sampleUpdate row sampleTable.columnNames = .ok true)) ∧
      1 < 2 ^ 31 := by
  have hwithin : EncodesWithin sampleUpdate sampleOne := by
    rw [EncodesWithin, executeWith_update rfl sampleUpdate_within]
    intro hc
    cases hc
  have hok : (execUpdate sampleUpdate sampleOne).1 = .ok 1 := by
    rw [hwithin.execUpdate_eq rfl, sampleUpdate_within]
  have hfind : sampleOne.catalog.findTable sampleUpdate.statement.tableName = some sampleTable :=
    sampleOne_oneRow.find
  exact update_maps_rows sampleOne_oneRow.reachable rfl hfind hwithin hok

/-! ### Statements that fail -/

theorem executeWith_delete {serialize : Row → Schema → Expected RowError (List UInt8)}
    {pr : ParseResult} {w : Engine} (hkind : pr.statement.kind = .delete) {n : ℕ}
    (h : (execDelete pr w).1 = .ok n) :
    executeWith serialize pr w =
      (.ok { message := countRows n ++ str " deleted" }, (execDelete pr w).2) := by
  have hrun : execDelete pr w = (.ok n, (execDelete pr w).2) := Prod.ext h rfl
  rw [executeWith, hkind, orError]
  dsimp only
  rw [Prog.bind_ok hrun]
  rfl

theorem executeWith_delete_error {serialize : Row → Schema → Expected RowError (List UInt8)}
    {pr : ParseResult} {w : Engine} (hkind : pr.statement.kind = .delete) {e : ExecError}
    (h : (execDelete pr w).1 = .error (.error e)) :
    executeWith serialize pr w = (.ok (makeError e), (execDelete pr w).2) := by
  have hrun : execDelete pr w = (.error (.error e), (execDelete pr w).2) := Prod.ext h rfl
  rw [executeWith, hkind, orError]
  dsimp only
  rw [Prog.bind_error hrun]

/-- What UPDATE or DELETE does to a slot. -/
def rewriteSlot (limit : ℕ) (serialize : Row → Schema → Expected RowError (List UInt8))
    (pr : ParseResult) (columns : Schema) :
    ℕ → Page × ℕ → ℕ → Prog (List (Block pageSize)) (Failure ExecError) (Page × ℕ) :=
  match pr.statement.kind with
  | .delete => deleteSlot pr columns
  | _ => updateSlot (pageArray limit) serialize pr columns

theorem rewriteSlot_readOnly (limit : ℕ)
    (serialize : Row → Schema → Expected RowError (List UInt8)) (pr : ParseResult)
    (columns : Schema) (k : ℕ) (s : Page × ℕ) (slot : ℕ) :
    (rewriteSlot limit serialize pr columns k s slot).ReadOnly := by
  unfold rewriteSlot
  cases pr.statement.kind with
  | delete => exact deleteSlot_readOnly pr columns k s slot
  | _ => exact updateSlot_readOnly limit serialize pr columns k s slot

theorem rewriteSlot_keepsPages (limit : ℕ)
    (serialize : Row → Schema → Expected RowError (List UInt8)) (pr : ParseResult)
    (columns : Schema) : KeepsPages (rewriteSlot limit serialize pr columns) := by
  unfold rewriteSlot
  split
  · exact deleteSlot_keepsPages
  · exact updateSlot_keepsPages

/-- What UPDATE or DELETE does to a row. -/
def rewriteAction (pr : ParseResult) (columns : Schema) : RowAction :=
  match pr.statement.kind with
  | .delete => deleteAction pr columns
  | _ => updateAction pr columns

/-- The statement has passed the pages before `k` and has failed on page `k`, which is as it
was, like the pages after it. -/
structure StoppedAt (body : ℕ → Page × ℕ → ℕ → Prog (List (Block pageSize)) (Failure ExecError)
    (Page × ℕ)) (bs bs' : List (Block pageSize)) (k : ℕ) : Prop where
  fails : ∃ b count e, bs[k]? = some b ∧ Passed body bs k count bs' ∧
    (slotLoop body k ⟨b, k⟩ count bs').1 = .error e
  length_eq : bs'.length = bs.length
  rest : bs'.drop k = bs.drop k

theorem StoppedAt.one_le {body : ℕ → Page × ℕ → ℕ → Prog (List (Block pageSize))
    (Failure ExecError) (Page × ℕ)} {bs bs' : List (Block pageSize)} {k : ℕ}
    (h : StoppedAt body bs bs' k) : 1 ≤ k := by
  obtain ⟨b, count, e, -, hp, -⟩ := h.fails
  exact hp.one_le

/-- On the first data page nothing has been changed yet. -/
theorem StoppedAt.eq_of_one {body : ℕ → Page × ℕ → ℕ → Prog (List (Block pageSize))
    (Failure ExecError) (Page × ℕ)} {bs bs' : List (Block pageSize)}
    (h : StoppedAt body bs bs' 1) : bs' = bs := by
  obtain ⟨b, count, e, -, hp, -⟩ := h.fails
  generalize hk : 1 = k at hp
  cases hp with
  | start => rfl
  | page hp _ _ =>
    have := hp.one_le
    omega

/-- A rewriting statement that fails has stopped at some page. -/
theorem rewritePages_stops {limit : ℕ} {body : ℕ → Page × ℕ → ℕ →
    Prog (List (Block pageSize)) (Failure ExecError) (Page × ℕ)}
    (hread : ∀ k s slot, (body k s slot).ReadOnly) (hkeep : KeepsPages body)
    {bs : List (Block pageSize)} (h : TablePages bs) {e : Failure ExecError}
    (herr : (rewritePages (pageArray limit) body bs).1 = .error e) :
    ∃ k, StoppedAt body bs (rewritePages (pageArray limit) body bs).2 k := by
  have hrule : Prog.Spec _ (rewritePages (pageArray limit) body) _ _ :=
    rewritePages_passed hread hkeep h
  obtain ⟨-, hlen, k, count, b, -, hp, hb, hloop⟩ := hrule.error rfl (Prod.ext herr rfl)
  refine ⟨k, ⟨b, count, e, ?_, hp, hloop⟩, hlen, hp.drop_eq⟩
  have hsame := congrArg (·[0]?) hp.drop_eq
  rw [← hb]
  simpa using hsame.symm

namespace Engine

variable {T : TableSchema → List (Block pageSize) → Prop} {w : Engine} {pr : ParseResult}
  {t : TableSchema}

/-- UPDATE and DELETE in the engine, on the array of the pages. -/
theorem Inv.rewrites (h : Inv T w)
    (hkind : pr.statement.kind = .update ∨ pr.statement.kind = .delete)
    (hfind : w.catalog.findTable pr.statement.tableName = some t) :
    let run := rewritePages (pageArray w.fs.limit)
      (rewriteSlot w.fs.limit serializeRow pr t.columns) (w.pages t)
    (w.after pr).catalog = w.catalog ∧ (w.after pr).pages t = run.2 ∧
      ∀ n, run.1 = .ok n → ∃ r, (MicroSql.execute pr w).1 = .ok r ∧ r.success = true := by
  rcases hkind with hkind | hkind
  · have hslot : rewriteSlot w.fs.limit serializeRow pr t.columns =
        updateSlot (pageArray w.fs.limit) serializeRow pr t.columns := by
      rw [rewriteSlot, hkind]
    obtain ⟨hr, hc⟩ := (h.runs_update serializeRow pr).ran_of_find hfind
    rw [hslot]
    refine ⟨?_, ?_, fun n hn => ⟨{ message := countRows n ++ str " updated" }, ?_, rfl⟩⟩
    · rw [Engine.after_update hkind]
      exact hc.catalog_eq
    · rw [Engine.after_update hkind]
      exact hc.pages_eq
    · rw [MicroSql.execute, executeWith_update hkind (hr.trans hn)]
  · have hslot : rewriteSlot w.fs.limit serializeRow pr t.columns = deleteSlot pr t.columns := by
      rw [rewriteSlot, hkind]
    obtain ⟨hr, hc⟩ := (h.runs_delete pr).ran_of_find hfind
    rw [hslot]
    refine ⟨?_, ?_, fun n hn => ⟨{ message := countRows n ++ str " deleted" }, ?_, rfl⟩⟩
    · rw [Engine.after_delete hkind]
      exact hc.catalog_eq
    · rw [Engine.after_delete hkind]
      exact hc.pages_eq
    · rw [MicroSql.execute, executeWith_delete hkind (hr.trans hn)]

end Engine

/-- The rows of the pages that have been passed, if all encodings fit. -/
theorem StoppedAt.rewrites {w : Engine} (h : Reachable EncodesWithin w) {pr : ParseResult}
    (hkind : pr.statement.kind = .update ∨ pr.statement.kind = .delete) {t : TableSchema}
    (hfind : w.catalog.findTable pr.statement.tableName = some t) (hwithin : EncodesWithin pr w)
    {bs : List (Block pageSize)} {k : ℕ}
    (hstop : StoppedAt (rewriteSlot w.fs.limit serializeRow pr t.columns) (w.pages t) bs k) :
    ∃ n, Rewrites (rewriteAction pr t.columns) (liveRows t.columns ((w.pages t).take k))
      (liveRows t.columns (bs.take k)) n := by
  obtain ⟨-, hp, hgood⟩ := h.good.stores hfind
  obtain ⟨b, count, e, hb, hpassed, -⟩ := hstop.fails
  have hk : k ≤ (w.pages t).length := (List.getElem?_eq_some_iff.1 hb).1.le
  refine ⟨count, ?_⟩
  rcases hkind with hkind | hkind
  · -- the checks of `serializeWithin` do not fail, so they change nothing
    rw [rewriteSlot, hkind] at hpassed
    rw [rewriteAction, hkind]
    have hne := hwithin.execUpdate_ne hkind
    rw [((h.good.runs_update serializeWithin pr).ran_of_find hfind).1] at hne
    have hpassed' := hpassed.of_guards (updateSlot_guards _ pr t.columns)
      (updateSlot_readOnly w.fs.limit serializeWithin pr t.columns) updateSlot_keepsPages hp hne hk
    exact (hpassed'.pagesDone (updateSlot_readOnly w.fs.limit serializeWithin pr t.columns)
      (updateSlot_actsOnRow fitsSlots_serializeWithin) hp hgood.pages hgood.keys).2.done
  · rw [rewriteSlot, hkind] at hpassed
    rw [rewriteAction, hkind]
    exact (hpassed.pagesDone (deleteSlot_readOnly pr t.columns) deleteSlot_actsOnRow hp hgood.pages
      hgood.keys).2.done

/-- **UPDATE and DELETE stop at the page that fails.**  When they do not succeed, the data page
on which they have failed and those after it are as they were, and the pages before it have
been rewritten; if it is the first data page, nothing has changed. -/
theorem failed_rewrite_stops {w : Engine} (h : Reachable anyStatement w) {pr : ParseResult}
    (hkind : pr.statement.kind = .update ∨ pr.statement.kind = .delete) {t : TableSchema}
    (hfind : w.catalog.findTable pr.statement.tableName = some t)
    (hfails : ∀ r, (execute pr w).1 = .ok r → r.success = false) :
    ∃ k, StoppedAt (rewriteSlot w.fs.limit serializeRow pr t.columns) (w.pages t)
        ((w.after pr).pages t) k ∧
      (k = 1 → (execSelect (selectStar pr.statement.tableName) (w.after pr)).1 =
        (execSelect (selectStar pr.statement.tableName) w).1) ∧
      (Reachable EncodesWithin w → EncodesWithin pr w →
        ∃ n, Rewrites (rewriteAction pr t.columns) (liveRows t.columns ((w.pages t).take k))
          (liveRows t.columns (((w.after pr).pages t).take k)) n) := by
  have hinv := h.wf
  have hinv' := (h.execute pr trivial).wf
  obtain ⟨-, hp, -⟩ := hinv.stores hfind
  obtain ⟨hcat, hpages, hok⟩ := hinv.rewrites hkind hfind
  rcases hrun : (rewritePages (pageArray w.fs.limit)
    (rewriteSlot w.fs.limit serializeRow pr t.columns) (w.pages t)).1 with e | n
  -- a statement that passes all pages succeeds
  swap
  · obtain ⟨r, hr, hsuccess⟩ := hok n hrun
    rw [hfails r hr] at hsuccess
    cases hsuccess
  obtain ⟨k, hstop⟩ := rewritePages_stops (rewriteSlot_readOnly _ _ _ _)
    (rewriteSlot_keepsPages _ _ _ _) hp hrun
  rw [← hpages] at hstop
  refine ⟨k, hstop, ?_, fun hr hw => hstop.rewrites hr hkind hfind hw⟩
  rintro rfl
  have hselect : ∀ {w : Engine}, Engine.Inv (fun _ _ => True) w →
      w.catalog.findTable pr.statement.tableName = some t →
      (execSelect (selectStar pr.statement.tableName) w).1 = do
        let rows ← selectFrom (fun row =>
          whereMatches (selectStar pr.statement.tableName) row t.columnNames) (w.stored t)
        return { columns := t.columnNames, rows := rows } := fun h hfind => h.select_eq hfind
  rw [hselect hinv hfind, hselect hinv' (by rw [hcat, hfind]), Engine.stored, Engine.stored,
    hstop.eq_of_one]

/-! ### A table with two data pages -/

/-- A table whose rows can be so long that a page holds one of them. -/
def wideTable : TableSchema where
  tableName := str "u"
  columns := [
    { name := str "a", type := .integer, textLength := 255 },
    { name := str "b", type := .text, textLength := 4000 }]
  filePath := str "u.ms"

/-- A text of which one fits into a page, and two do not. -/
def wideText : Str := List.replicate 3000 97

/-- `INSERT INTO u VALUES (a, 'aaa...')` -/
def wideInsert (a : Int64) : ParseResult :=
  insertInto (str "u") [.literalInt a, .literalText wideText]

/-- The encoding of the row `(a, 'aaa...')`. -/
def wideBytes (a : Int64) : List UInt8 :=
  0 :: (toLE 8 a.toUInt64.toNat) ++ 0 :: (toLE 2 3000 ++ wideText)

theorem length_wideText : wideText.length = 3000 := List.length_replicate

theorem length_wideBytes (a : Int64) : (wideBytes a).length = 3012 := by
  simp [wideBytes, length_wideText]

theorem wide_textLimit : ColumnDefinition.textLimit
    { name := str "b", type := .text, textLength := 4000 } = 4000 := by decide

/-- A row of the table takes 12 bytes and its text. -/
theorem wide_encodedSize (a : Int64) {s : Str} (hs : s.length ≤ 4000) :
    encodedSize [.int a, .text s] wideTable.columns = .ok (12 + s.length) := by
  refine encodedSize_cons.2 ⟨9, 1 + (2 + s.length), rfl,
    encodedSize_cons.2 ⟨1 + (2 + s.length), 0, ?_, rfl, rfl⟩, by omega⟩
  simp only [fieldSize, wide_textLimit]
  rw [if_neg (by omega)]

theorem wide_serialize (a : Int64) :
    serializeRow [.int a, .text wideText] wideTable.columns = .ok (wideBytes a) := by
  have hint : fieldBytes { name := str "a", type := .integer, textLength := 255 } (.int a) =
      .ok (0 :: toLE 8 a.toUInt64.toNat) := rfl
  have htext : fieldBytes { name := str "b", type := .text, textLength := 4000 } (.text wideText) =
      .ok (0 :: (toLE 2 3000 ++ wideText)) := by
    simp only [fieldBytes, length_wideText]
    rw [Nat.mod_eq_of_lt (by decide), List.take_of_length_le length_wideText.le]
  have hsize : encodedSize [.int a, .text wideText] wideTable.columns = .ok 3012 := by
    rw [wide_encodedSize a (length_wideText ▸ by decide), length_wideText]
  refine serializeRow_eq_ok.2 ⟨rfl, 3012, wideBytes a, hsize, ?_, ?_⟩
  · exact encodeFields_cons.2 ⟨_, _, hint, encodeFields_cons.2 ⟨_, [], htext, rfl, rfl⟩, by
      rw [List.append_nil, wideBytes]⟩
  · rw [length_wideBytes, Nat.sub_self, List.replicate_zero, List.append_nil]

/-- The row `(1, 'aaa...')`. -/
def wideOne : Engine := (newEngine wideTable).after (wideInsert 1)

/-- The rows `(1, 'aaa...')` and `(0, 'aaa...')`, each on a page of its own. -/
def wideTwo : Engine := wideOne.after (wideInsert 0)

/-- `DELETE FROM u WHERE 10 / a = 10` -/
def wideDelete : ParseResult where
  expressions := [.literalInt 10, .columnRef [] (str "a"), .binary .divide 0 1, .binary .equal 2 0]
  statement := { kind := .delete, tableName := str "u", whereIndex := 3 }

theorem wideOne_oneRow : OneRow wideOne wideTable [.int 1, .text wideText] (wideBytes 1) :=
  oneRow (by decide) rfl rfl rfl (wide_serialize 1) (length_wideBytes 1 ▸ by decide)
    (length_wideBytes 1 ▸ by decide)

theorem wideTwo_inserted : EncodesWithin (wideInsert 0) wideOne ∧
    Engine.Inserted wideOne wideTable [.int 0, .text wideText] (wideBytes 0) wideTwo := by
  have hone := wideOne_oneRow
  have hfind : wideOne.catalog.findTable (wideInsert 0).statement.tableName = some wideTable :=
    hone.find
  have hrow : rowFromInsertValues (wideInsert 0) wideTable.columns =
      .ok [.int 0, .text wideText] := rfl
  refine hone.reachable.insert rfl hfind hrow (wide_serialize 0) ?_ ?_ ?_ ?_
  · rw [length_wideBytes]
    decide
  · rw [length_wideBytes]
    decide
  · intro pk v hpk
    cases hpk
  · rw [hone.pages_eq, hone.limit_eq]
    decide

theorem wideTwo_reachable : Reachable EncodesWithin wideTwo :=
  .execute wideOne_oneRow.reachable _ wideTwo_inserted.1

theorem wideTwo_find : wideTwo.catalog.findTable (str "u") = some wideTable := by
  rw [wideTwo_inserted.2.catalog_eq]
  exact wideOne_oneRow.find

/-- Two such rows do not fit into one page. -/
theorem wide_noRoom :
    ¬HasRoom (insertedInto (Page.init 1).data (wideBytes 1)) (wideBytes 0).length := by
  decide +kernel

theorem wideTwo_pages : wideTwo.pages wideTable =
    [(Page.init 0).data, insertedInto (Page.init 1).data (wideBytes 1),
      insertedInto (Page.init 2).data (wideBytes 0)] := by
  have hstored := wideTwo_inserted.2.stored
  rw [wideOne_oneRow.pages_eq] at hstored
  rw [hstored.eq_append fun k b hk hb => (getElem?_pair hk hb).2 ▸ wide_noRoom]
  rfl

/-- The statement on the pages of the table. -/
def wideRun : Except (Failure ExecError) ℕ × List (Block pageSize) :=
  deleteRows (pageArray maxFileSize) wideDelete wideTable.columns
    [(Page.init 0).data, insertedInto (Page.init 1).data (wideBytes 1),
      insertedInto (Page.init 2).data (wideBytes 0)]

/-- What it returns and the rows that it leaves. -/
theorem wideRun_eq : (wideRun.1, (liveRows wideTable.columns wideRun.2).map (·[0]?)) =
    (.error (.error .divisionByZero), [some (.int 0)]) := by
  decide +kernel

theorem wideRun_fails : wideRun.1 = .error (.error .divisionByZero) :=
  (Prod.mk.inj wideRun_eq).1

theorem wideRun_rows : (liveRows wideTable.columns wideRun.2).map (·[0]?) = [some (.int 0)] :=
  (Prod.mk.inj wideRun_eq).2

theorem wide_rows : (liveRows wideTable.columns [(Page.init 0).data,
    insertedInto (Page.init 1).data (wideBytes 1),
    insertedInto (Page.init 2).data (wideBytes 0)]).map (·[0]?) =
      [some (.int 1), some (.int 0)] := by
  decide +kernel

theorem wideTwo_ran : (execDelete wideDelete wideTwo).1 = .error (.error .divisionByZero) ∧
    Engine.Changes wideTwo (str "u") wideTable.filePath wideRun.2
      (execDelete wideDelete wideTwo).2 := by
  have hfind : wideTwo.catalog.findTable wideDelete.statement.tableName = some wideTable :=
    wideTwo_find
  have hlimit : wideTwo.fs.limit = maxFileSize :=
    wideTwo_inserted.2.limit_eq.trans wideOne_oneRow.limit_eq
  obtain ⟨hr, hc⟩ := (wideTwo_reachable.good.runs_delete wideDelete).ran_of_find hfind
  rw [wideTwo_pages, hlimit] at hr hc
  exact ⟨hr.trans wideRun_fails, hc⟩

/-- The DELETE divides by zero on the second row. -/
theorem failed_rewrite_stops_wide :
    ∃ k, StoppedAt (rewriteSlot wideTwo.fs.limit serializeRow wideDelete wideTable.columns)
        (wideTwo.pages wideTable) ((wideTwo.after wideDelete).pages wideTable) k ∧
      (k = 1 → (execSelect (selectStar (str "u")) (wideTwo.after wideDelete)).1 =
        (execSelect (selectStar (str "u")) wideTwo).1) ∧
      (Reachable EncodesWithin wideTwo → EncodesWithin wideDelete wideTwo →
        ∃ n, Rewrites (rewriteAction wideDelete wideTable.columns)
          (liveRows wideTable.columns ((wideTwo.pages wideTable).take k))
          (liveRows wideTable.columns (((wideTwo.after wideDelete).pages wideTable).take k))
          n) := by
  have hfind : wideTwo.catalog.findTable wideDelete.statement.tableName = some wideTable :=
    wideTwo_find
  refine failed_rewrite_stops (wideTwo_reachable.mono fun _ _ _ => trivial) (.inr rfl) hfind ?_
  intro r hr
  rw [execute, executeWith_delete_error rfl wideTwo_ran.1] at hr
  cases hr
  rfl

/-- The row on the first data page has been deleted when the DELETE fails on the second. -/
theorem failed_delete_loses_row :
    ¬∀ w pr t, Reachable anyStatement w →
      pr.statement.kind = .update ∨ pr.statement.kind = .delete →
      w.catalog.findTable pr.statement.tableName = some t →
      (∀ r, (execute pr w).1 = .ok r → r.success = false) →
      (execSelect (selectStar pr.statement.tableName) (w.after pr)).1 =
        (execSelect (selectStar pr.statement.tableName) w).1 := by
  intro hkeeps
  have hfind : wideTwo.catalog.findTable wideDelete.statement.tableName = some wideTable :=
    wideTwo_find
  obtain ⟨hfails, hc⟩ := wideTwo_ran
  have hrun : execute wideDelete wideTwo = _ := executeWith_delete_error rfl hfails
  have hwithin : EncodesWithin wideDelete wideTwo := by
    rw [EncodesWithin, executeWith_delete_error rfl hfails]
    intro hc
    cases hc
  have hinv := (wideTwo_reachable.execute wideDelete hwithin).good
  have hfind' : (wideTwo.after wideDelete).catalog.findTable (str "u") = some wideTable := by
    rw [Engine.after_delete rfl, hc.catalog_eq, wideTwo_find]
  have hsame : (execSelect (selectStar (str "u")) (wideTwo.after wideDelete)).1 =
      (execSelect (selectStar (str "u")) wideTwo).1 := by
    refine hkeeps wideTwo wideDelete wideTable (wideTwo_reachable.mono fun _ _ _ => trivial)
      (.inr rfl) hfind fun r hr => ?_
    rw [hrun] at hr
    cases hr
    rfl
  have hrows : (wideTwo.after wideDelete).rows wideTable = wideTwo.rows wideTable :=
    wideTwo_reachable.good.rows_eq hinv wideTwo_find hfind' hsame
  -- one row is left of the two
  have hafter : ((wideTwo.after wideDelete).rows wideTable).map (·[0]?) = [some (.int 0)] := by
    rw [Engine.rows, Engine.after_delete rfl, hc.pages_eq, wideRun_rows]
  have hbefore : (wideTwo.rows wideTable).map (·[0]?) = [some (.int 1), some (.int 0)] := by
    rw [Engine.rows, wideTwo_pages]
    exact wide_rows
  rw [hrows, hbefore] at hafter
  cases hafter

end MicroSql
