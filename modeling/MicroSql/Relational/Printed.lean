import MicroSql.Prompt.Output
import MicroSql.Relational.Rows
import MicroSql.Relational.Transcript

/-!
# What is printed of the answers

The rows that a SELECT returns are whole rows of the table, whatever columns it names.
`printResult` takes the widths by the positions in a row, so it overruns them if a SELECT names
fewer columns than the table has; and if it names more, the lines of the rows are too short.
-/

namespace MicroSql

open Lib Engine Prompt

/-! ### Printing one answer -/

/-- The answer to the command has rows that are longer than its header. -/
inductive Overruns : Command → Option Relation → Prop
  | select {table : Str} {columns : List Str} {condition : Option Tree} {r : Relation} {row : Row}
      (hne : columns ≠ []) (hlt : columns.length < r.columns.length)
      (hdecides : Decides condition columns r.rows) (hrow : row ∈ r.rows)
      (hpicked : holds condition columns row = .ok true) :
      Overruns (.select table columns condition) (some r)

/-- Every row of the result has a value for each of its columns. -/
def Result.Tidy (result : Result) : Prop :=
  ∀ row ∈ result.rows, row.length = result.columns.length

section Printing

variable (formatDouble : Double → Str) (displayWidth : Str → ℕ) {command : Command}
  {r r' : Option Relation} {answer : Except (Failure ExecError) Result} {result : Result}

/-- Only SELECT returns a table. -/
theorem Answers.result_cases (h : Answers command r answer r')
    (hok : resultOf answer = .ok result) :
    result.columns = [] ∧ result.rows = [] ∨ ∃ table columns condition x,
      command = .select table columns condition ∧ r = some x ∧
        x.select columns condition = .ok result := by
  rcases answer with (e | f) | result'
  · cases hok
    exact .inl ⟨rfl, rfl⟩
  · cases hok
  · obtain rfl : result' = result := Except.ok.inj hok
    generalize hanswer : (.ok result' : Except (Failure ExecError) Result) = answer at h
    cases h with
    | select table columns condition x =>
      exact .inr ⟨table, columns, condition, x, rfl, rfl, rfl⟩
    | @delete _ _ _ out =>
      rcases out with e | n <;> cases hanswer
      exact .inl ⟨rfl, rfl⟩
    | @update _ _ _ _ out =>
      rcases out with e | n <;> cases hanswer
      exact .inl ⟨rfl, rfl⟩
    | inserted | created | dropped =>
      cases hanswer
      exact .inl ⟨rfl, rfl⟩
    | _ => cases hanswer

/-- When the widths are overrun. -/
theorem Answers.printResult_error (h : Answers command r answer r')
    (hr : ∀ x, r = some x → x.Whole) (hok : resultOf answer = .ok result) :
    (∃ f, printResult formatDouble displayWidth result = .error f) ↔ Overruns command r := by
  have hfails : (∃ f, printResult formatDouble displayWidth result = .error f) ↔
      result.Overruns := by
    simp only [printResult_eq_error, exists_eq_left]
  rw [hfails]
  constructor
  · rintro ⟨-, hne, row, hrow, hlt⟩
    rcases h.result_cases hok with ⟨hcolumns, -⟩ | ⟨table, columns, condition, x, rfl, rfl, hselect⟩
    · exact absurd hcolumns hne
    obtain ⟨hdecides, rfl⟩ := Relation.select_eq_ok.1 hselect
    obtain ⟨hrow, hpicked⟩ := List.mem_filter.1 hrow
    have hlen : row.length = x.columns.length := hr x rfl row hrow
    have hcolumns : columns ≠ [] := by
      rintro rfl
      have hnames : (resultNames [] x.names).length = x.columns.length := List.length_map _
      dsimp only at hlt
      omega
    have hnames : resultNames columns x.names = columns := if_neg hcolumns
    rw [hnames] at hdecides hpicked hlt
    exact .select hcolumns (hlen ▸ hlt) hdecides hrow (of_decide_eq_true hpicked)
  · intro hoverruns
    cases hoverruns with
    | @select table columns condition x row hne hlt hdecides hrow hpicked =>
      have hnames : resultNames columns x.names = columns := if_neg hne
      have hselect : x.select columns condition = .ok _ :=
        Relation.select_eq_ok.2 ⟨by rwa [hnames], rfl⟩
      cases h with
      | select =>
        rw [hselect] at hok
        cases hok
        rw [hnames]
        refine ⟨rfl, hne, row, List.mem_filter.2 ⟨hrow, decide_eq_true hpicked⟩, ?_⟩
        rwa [hr x rfl row hrow]

/-- The rows of `SELECT *` are as long as its header. -/
theorem Answers.tidy (h : Answers command r answer r') (hr : ∀ x, r = some x → x.Whole)
    (hok : resultOf answer = .ok result)
    (hstar : ∀ table columns condition, command = .select table columns condition → columns = []) :
    result.Tidy := by
  intro row hrow
  rcases h.result_cases hok with ⟨-, hrows⟩ | ⟨table, columns, condition, x, rfl, rfl, hselect⟩
  · rw [hrows] at hrow
    cases hrow
  obtain rfl : columns = [] := hstar table columns condition rfl
  obtain ⟨-, rfl⟩ := Relation.select_eq_ok.1 hselect
  have hnames : (resultNames [] x.names).length = x.columns.length := List.length_map _
  exact (hr x rfl row (List.mem_of_mem_filter hrow)).trans hnames.symm

/-- A tidy result can be printed. -/
theorem Result.Tidy.printResult (h : result.Tidy) :
    ∃ text, Prompt.printResult formatDouble displayWidth result = .ok text := by
  rcases hprint : Prompt.printResult formatDouble displayWidth result with f | text
  · obtain ⟨-, -, -, row, hrow, hlt⟩ := (printResult_eq_error formatDouble displayWidth).1 hprint
    exact absurd (h row hrow) hlt.ne'
  · exact ⟨text, rfl⟩

theorem screen_of_tidy {printed : List (Str ⊕ Result)}
    (h : ∀ result, .inr result ∈ printed → Result.Tidy result) :
    ∃ text, screen formatDouble displayWidth printed = .ok text := by
  have hall : ∃ texts, List.Forall₂
      (fun x text => shown formatDouble displayWidth x = .ok text) printed texts :=
    exists_forall₂ fun x hx => by
      cases x with
      | inl error => exact ⟨_, rfl⟩
      | inr result => exact (h result hx).printResult formatDouble displayWidth
  obtain ⟨texts, htexts⟩ := hall
  exact ⟨texts.flatten, by rw [screen, mapM_eq_ok.2 htexts]; rfl⟩

end Printing

/-- **When printing an answer goes wrong.**  On every engine that a run reaches, take a statement
that stands for a command and returns a result.  `printResult` writes past the end of the widths
exactly if the statement is a SELECT that names columns, but fewer than the table has, and whose
condition is true on a row and has a value on all. -/
theorem execute_overruns_iff {w : Engine} (h : Reachable EncodesWithin w) {pr : ParseResult}
    {command : Command} (hc : Denotes pr command) (hwithin : EncodesWithin pr w) {result : Result}
    (hok : (execute pr w).1 = .ok result) (formatDouble : Double → Str) (displayWidth : Str → ℕ) :
    (∃ f, printResult formatDouble displayWidth result = .error f) ↔
      Overruns command (w.database command.table) := by
  have hstep := h.good.execute_answers (fun t => h.good.withinOn hwithin) hc
  generalize (execute pr w).2.database = db at hstep
  generalize (execute pr w).1 = out at hstep hok
  obtain ⟨hanswers⟩ := hstep
  exact hanswers.printResult_error formatDouble displayWidth (h.whole command.table) hok

/-- `SELECT a FROM t` -/
def sampleNarrow : ParseResult where
  expressions := [.columnRef [] (str "a")]
  statement := { kind := .select, tableName := str "t", selectColumns := [0] }

theorem sampleNarrow_denotes : Denotes sampleNarrow (.select (str "t") [str "a"] none) :=
  .select rfl (.cons ⟨_, ⟨le_rfl, rfl⟩, rfl⟩ .nil) (.none rfl)

theorem execute_overruns_sample : ∃ result, (execute sampleNarrow sampleTwo).1 = .ok result ∧
    ∃ f, printResult (fun _ => []) List.length result = .error f := by
  have hwithin : EncodesWithin sampleNarrow sampleTwo :=
    sampleTwo_reachable.encodesWithin sampleNarrow_denotes fun hkind => by
      rcases hkind with hkind | hkind <;> cases hkind
  have hdecides : Decides none [str "a"] [[.int 1, .int 10], [.int 2, .int 20]] :=
    fun row _ => ⟨true, rfl⟩
  have hselect : Relation.select ⟨sampleTable.columns, _⟩ [str "a"] none = .ok _ :=
    Relation.select_eq_ok.2 ⟨hdecides, rfl⟩
  have hok := sampleTwo_reachable.select_answers sampleNarrow_denotes sampleTwo_database
  rw [hselect] at hok
  refine ⟨_, hok, (execute_overruns_iff sampleTwo_reachable sampleNarrow_denotes hwithin hok _
    _).2 ?_⟩
  rw [show (Command.select (str "t") [str "a"] none).table = str "t" from rfl, sampleTwo_database]
  exact .select (by decide) (by decide) hdecides List.mem_cons_self rfl

/-! ### Printing sessions -/

section Sessions

variable (stof : Str → Except Halt Double) (textLength : ℕ → Int32)

/-- A SELECT is `SELECT *`. -/
def StarOnly (query : Str) : Prop := ∀ pr, Reads stof textLength query (.ok pr) →
  pr.error = [] → pr.statement.kind = .select → pr.statement.selectColumns = []

variable {stof textLength} {db db' : Database}

/-- The result of a query without a list of columns is tidy. -/
theorem StarOnly.tidy {query : Str} (h : StarOnly stof textLength query) {pr : ParseResult}
    (hread : Reads stof textLength query (.ok pr)) (herror : pr.error = []) {command : Command}
    (hc : Denotes pr command) {result : Result} (hdb : db.Whole)
    (hstep : Database.Step db command (.ok result) db') : result.Tidy := by
  obtain ⟨answer, hout, hanswers⟩ := hstep.exists_answers
  refine hanswers.tidy (hdb command.table) hout.symm ?_
  rintro table columns condition rfl
  cases hc with
  | select hkind hcolumns =>
    rw [h pr hread herror hkind] at hcolumns
    cases hcolumns
    rfl

theorem Transcript.tidy {queries : List Str} {out : Except Halt Unit}
    {printed : List (Str ⊕ Result)} (h : Transcript stof textLength queries db out printed db')
    (hdb : db.Whole) (hstar : ∀ query ∈ queries, StarOnly stof textLength query) :
    db'.Whole ∧ ∀ result, .inr result ∈ printed → Result.Tidy result := by
  induction h with
  | done | hangs | failed => exact ⟨hdb, fun _ h => by cases h⟩
  | rejected hread herror _ ih =>
    obtain ⟨hwhole, htidy⟩ := ih hdb fun q hq => hstar q (List.mem_cons_of_mem _ hq)
    refine ⟨hwhole, fun result hresult => ?_⟩
    rcases List.mem_cons.1 hresult with heq | hresult
    · cases heq
    · exact htidy result hresult
  | answered hread herror hc hstep _ _ ih =>
    obtain ⟨hwhole, htidy⟩ := ih (hstep.whole hdb) fun q hq => hstar q (List.mem_cons_of_mem _ hq)
    refine ⟨hwhole, fun result' hresult => ?_⟩
    rcases List.mem_cons.1 hresult with heq | hresult
    · cases heq
      exact (hstar _ List.mem_cons_self).tidy hread herror hc hdb hstep
    · exact htidy result' hresult
  | overran hread herror hc hstep =>
    refine ⟨hstep.whole hdb, fun result' hresult => ?_⟩
    cases List.mem_singleton.1 hresult
    exact (hstar _ List.mem_cons_self).tidy hread herror hc hdb hstep
  | died _ _ _ hstep => exact ⟨hstep.whole hdb, fun _ h => by cases h⟩

theorem Transcripts.tidy {sessions : List (List Str)}
    {outs : List (Except Halt Unit × List (Str ⊕ Result))}
    (h : Transcripts stof textLength sessions db outs db') (hdb : db.Whole)
    (hstar : ∀ lines ∈ sessions, ∀ query ∈ queries [] lines, StarOnly stof textLength query) :
    ∀ out ∈ outs, ∀ result, .inr result ∈ out.2 → Result.Tidy result := by
  induction h with
  | nil => exact fun _ h => by cases h
  | cons h _ ih =>
    obtain ⟨hwhole, htidy⟩ := h.tidy hdb (hstar _ List.mem_cons_self)
    intro out hout
    rcases List.mem_cons.1 hout with rfl | hout
    · exact htidy
    · exact ih hwhole (fun ls hls => hstar ls (List.mem_cons_of_mem _ hls)) out hout

end Sessions

/-- **Sessions without a list of columns are printed.**  The program is started any number of
times, as in a transcript, and every SELECT in what is typed is `SELECT *`.  Then `printResult`
overruns no vector, and the lines of every table are of one length, as far as the library takes
the width of each text to be its number of bytes. -/
theorem sessions_print {fs : FileSystem} (hempty : fs.files Catalog.path = none)
    (hread : fs.mayRead Catalog.path = true) (hwrite : fs.mayWrite Catalog.path = true)
    {stof : Str → Except Halt Double} (hstof : ∀ text, stof text ≠ .error .outOfFuel)
    {textLength : ℕ → Int32} {fuel : ℕ} {sessions : List (List Str)}
    (hsessions : ∀ lines ∈ sessions, ∀ query ∈ queries [] lines,
      Followed fuel stof textLength query)
    (hstar : ∀ lines ∈ sessions, ∀ query ∈ queries [] lines, StarOnly stof textLength query)
    (formatDouble : Double → Str) (displayWidth : Str → ℕ) :
    ∀ out ∈ runSessions formatDouble displayWidth fuel stof textLength fs sessions,
      (∃ text, screen formatDouble displayWidth out.2 = .ok text) ∧
        ∀ result, .inr result ∈ out.2 → Plain formatDouble displayWidth result →
          ∃ lines n, tableLines formatDouble displayWidth result = .ok lines ∧
            lines.length = result.rows.length + 4 ∧ ∀ line ∈ lines, line.length = n := by
  obtain ⟨db, htranscripts⟩ := (Ready.start hempty).run_sessions formatDouble displayWidth hstof
    hread hwrite hsessions
  intro out hout
  have htidy := htranscripts.tidy Database.whole_empty hstar out hout
  refine ⟨screen_of_tidy formatDouble displayWidth htidy, fun result hresult hplain => ?_⟩
  obtain ⟨lines, hlines, hcount, haligned⟩ := tableLines_aligned_iff formatDouble displayWidth
    (fun row hrow => (htidy result hresult row hrow).le) hplain
  obtain ⟨n, hn⟩ := haligned.2 (htidy result hresult)
  exact ⟨lines, n, hlines, hcount, hn⟩

theorem exists_mem_runSessions (formatDouble : Double → Str) (displayWidth : Str → ℕ) (fuel : ℕ)
    (stof : Str → Except Halt Double) (textLength : ℕ → Int32) (fs : FileSystem)
    (lines : List Str) (sessions : List (List Str)) : ∃ out,
      out ∈ runSessions formatDouble displayWidth fuel stof textLength fs (lines :: sessions) :=
  ⟨_, List.mem_cons_self⟩

theorem sessions_print_sample : ∃ out ∈ runSessions (fun _ => str "0") List.length 40
      (fun _ => .ok ⟨0⟩) (fun _ => 255) emptyDirectory sampleInput,
    (∃ text, screen (fun _ => str "0") List.length out.2 = .ok text) ∧
      ∀ result, .inr result ∈ out.2 → Plain (fun _ => str "0") List.length result →
        ∃ lines n, tableLines (fun _ => str "0") List.length result = .ok lines ∧
          lines.length = result.rows.length + 4 ∧ ∀ line ∈ lines, line.length = n := by
  obtain ⟨out, hout⟩ : ∃ out, out ∈ runSessions (fun _ => str "0") List.length 40
    (fun _ => .ok ⟨0⟩) (fun _ => 255) emptyDirectory sampleInput :=
      exists_mem_runSessions _ _ _ _ _ _ _ _
  have hstar : ∀ lines ∈ sampleInput, ∀ query ∈ queries [] lines,
      StarOnly (fun _ => .ok ⟨0⟩) (fun _ => 255) query := by
    intro lines hlines query hquery pr hread _ _
    exact ((sampleInput_reads (List.mem_flatMap.2 ⟨lines, hlines, hquery⟩)).2 pr hread).2
  exact ⟨out, hout, sessions_print rfl rfl rfl (fun _ h => by cases h)
    (fun _ hlines _ => sampleInput_followed hlines) hstar _ _ out hout⟩

end MicroSql
