import MicroSql.Parser.Ordered
import MicroSql.Prompt.Hangs
import MicroSql.Relational.Session

/-!
# Sessions on any input

The lines need not be printed commands.  Every statement that the parser accepts stands for a
command, unless it is an INSERT with a value missing; so a session goes through its queries as the
transcript of a database: an error of the parser is printed and changes nothing, and everything
else is an answer of the database.
-/

namespace MicroSql

open Lib Lexer Engine Prompt

/-! ### Accepted statements are commands -/

theorem parse_indexed {inp : Input} {fuel : ℕ} {pr : ParseResult} (h : parse fuel inp = .ok pr) :
    ∃ s : Parser, s.result = pr ∧ s.Indexed True := by
  unfold parse at h
  rcases hrun : Parser.parseStatement inp fuel {} with ⟨e | ⟨⟩, s⟩
  · rw [hrun] at h
    cases h
  rw [hrun] at h
  cases h
  refine ⟨s, rfl, ?_⟩
  by_cases hinsert : (inp.token 0).type = .insert
  · unfold Parser.parseStatement at hrun
    rw [Parser.current_bind] at hrun
    simp only [hinsert] at hrun
    exact (Parser.parseInsert_keeps fuel).ok (Parser.indexed_start True) hrun
  · have hindexed : s.Indexed False := (@Parser.parseStatement_keeps _ False fuel hinsert).ok
      ⟨Parser.indexed_start False, rfl⟩ hrun
    refine ⟨hindexed.select, fun i hi => .inr ?_, hindexed.assignments, hindexed.condition⟩
    exact (hindexed.values i hi).resolve_left fun hmissing => hmissing.1

/-- All values of an INSERT are there. -/
def ParseResult.Given (pr : ParseResult) : Prop := (-1 : ℤ) ∉ pr.statement.insertValues

/-- **Every statement without a dangling index stands for a command.** -/
theorem Parser.Indexed.exists_denotes {s : Parser} (h : s.Indexed True) (hgiven : s.result.Given) :
    ∃ command, Denotes s.result command := by
  have hcondition : ∃ condition, s.result.Condition condition := by
    rcases h.condition with hnone | ⟨t, ht⟩
    · exact ⟨none, .none hnone⟩
    · exact ⟨some t, .some ht⟩
  obtain ⟨condition, hcondition⟩ := hcondition
  cases hkind : s.result.statement.kind with
  | select =>
    obtain ⟨columns, hcolumns⟩ := exists_forall₂ (R := s.result.Names) fun i hi => by
      obtain ⟨t, expr, hi, -⟩ := h.select i hi
      exact ⟨expr.columnName, expr, hi, rfl⟩
    exact ⟨_, .select hkind hcolumns hcondition⟩
  | insert =>
    obtain ⟨values, hvalues⟩ := exists_forall₂ (R := s.result.Refers) fun i hi =>
      (h.values i hi).resolve_left fun hmissing => hgiven (hmissing.2 ▸ hi)
    exact ⟨_, .insert hkind hvalues⟩
  | update =>
    obtain ⟨assignments, hassignments⟩ := exists_forall₂ (R := s.result.Assigns) fun a ha => by
      obtain ⟨t, ht⟩ := h.assignments a ha
      exact ⟨(a.1, t), rfl, ht⟩
    exact ⟨_, .update hkind hassignments hcondition⟩
  | delete => exact ⟨_, .delete hkind hcondition⟩
  | createTable => exact ⟨_, .createTable hkind⟩
  | dropTable => exact ⟨_, .dropTable hkind⟩
  | createIndex | begin | commit | rollback =>
    exact ⟨_, .unsupported (by rw [hkind]; decide)⟩

/-- The statements that a session is followed through: the values are there, and the tables that
are made have short rows. -/
structure ParseResult.Supported (pr : ParseResult) : Prop where
  given : pr.Given
  short : pr.statement.kind = .createTable → rowLimit pr.statement.columnDefinitions < 65536

instance (pr : ParseResult) : Decidable pr.Supported :=
  decidable_of_iff ((-1 : ℤ) ∉ pr.statement.insertValues ∧ (pr.statement.kind = .createTable →
    rowLimit pr.statement.columnDefinitions < 65536)) ⟨fun h => ⟨h.1, h.2⟩, fun h => ⟨h.1, h.2⟩⟩

theorem ParseResult.Supported.short_of_denotes {pr : ParseResult} (h : pr.Supported)
    {command : Command} (hc : Denotes pr command) : command.Short := by
  cases hc with
  | createTable hkind => exact h.short hkind
  | _ => trivial

theorem exists_denotes_of_parseQuery {fuel : ℕ} {stof : Str → Except Halt Double}
    {textLength : ℕ → Int32} {query : Str} {pr : ParseResult}
    (h : parseQuery fuel stof textLength query = .ok pr) (hgiven : pr.Given) :
    ∃ command, Denotes pr command := by
  obtain ⟨tokens, -, h⟩ := bind_eq_ok.1 h
  split at h
  · obtain ⟨s, rfl, hindexed⟩ := parse_indexed h
    exact hindexed.exists_denotes hgiven
  · cases h

/-! ### Transcripts -/

section Transcripts

variable (stof : Str → Except Halt Double) (textLength : ℕ → Int32)

/-- What the lexer and the parser make of a query. -/
def Reads (query : Str) (r : Except Halt ParseResult) : Prop :=
  ∃ fuel, parseQuery fuel stof textLength query = r

/-- `Transcript queries db out printed db'`: a database that gets the queries prints `printed`, and
the session ends with `out`. -/
inductive Transcript :
    List Str → Database → Except Halt Unit → List (Str ⊕ Result) → Database → Prop
  | done (db : Database) : Transcript [] db (.ok ()) [] db
  | hangs {query : Str} {queries : List Str} {db : Database}
      (h : Hangs stof textLength query) :
      Transcript (query :: queries) db (.error .outOfFuel) [] db
  /-- an exception in the lexer or the parser -/
  | failed {query : Str} {queries : List Str} {db : Database} {f : Fault}
      (hread : Reads stof textLength query (.error (.fault f))) :
      Transcript (query :: queries) db (.error (.fault f)) [] db
  /-- the parser reports an error -/
  | rejected {query : Str} {queries : List Str} {db db' : Database} {out : Except Halt Unit}
      {printed : List (Str ⊕ Result)} {pr : ParseResult}
      (hread : Reads stof textLength query (.ok pr)) (herror : pr.error ≠ [])
      (rest : Transcript queries db out printed db') :
      Transcript (query :: queries) db out (.inl pr.error :: printed) db'
  | answered {query : Str} {queries : List Str} {db db' db'' : Database} {out : Except Halt Unit}
      {printed : List (Str ⊕ Result)} {pr : ParseResult} {command : Command} {result : Result}
      (hread : Reads stof textLength query (.ok pr)) (herror : pr.error = [])
      (hc : Denotes pr command) (hstep : Database.Step db command (.ok result) db')
      (hfits : ¬result.Overruns) (rest : Transcript queries db' out printed db'') :
      Transcript (query :: queries) db out (.inr result :: printed) db''
  /-- `printResult` writes past the end of the widths -/
  | overran {query : Str} {queries : List Str} {db db' : Database} {pr : ParseResult}
      {command : Command} {result : Result} (hread : Reads stof textLength query (.ok pr))
      (herror : pr.error = []) (hc : Denotes pr command)
      (hstep : Database.Step db command (.ok result) db') (hoverruns : result.Overruns) :
      Transcript (query :: queries) db (.error (.fault .outOfBounds)) [.inr result] db'
  /-- an exception in the executor -/
  | died {query : Str} {queries : List Str} {db db' : Database} {pr : ParseResult}
      {command : Command} {f : Fault} (hread : Reads stof textLength query (.ok pr))
      (herror : pr.error = []) (hc : Denotes pr command)
      (hstep : Database.Step db command (.error f) db') :
      Transcript (query :: queries) db (.error (.fault f)) [] db'

/-- One session after the other. -/
inductive Transcripts : List (List Str) → Database →
    List (Except Halt Unit × List (Str ⊕ Result)) → Database → Prop
  | nil (db : Database) : Transcripts [] db [] db
  | cons {lines : List Str} {sessions : List (List Str)} {db db' db'' : Database}
      {out : Except Halt Unit} {printed : List (Str ⊕ Result)}
      {outs : List (Except Halt Unit × List (Str ⊕ Result))}
      (h : Transcript stof textLength (queries [] lines) db out printed db')
      (rest : Transcripts sessions db' outs db'') :
      Transcripts (lines :: sessions) db ((out, printed) :: outs) db''

end Transcripts

section Running

variable {formatDouble : Double → Str} {displayWidth : Str → ℕ} {fuel : ℕ}
  {stof : Str → Except Halt Double} {textLength : ℕ → Int32} {access : Access} {w : Engine}
  {pr : ParseResult} {query : Str}

/-- The queries that a session is followed through, and enough rounds for them. -/
structure Followed (fuel : ℕ) (stof : Str → Except Halt Double) (textLength : ℕ → Int32)
    (query : Str) : Prop where
  length : query.length < 2 ^ 31
  fuel : query.length + 2 ≤ fuel
  supported : ∀ pr, Reads stof textLength query (.ok pr) → pr.error = [] → pr.Supported

theorem runQuery_unread {printed : List (Str ⊕ Result)} {e : Halt}
    (hparse : parseQuery fuel stof textLength query = .error e) :
    runQuery formatDouble displayWidth fuel stof textLength query { engine := w, printed } =
      (.error e, { engine := w, printed }) := by
  rw [runQuery, hparse]
  rfl

theorem runQuery_rejected {printed : List (Str ⊕ Result)}
    (hparse : parseQuery fuel stof textLength query = .ok pr) (herror : pr.error ≠ []) :
    runQuery formatDouble displayWidth fuel stof textLength query { engine := w, printed } =
      (.ok (), { engine := w, printed := printed ++ [.inl pr.error] }) := by
  rw [runQuery, hparse, Prog.lift_ok_bind_apply, if_pos herror]
  rfl

variable (formatDouble displayWidth) (hstof : ∀ text, stof text ≠ .error .outOfFuel)
include hstof

/-- A query that is not read ends the session. -/
theorem Followed.transcript_unread (h : Followed fuel stof textLength query) {e : Halt}
    (hread : parseQuery fuel stof textLength query = .error e) (queries : List Str)
    (db : Database) : Transcript stof textLength (query :: queries) db (.error e) [] db := by
  cases e with
  | outOfFuel =>
    exact .hangs ((parseQuery_outOfFuel_iff h.length hstof h.fuel).1 hread)
  | fault f => exact .failed ⟨fuel, hread⟩

/-- The queries of a session, one after the other. -/
theorem Ready.run_queries (hwrite : access.mayWrite Catalog.path = true) {queries : List Str}
    (hqueries : ∀ query ∈ queries, Followed fuel stof textLength query) (h : Ready access w)
    (printed : List (Str ⊕ Result)) :
    ∃ out w' new, queries.forM (runQuery formatDouble displayWidth fuel stof textLength)
        { engine := w, printed } = (out, { engine := w', printed := printed ++ new }) ∧
      Transcript stof textLength queries w.database out new w'.database ∧ Ready access w' := by
  induction queries generalizing w printed with
  | nil =>
    refine ⟨.ok (), w, [], ?_, .done _, h⟩
    rw [List.append_nil]
    rfl
  | cons query queries ih =>
    have hfollowed := hqueries query List.mem_cons_self
    have hrest := fun q hq => hqueries q (List.mem_cons_of_mem query hq)
    rw [forM_cons]
    rcases hread : parseQuery fuel stof textLength query with e | pr
    · refine ⟨.error e, w, [], ?_, hfollowed.transcript_unread hstof hread _ _, h⟩
      rw [Prog.bind_error (runQuery_unread hread), List.append_nil]
    by_cases herror : pr.error = []
    · have hsupported := hfollowed.supported pr ⟨fuel, hread⟩ herror
      obtain ⟨command, hc⟩ := exists_denotes_of_parseQuery hread hsupported.given
      obtain ⟨hstep, hready⟩ := h.execute hwrite (parsed_of_parseQuery hread herror) hc
        (hsupported.short_of_denotes hc)
      rcases hrun : (MicroSql.execute pr w).1 with f | result
      · rw [hrun] at hstep
        refine ⟨.error (.fault f), w.after pr, [], ?_, .died ⟨fuel, hread⟩ herror hc hstep,
          hready⟩
        rw [Prog.bind_error (runQuery_error hread herror hrun), List.append_nil]
      · rw [hrun] at hstep
        have hquery : runQuery formatDouble displayWidth fuel stof textLength query
            { engine := w, printed } = _ := runQuery_ok hread herror hrun
        by_cases hoverruns : result.Overruns
        · refine ⟨.error (.fault .outOfBounds), w.after pr, [.inr result], ?_,
            .overran ⟨fuel, hread⟩ herror hc hstep hoverruns, hready⟩
          rw [Prog.bind_error (hquery.trans (print_overruns hoverruns _))]
        · obtain ⟨out, w', new, hforM, htranscript, hready'⟩ :=
            ih hrest hready (printed ++ [.inr result])
          refine ⟨out, w', .inr result :: new, ?_, .answered ⟨fuel, hread⟩ herror hc hstep
            hoverruns htranscript, hready'⟩
          rw [Prog.bind_ok (hquery.trans (print_result hoverruns _)), hforM, List.append_assoc]
          rfl
    · obtain ⟨out, w', new, hforM, htranscript, hready'⟩ := ih hrest h (printed ++ [.inl pr.error])
      refine ⟨out, w', .inl pr.error :: new, ?_, .rejected ⟨fuel, hread⟩ herror htranscript,
        hready'⟩
      rw [Prog.bind_ok (runQuery_rejected hread herror), hforM, List.append_assoc]
      rfl

/-- One session. -/
theorem Ready.main_transcript (hread : access.mayRead Catalog.path = true)
    (hwrite : access.mayWrite Catalog.path = true) {lines : List Str}
    (hlines : ∀ query ∈ queries [] lines, Followed fuel stof textLength query)
    (h : Ready access w) :
    ∃ out w' printed, Prompt.main formatDouble displayWidth fuel stof textLength lines
        { engine := { fs := w.fs } } = (out, { engine := w', printed }) ∧
      Transcript stof textLength (queries [] lines) w.database out printed w'.database ∧
      Ready access w' := by
  obtain ⟨hload, hdatabase, hready⟩ := h.restart hread
  obtain ⟨out, w', new, hrun, htranscript, hready'⟩ :=
    hready.run_queries formatDouble displayWidth hstof hwrite hlines []
  rw [hdatabase] at htranscript
  refine ⟨out, w', new, ?_, htranscript, hready'⟩
  rw [Prompt.main, Prog.bind_ok hload, loop_eq, hrun, List.nil_append]

/-- All sessions. -/
theorem Ready.run_sessions (hread : access.mayRead Catalog.path = true)
    (hwrite : access.mayWrite Catalog.path = true) {sessions : List (List Str)}
    (hsessions : ∀ lines ∈ sessions, ∀ query ∈ queries [] lines,
      Followed fuel stof textLength query) (h : Ready access w) :
    ∃ db, Transcripts stof textLength sessions w.database
      (runSessions formatDouble displayWidth fuel stof textLength w.fs sessions) db := by
  induction sessions generalizing w with
  | nil => exact ⟨w.database, .nil _⟩
  | cons lines sessions ih =>
    obtain ⟨out, w', printed, hmain, htranscript, hready⟩ :=
      h.main_transcript formatDouble displayWidth hstof hread hwrite
        (hsessions lines List.mem_cons_self)
    obtain ⟨db, hrest⟩ := ih (fun ls hls => hsessions ls (List.mem_cons_of_mem lines hls)) hready
    refine ⟨db, ?_⟩
    rw [runSessions, hmain]
    exact .cons htranscript hrest

end Running

/-- **Whatever is typed, the sessions are the transcript of a database.**  The program is started
any number of times, in a directory that has no catalog at first, where the catalog file can be
read and written.  If every query is shorter than 2^31 bytes, and every statement that the parser
accepts is supported, one database answers the queries of all the sessions: the prompt hangs at a
query or is left by an exception, which ends the session, or it prints the parser's error and
nothing has changed, or the query is a command and the answer is that of the database.  An answer
with rows that are longer than its header ends the session too: `printResult` writes past the end
of a vector. -/
theorem sessions_transcribe {fs : FileSystem} (hempty : fs.files Catalog.path = none)
    (hread : fs.mayRead Catalog.path = true) (hwrite : fs.mayWrite Catalog.path = true)
    {stof : Str → Except Halt Double} (hstof : ∀ text, stof text ≠ .error .outOfFuel)
    {textLength : ℕ → Int32} {fuel : ℕ} {sessions : List (List Str)}
    (hsessions : ∀ lines ∈ sessions, ∀ query ∈ queries [] lines,
      Followed fuel stof textLength query) (formatDouble : Double → Str)
    (displayWidth : Str → ℕ) :
    ∃ db, Transcripts stof textLength sessions Database.empty
      (runSessions formatDouble displayWidth fuel stof textLength fs sessions) db := by
  obtain ⟨db, h⟩ := (Ready.start hempty).run_sessions formatDouble displayWidth hstof hread hwrite
    hsessions
  exact ⟨db, h⟩

/-- A statement on two lines, a syntax error, a value at which the parser stays, and a second
session that finds the table. -/
def sampleInput : List (List Str) :=
  [[str "CREATE TABLE t (a INTEGER,", str "b TEXT);", str "create tables;",
    str "INSERT INTO t VALUES (1, 'x');", str "INSERT INTO t VALUES (1, 'x);"],
   [str "SELECT * FROM t WHERE a = 1;", str "exit;", str "DROP TABLE t;"]]

example : sampleInput.map (queries []) =
    [[str "CREATE TABLE t (a INTEGER, b TEXT);", str "create tables;",
      str "INSERT INTO t VALUES (1, 'x');", str "INSERT INTO t VALUES (1, 'x);"],
     [str "SELECT * FROM t WHERE a = 1;"]] := by decide

/-- So many rounds decide what is read. -/
theorem reads_ok_iff {fuel : ℕ} {stof : Str → Except Halt Double} {textLength : ℕ → Int32}
    {query : Str} (hlength : query.length < 2 ^ 31) (hfuel : query.length + 2 ≤ fuel)
    (hstof : ∀ text, stof text ≠ .error .outOfFuel) {pr : ParseResult} :
    Reads stof textLength query (.ok pr) ↔ parseQuery fuel stof textLength query = .ok pr := by
  constructor
  · rintro ⟨n, hread⟩
    have hn : parseQuery n stof textLength query ≠ .error .outOfFuel := by
      rw [hread]
      rintro ⟨⟩
    rcases Nat.le_total n fuel with hle | hle
    · rw [parseQuery_mono hlength hle hn, hread]
    · have hfuel' : parseQuery fuel stof textLength query ≠ .error .outOfFuel := fun hout =>
        hn ((parseQuery_outOfFuel_iff hlength hstof (hfuel.trans hle)).2
          ((parseQuery_outOfFuel_iff hlength hstof hfuel).1 hout))
      rw [← parseQuery_mono hlength hle hfuel', hread]
  · exact fun h => ⟨fuel, h⟩

/-- A check of all queries, by what is read of them. -/
theorem sampleInput_reads {query : Str} (hquery : query ∈ sampleInput.flatMap (queries [])) :
    query.length ≤ 38 ∧ ∀ pr, Reads (fun _ => .ok ⟨0⟩) (fun _ => 255) query (.ok pr) →
      pr.Supported ∧ pr.statement.selectColumns = [] := by
  have hall : ((sampleInput.flatMap (queries [])).all fun query => decide (query.length ≤ 38) &&
      (parseQuery 40 (fun _ => .ok ⟨0⟩) (fun _ => 255) query).toOption.all fun pr =>
        decide (pr.Supported ∧ pr.statement.selectColumns = [])) = true := by decide +kernel
  obtain ⟨hlength, hread⟩ := (Bool.and_eq_true_iff).1 (List.all_eq_true.1 hall query hquery)
  have hshort : query.length ≤ 38 := of_decide_eq_true hlength
  refine ⟨hshort, fun pr hpr => ?_⟩
  rw [(reads_ok_iff (by omega) (by omega) fun _ h => by cases h).1 hpr] at hread
  exact of_decide_eq_true hread

theorem sampleInput_followed {lines : List Str} (hlines : lines ∈ sampleInput) {query : Str}
    (hquery : query ∈ queries [] lines) :
    Followed 40 (fun _ => .ok ⟨0⟩) (fun _ => 255) query := by
  obtain ⟨hshort, hreads⟩ := sampleInput_reads (List.mem_flatMap.2 ⟨lines, hlines, hquery⟩)
  exact ⟨by omega, by omega, fun pr hpr _ => (hreads pr hpr).1⟩

theorem sessions_transcribe_sample :
    ∃ db, Transcripts (fun _ => .ok ⟨0⟩) (fun _ => 255) sampleInput Database.empty
      (runSessions (fun _ => str "0") List.length 40 (fun _ => .ok ⟨0⟩) (fun _ => 255)
        emptyDirectory sampleInput) db :=
  sessions_transcribe rfl rfl rfl (fun _ h => by cases h)
    (fun _ hlines _ => sampleInput_followed hlines) _ _

end MicroSql
