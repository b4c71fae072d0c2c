import MicroSql.Engine.Restart
import MicroSql.Relational.Faults
import MicroSql.Relational.Text

/-!
# Sessions

A user types commands, one on a line, and starts the program again after it has ended, be it with
the input or by an exception.  What all the sessions print is a run of the database: the lexer,
the parser, the executor, the pages and the catalog file together answer as the relations do.
-/

namespace MicroSql

open Lib Lexer Engine Prompt

/-! ### The lines -/

/-- The texts that a line can have: the loop takes the first semicolon for the end of the
statement. -/
def lineText (s : Str) : Prop := ∀ b ∈ s, b ≠ quote ∧ b ≠ 0 ∧ b ≠ semicolon

/-- What the user types for a command. -/
def Command.line (command : Command) : Str := render command.print

section Lines

variable {t : TokenType × Str} {command : Command} {textLength : ℕ → Int32}

theorem not_mem_spelling {type : TokenType} {value : Str} (htype : type ≠ .stringLiteral)
    {p : UInt8 → Bool} (hp : p semicolon = false) (h : ∀ b ∈ value, p b = true) :
    semicolon ∉ spelling (type, value) := by
  rw [spelling_of_ne htype]
  intro hmem
  rw [h _ hmem] at hp
  cases hp

theorem Occurs.not_mem (h : Occurs lineText t) : semicolon ∉ spelling t := by
  cases h with
  | @keyword type value h =>
    have hall : ∀ e ∈ keywordMap, e.1.all (· != semicolon) = true := by decide
    exact not_mem_spelling (keyword_ne_text _ h).1 (p := (· != semicolon)) (by decide)
      (List.all_eq_true.1 (hall _ h))
  | operator h hother =>
    obtain ⟨type, value⟩ := t
    have hall : ∀ e ∈ operators, e.1 ≠ .semicolon → e.2.all (· != semicolon) = true := by decide
    exact not_mem_spelling (operator_ne_text _ h) (p := (· != semicolon)) (by decide)
      (List.all_eq_true.1 (hall _ h hother))
  | name h => exact not_mem_spelling (by decide) (by decide) h.word
  | @text s h =>
    rw [show spelling (.stringLiteral, s) = quote :: s ++ [quote] from rfl]
    simp only [List.mem_append, List.mem_cons, List.not_mem_nil, or_false, not_or]
    exact ⟨⟨by decide, fun hmem => (h _ hmem).2.2 rfl⟩, by decide⟩
  | @null s h =>
    have hkey : (str "NULL", TokenType.tknull) ∈ keywordMap := by decide
    exact not_mem_spelling (by decide) (by decide) (keyword_word hkey h).2
  | number => exact not_mem_spelling (by decide) (by decide) fun b hb =>
      Catalog.isDigit_of_mem_numeral hb

/-- No token in front of the last one brings a semicolon. -/
theorem not_mem_render {ts : List (TokenType × Str)} (h : ∀ t ∈ ts, semicolon ∉ spelling t) :
    semicolon ∉ render ts := by
  induction ts with
  | nil => exact List.not_mem_nil
  | cons t ts ih =>
    obtain ⟨rest, hrender, -, hnext⟩ := render_cons t ts
    rw [hrender, List.mem_append, not_or]
    refine ⟨h t List.mem_cons_self, ?_⟩
    rcases hnext with ⟨-, rfl⟩ | ⟨-, rfl⟩
    · exact List.not_mem_nil
    · rw [List.mem_cons, not_or]
      exact ⟨by decide, ih fun u hu => h u (List.mem_cons_of_mem t hu)⟩

/-- The last token after the others. -/
theorem render_snoc (ts : List (TokenType × Str)) (hne : ts ≠ []) (t : TokenType × Str) :
    render (ts ++ [t]) = render ts ++ ch ' ' :: spelling t := by
  induction ts with
  | nil => exact absurd rfl hne
  | cons u ts ih =>
    cases ts with
    | nil => rw [List.singleton_append, render_cons_cons, render_singleton, render_singleton]
    | cons v ts =>
      rw [List.cons_append, List.cons_append, render_cons_cons, render_cons_cons,
        ← List.cons_append, ih (List.cons_ne_nil v ts), List.append_assoc, List.cons_append]

/-- A line is a text without a semicolon, a blank and a semicolon; it begins with the keyword. -/
theorem Command.line_eq (hprintable : command.Printable textLength)
    (hwritable : command.Writable lineText) : ∃ a first rest, command.line = a ++ [semicolon] ∧
      semicolon ∉ a ∧ first ∈ statementKeywords ∧ a = first.2 ++ rest := by
  obtain ⟨first, body, hprint, hfirst, hoccur⟩ := exists_body hprintable hwritable
  obtain ⟨rest, hrest, -⟩ := render_cons first body
  have hspelling : spelling first = first.2 := by
    have hall : ∀ t ∈ statementKeywords, spelling t = t.2 := by decide
    exact hall first hfirst
  refine ⟨render (first :: body) ++ [ch ' '], first, rest ++ [ch ' '], ?_, ?_, hfirst, ?_⟩
  · rw [line, hprint, render_snoc _ (List.cons_ne_nil first body), List.append_assoc]
    rfl
  · rw [List.mem_append, not_or]
    exact ⟨not_mem_render fun t ht => (hoccur t ht).not_mem, by decide⟩
  · rw [hrest, hspelling, List.append_assoc]

/-- The loop takes a line for one query. -/
theorem Command.find_line (hprintable : command.Printable textLength)
    (hwritable : command.Writable lineText) : ∃ k, find command.line = some k ∧
      command.line.take (k + 1) = command.line ∧ command.line ≠ str "exit;" := by
  obtain ⟨a, first, rest, hline, ha, hfirst, hstart⟩ := line_eq hprintable hwritable
  refine ⟨a.length, ?_, ?_, ?_⟩
  · rw [hline, find, List.findIdx?_append, List.findIdx?_eq_none_iff.2 fun b hb => ?_]
    · simp [List.findIdx?_cons]
    · exact beq_eq_false_iff_ne.2 fun h => ha (h ▸ hb)
  · rw [hline]
    exact List.take_of_length_le (by simp)
  · have hall : ∀ t ∈ statementKeywords, t.2.head? ≠ some (ch 'e') ∧ t.2 ≠ [] := by decide
    obtain ⟨hhead, hne⟩ := hall first hfirst
    intro hexit
    apply hhead
    have hsame := congrArg List.head? hexit
    rw [hline, hstart, List.append_assoc, List.head?_append_of_ne_nil _ hne] at hsame
    exact hsame

/-- **The queries of a session are its lines.** -/
theorem queries_lines {commands : List Command}
    (h : ∀ c ∈ commands, c.Printable textLength ∧ c.Writable lineText) :
    queries [] (commands.map Command.line) = commands.map Command.line := by
  induction commands with
  | nil => rfl
  | cons c commands ih =>
    obtain ⟨hprintable, hwritable⟩ := h c List.mem_cons_self
    obtain ⟨k, hfind, htake, hexit⟩ := Command.find_line hprintable hwritable
    have hextend : extend [] c.line = c.line := rfl
    rw [List.map_cons, queries, hextend]
    dsimp only
    rw [hfind]
    dsimp only
    rw [htake, if_neg hexit, ih fun c' hc' => h c' (List.mem_cons_of_mem c hc')]

end Lines

/-! ### Rows that are short by their columns -/

/-- The tables that a command makes have short rows. -/
def Command.Short : Command → Prop
  | createTable _ columns => rowLimit columns < 65536
  | _ => True

/-- All relations have short rows. -/
def Database.Short (db : Database) : Prop := ∀ name r, db name = some r → ShortRows r.columns

theorem Answers.short {command : Command} {r r' : Option Relation}
    {answer : Except (Failure ExecError) Result} (h : Answers command r answer r')
    (hshort : command.Short) (hr : ∀ s, r = some s → ShortRows s.columns) :
    ∀ s, r' = some s → ShortRows s.columns := by
  cases h with
  | created table columns =>
    rintro s ⟨⟩
    exact shortRows_of_rowLimit hshort
  | missing | dropped =>
    rintro s ⟨⟩
  | refused => exact hr
  | inserted | delete | update | duplicate =>
    rintro s ⟨⟩
    have hcolumns := hr _ rfl
    exact hcolumns
  | _ => exact hr

theorem Database.Step.short {db db' : Database} {command : Command} {out : Except Fault Result}
    (h : Database.Step db command out db') (hshort : command.Short) (hdb : db.Short) :
    db'.Short := by
  obtain ⟨hanswers⟩ := h
  intro name r hr
  by_cases hname : name = command.table
  · subst hname
    rw [Function.update_self] at hr
    exact hanswers.short hshort (hdb command.table) r hr
  · rw [Function.update_of_ne hname] at hr
    exact hdb name r hr

/-! ### The engine of a session -/

/-- What the engine keeps between two commands, and from a session to the next one. -/
structure Ready (access : Access) (w : Engine) : Prop where
  reachable : Reachable EncodesWithin w
  sound : Sound access w
  saved : Saved w
  short : w.database.Short

namespace Ready

variable {access : Access} {w : Engine} {pr : ParseResult} {command : Command}

theorem start {fs : FileSystem} (hempty : fs.files Catalog.path = none) :
    Ready fs.access { fs := fs } where
  reachable := .start fs
  sound := .start fs
  saved := .start hempty
  short := by
    rintro name r ⟨⟩

theorem execute (h : Ready access w) (hwrite : access.mayWrite Catalog.path = true)
    (hparsed : Parsed pr) (hc : Denotes pr command) (hshort : command.Short) :
    Database.Step w.database command (MicroSql.execute pr w).1 (w.after pr).database ∧
      Ready access (w.after pr) := by
  have hwithin : EncodesWithin pr w := by
    refine h.reachable.encodesWithin hc fun _ t hfind => ?_
    refine h.short pr.statement.tableName (StoredTable.relation ⟨t, w.pages t⟩) ?_
    rw [database, tableAt_some hfind]
    rfl
  have hstep : Database.Step w.database command (MicroSql.execute pr w).1
      (w.after pr).database :=
    h.reachable.good.execute_answers (fun t => h.reachable.good.withinOn hwithin) hc
  have hmayWrite : w.fs.mayWrite Catalog.path = true := by
    have haccess := congrArg Access.mayWrite h.sound.access_eq
    exact (congrFun haccess Catalog.path).trans hwrite
  exact ⟨hstep, h.reachable.execute pr hwithin, h.sound.run [pr],
    h.saved.step hmayWrite hparsed.loadable (h.sound.inv.keepsCatalog pr),
    hstep.short hshort h.short⟩

/-- A new session finds the tables. -/
theorem restart (h : Ready access w) (hread : access.mayRead Catalog.path = true) :
    Prompt.load { engine := { fs := w.fs } } = (.ok (), { engine := w.restart }) ∧
      w.restart.database = w.database ∧ Ready access w.restart := by
  have hmayRead : w.fs.mayRead Catalog.path = true := by
    have haccess := congrArg Access.mayRead h.sound.access_eq
    exact (congrFun haccess Catalog.path).trans hread
  have hload := h.saved.load hmayRead
  have hcatalog : w.restart.catalog = w.catalog := by
    rw [Engine.restart]
    rcases hload with hload | ⟨hload, hnone⟩
    · rw [hload]
    · rw [hload, hnone]
  have hdatabase : w.restart.database = w.database := by
    funext name
    rw [database, database, restart_tableAt hcatalog]
  have hreachable : Reachable EncodesWithin w.restart := by
    rcases hload with hload | ⟨hload, -⟩
    · have hrestart : w.restart = { catalog := w.catalog, fs := w.fs } := by
        rw [Engine.restart, hload]
      rw [hrestart]
      exact h.reachable.reopen hload
    · have hrestart : w.restart = { fs := w.fs } := by
        rw [Engine.restart, hload]
      rw [hrestart]
      exact .start w.fs
  have hsaved : Saved w.restart := by
    refine ⟨?_, ?_⟩
    · rw [hcatalog]
      exact h.saved.loadable
    · rw [hcatalog]
      exact h.saved.saved
  refine ⟨?_, hdatabase, hreachable, h.sound.restart hcatalog, hsaved, ?_⟩
  · rw [Prompt.load, Engine.restart]
    dsimp only
    rcases hload with hload | ⟨hload, -⟩ <;> rw [hload]
  · rw [hdatabase]
    exact h.short

end Ready

/-! ### What a session prints -/

/-- `Answered commands out printed l`: a session that ends with `out` prints the results of `l`,
and `l` has the commands in their order, up to the one that raises an exception or whose result has
rows that are longer than its header. -/
inductive Answered : List Command → Except Halt Unit → List (Str ⊕ Result) →
    List (Command × Except Fault Result) → Prop
  | done : Answered [] (.ok ()) [] []
  | printed {command : Command} {commands : List Command} {out : Except Halt Unit}
      {printed : List (Str ⊕ Result)} {l : List (Command × Except Fault Result)} {result : Result}
      (hfits : ¬result.Overruns) (rest : Answered commands out printed l) :
      Answered (command :: commands) out (.inr result :: printed) ((command, .ok result) :: l)
  /-- `printResult` writes past the end of the widths -/
  | overran {command : Command} {commands : List Command} {result : Result}
      (hoverruns : result.Overruns) :
      Answered (command :: commands) (.error (.fault .outOfBounds)) [.inr result]
        [(command, .ok result)]
  | died (command : Command) (commands : List Command) (f : Fault) :
      Answered (command :: commands) (.error (.fault f)) [] [(command, .error f)]

/-- The same for one session after the other. -/
inductive AllAnswered : List (List Command) → List (Except Halt Unit × List (Str ⊕ Result)) →
    List (Command × Except Fault Result) → Prop
  | nil : AllAnswered [] [] []
  | cons {commands : List Command} {sessions : List (List Command)} {out : Except Halt Unit}
      {printed : List (Str ⊕ Result)} {outs : List (Except Halt Unit × List (Str ⊕ Result))}
      {l l' : List (Command × Except Fault Result)} (h : Answered commands out printed l)
      (rest : AllAnswered sessions outs l') :
      AllAnswered (commands :: sessions) ((out, printed) :: outs) (l ++ l')

/-- The program is started for each list of lines, in the directory that the one before has
left. -/
def runSessions (formatDouble : Double → Str) (displayWidth : Str → ℕ) (fuel : ℕ)
    (stof : Str → Except Halt Double) (textLength : ℕ → Int32) :
    FileSystem → List (List Str) → List (Except Halt Unit × List (Str ⊕ Result))
  | _, [] => []
  | fs, lines :: rest =>
    let (out, s) :=
      main formatDouble displayWidth fuel stof textLength lines { engine := { fs := fs } }
    (out, s.printed) ::
      runSessions formatDouble displayWidth fuel stof textLength s.engine.fs rest

/-- A command that can be typed. -/
structure Command.Typeable (textLength : ℕ → Int32) (command : Command) : Prop where
  printable : command.Printable textLength
  writable : command.Writable lineText
  length : command.line.length < 2 ^ 31
  short : command.Short

theorem Tree.Writable.mono {text text' : Str → Prop} (h : ∀ s, text s → text' s) {t : Tree}
    (ht : t.Writable text) : t.Writable text' := by
  induction t with
  | leaf expr =>
    cases expr with
    | literalText s => exact h s ht
    | _ => exact ht
  | binary op left right ihl ihr => exact ⟨ihl ht.1, ihr ht.2⟩
  | unary op t ih => exact ih ht

theorem Command.Writable.mono {text text' : Str → Prop} (h : ∀ s, text s → text' s)
    {command : Command} (hc : command.Writable text) : command.Writable text' := by
  cases command with
  | select table columns condition => exact ⟨hc.1, hc.2.1, fun t ht => (hc.2.2 t ht).mono h⟩
  | insert table names values => exact ⟨hc.1, hc.2.1, fun t ht => (hc.2.2 t ht).mono h⟩
  | update table assignments condition =>
    exact ⟨hc.1, fun a ha => ⟨(hc.2.1 a ha).1, (hc.2.1 a ha).2.mono h⟩,
      fun t ht => (hc.2.2 t ht).mono h⟩
  | delete table condition => exact ⟨hc.1, fun t ht => (hc.2 t ht).mono h⟩
  | createTable | dropTable | unsupported => exact hc

/-! ### Running a session -/

section Running

variable {formatDouble : Double → Str} {displayWidth : Str → ℕ} {fuel : ℕ}
  {stof : Str → Except Halt Double} {textLength : ℕ → Int32} {access : Access} {w : Engine}
  {pr : ParseResult} {command : Command}

theorem parsed_of_parseQuery {query : Str} (h : parseQuery fuel stof textLength query = .ok pr)
    (herror : pr.error = []) : Parsed pr := by
  obtain ⟨tokens, htokens, h⟩ := bind_eq_ok.1 h
  split at h
  · next hne => exact ⟨query, fuel, fuel, ⟨tokens, hne, stof, textLength⟩, htokens, h, herror⟩
  · cases h

variable (stof) in
/-- A line is read as its command. -/
theorem Command.Typeable.parseQuery_line (h : command.Typeable textLength)
    (hfuel : command.rounds ≤ fuel) : ∃ pr,
      parseQuery fuel stof textLength command.line = .ok pr ∧ pr.error = [] ∧ Parsed pr ∧
        Denotes pr command := by
  have hplain : command.Writable plainText :=
    h.writable.mono fun s hs b hb => ⟨(hs b hb).1, (hs b hb).2.1⟩
  obtain ⟨pr, hparse, herror, hdenotes, -⟩ :=
    parseQuery_render h.printable hplain h.length stof hfuel
  exact ⟨pr, hparse, herror, parsed_of_parseQuery hparse herror, hdenotes⟩

/-- The result of a statement that returns one is printed. -/
theorem runQuery_ok {printed : List (Str ⊕ Result)} {query : Str} {result : Result}
    (hparse : parseQuery fuel stof textLength query = .ok pr) (herror : pr.error = [])
    (hrun : (execute pr w).1 = .ok result) :
    runQuery formatDouble displayWidth fuel stof textLength query { engine := w, printed } =
      print formatDouble displayWidth (.inr result) { engine := w.after pr, printed } := by
  have hexecute : executeParsed pr { engine := w, printed } =
      (.ok result, { engine := w.after pr, printed }) := by
    rw [executeParsed, after]
    rcases hr : execute pr w with ⟨r, w'⟩
    rw [hr] at hrun
    cases hrun
    rfl
  rw [runQuery, hparse, Prog.lift_ok_bind_apply, if_neg (not_not.2 herror),
    Prog.bind_ok hexecute]

theorem runQuery_error {printed : List (Str ⊕ Result)} {query : Str} {f : Fault}
    (hparse : parseQuery fuel stof textLength query = .ok pr) (herror : pr.error = [])
    (hrun : (execute pr w).1 = .error f) :
    runQuery formatDouble displayWidth fuel stof textLength query { engine := w, printed } =
      (.error (.fault f), { engine := w.after pr, printed }) := by
  have hexecute : executeParsed pr { engine := w, printed } =
      (.error (.fault f), { engine := w.after pr, printed }) := by
    rw [executeParsed, after]
    rcases hr : execute pr w with ⟨r, w'⟩
    rw [hr] at hrun
    cases hrun
    rfl
  rw [runQuery, hparse, Prog.lift_ok_bind_apply, if_neg (not_not.2 herror),
    Prog.bind_error hexecute]

variable (stof formatDouble displayWidth) in
/-- The lines of a session, one after the other. -/
theorem Ready.run_lines (hwrite : access.mayWrite Catalog.path = true) {commands : List Command}
    (hcommands : ∀ c ∈ commands, c.Typeable textLength ∧ c.rounds ≤ fuel)
    (h : Ready access w) (printed : List (Str ⊕ Result)) :
    ∃ out w' new l, (commands.map Command.line).forM
        (runQuery formatDouble displayWidth fuel stof textLength) { engine := w, printed } =
          (out, { engine := w', printed := printed ++ new }) ∧
      Answered commands out new l ∧ Database.system.Run w.database l w'.database ∧
      Ready access w' := by
  induction commands generalizing w printed with
  | nil =>
    refine ⟨.ok (), w, [], [], ?_, .done, .nil _, h⟩
    rw [List.append_nil]
    rfl
  | cons c commands ih =>
    obtain ⟨htypeable, hfuel⟩ := hcommands c List.mem_cons_self
    obtain ⟨pr, hparse, herror, hparsed, hdenotes⟩ :=
      htypeable.parseQuery_line stof hfuel
    obtain ⟨hstep, hready⟩ := h.execute hwrite hparsed hdenotes htypeable.short
    rw [List.map_cons, forM_cons]
    rcases hrun : (MicroSql.execute pr w).1 with f | result
    · rw [hrun] at hstep
      refine ⟨.error (.fault f), w.after pr, [], _, ?_, .died c commands f,
        .step hstep (.nil _), hready⟩
      rw [Prog.bind_error (runQuery_error hparse herror hrun), List.append_nil]
    · rw [hrun] at hstep
      have hquery : runQuery formatDouble displayWidth fuel stof textLength c.line
          { engine := w, printed } = _ := runQuery_ok hparse herror hrun
      by_cases hoverruns : result.Overruns
      · refine ⟨.error (.fault .outOfBounds), w.after pr, [.inr result], _, ?_,
          .overran hoverruns, .step hstep (.nil _), hready⟩
        rw [Prog.bind_error (hquery.trans (print_overruns hoverruns _))]
      · obtain ⟨out, w', new, l, hrest, hanswered, hdatabase, hready'⟩ :=
          ih (fun c' hc' => hcommands c' (List.mem_cons_of_mem c hc')) hready
            (printed ++ [.inr result])
        refine ⟨out, w', .inr result :: new, (c, .ok result) :: l, ?_,
          .printed hoverruns hanswered, .step hstep hdatabase, hready'⟩
        rw [Prog.bind_ok (hquery.trans (print_result hoverruns _)), hrest, List.append_assoc]
        rfl

variable (stof formatDouble displayWidth) in
/-- One session. -/
theorem Ready.main (hread : access.mayRead Catalog.path = true)
    (hwrite : access.mayWrite Catalog.path = true) {commands : List Command}
    (hcommands : ∀ c ∈ commands, c.Typeable textLength ∧ c.rounds ≤ fuel) (h : Ready access w) :
    ∃ out w' printed l, Prompt.main formatDouble displayWidth fuel stof textLength
        (commands.map Command.line) { engine := { fs := w.fs } } =
          (out, { engine := w', printed }) ∧
      Answered commands out printed l ∧ Database.system.Run w.database l w'.database ∧
      Ready access w' := by
  obtain ⟨hload, hdatabase, hready⟩ := h.restart hread
  obtain ⟨out, w', new, l, hrun, hanswered, hrunDatabase, hready'⟩ :=
    hready.run_lines formatDouble displayWidth stof hwrite hcommands []
  rw [hdatabase] at hrunDatabase
  refine ⟨out, w', new, l, ?_, hanswered, hrunDatabase, hready'⟩
  rw [Prompt.main, Prog.bind_ok hload, loop_eq,
    queries_lines fun c hc => ⟨(hcommands c hc).1.printable, (hcommands c hc).1.writable⟩, hrun,
    List.nil_append]

end Running

/-- **What the program prints is a run of the database.**  Start the program any number of times
in a directory that has no catalog at first, where the catalog file can be read and written, and
type commands.  Every session prints the answers of the database to its commands, up to the end of
the input, to an exception or to a result with rows that are longer than its header, at which
`printResult` writes past the end of a vector; and the next session goes on from there. -/
theorem sessions_run_database {fs : FileSystem} (hempty : fs.files Catalog.path = none)
    (hread : fs.mayRead Catalog.path = true) (hwrite : fs.mayWrite Catalog.path = true)
    {textLength : ℕ → Int32} {fuel : ℕ} {sessions : List (List Command)}
    (hcommands : ∀ commands ∈ sessions, ∀ c ∈ commands,
      c.Typeable textLength ∧ c.rounds ≤ fuel) (stof : Str → Except Halt Double)
    (formatDouble : Double → Str) (displayWidth : Str → ℕ) :
    ∃ l db, AllAnswered sessions (runSessions formatDouble displayWidth fuel stof textLength fs
        (sessions.map fun commands => commands.map Command.line)) l ∧
      Database.system.Run Database.empty l db := by
  suffices hgeneral : ∀ {w : Engine}, Ready fs.access w →
      ∃ l db, AllAnswered sessions (runSessions formatDouble displayWidth fuel stof textLength w.fs
          (sessions.map fun commands => commands.map Command.line)) l ∧
        Database.system.Run w.database l db from hgeneral (.start hempty)
  induction sessions with
  | nil => exact fun {w} _ => ⟨[], w.database, .nil, .nil _⟩
  | cons commands sessions ih =>
    intro w h
    obtain ⟨out, w', printed, l, hmain, hanswered, hrun, hready⟩ :=
      h.main formatDouble displayWidth stof hread hwrite (hcommands commands List.mem_cons_self)
    obtain ⟨l', db, hall, hrest⟩ :=
      ih (fun cs hcs => hcommands cs (List.mem_cons_of_mem commands hcs)) hready
    refine ⟨l ++ l', db, ?_, hrun.append hrest⟩
    rw [List.map_cons, runSessions, hmain]
    exact .cons hanswered hall

/-- A table is made and filled in one session, and read in the next one. -/
def sampleSessions : List (List Command) := [sampleCommands, [.select (str "t") [] none]]

example : sampleSessions.map (fun commands => commands.map Command.line) =
    [[str "CREATE TABLE t ( a INTEGER PRIMARY KEY NOT NULL , b INTEGER ) ;",
      str "INSERT INTO t VALUES ( 1 , 10 ) ;", str "INSERT INTO t VALUES ( 2 , 20 ) ;"],
      [str "SELECT * FROM t ;"]] := by decide

theorem sampleInsert_typeable (a b : Int64) (ha : 0 ≤ a.toInt ∧ a.toInt < 2 ^ 31)
    (hb : 0 ≤ b.toInt ∧ b.toInt < 2 ^ 31)
    (hlength : (Command.insert (str "t") [] [.leaf (.literalInt a),
      .leaf (.literalInt b)]).line.length < 2 ^ 31) :
    (Command.insert (str "t") [] [.leaf (.literalInt a), .leaf (.literalInt b)]).Typeable
      fun _ => 255 where
  printable := ⟨by simp, by simpa using ⟨ha, hb⟩⟩
  writable := ⟨isName_letter (.inr (.inr rfl)), by simp, by
    simp only [List.mem_cons, List.not_mem_nil, or_false, forall_eq_or_imp, forall_eq]
    exact ⟨trivial, trivial⟩⟩
  length := hlength
  short := trivial

theorem sessions_run_database_sample :
    ∃ l db, AllAnswered sampleSessions (runSessions (fun _ => str "0") List.length 1000
        (fun _ => .ok ⟨0⟩) (fun _ => 255) emptyDirectory
        (sampleSessions.map fun commands => commands.map Command.line)) l ∧
      Database.system.Run Database.empty l db := by
  have hcreate : (Command.createTable (str "t") sampleTable.columns).Typeable fun _ => 255 := by
    have hshort : rowLimit sampleTable.columns < 65536 := by decide
    refine ⟨fun k c hk => ?_, ⟨isName_letter (.inr (.inr rfl)), ?_⟩, by decide, hshort⟩
    · rcases k with _ | _ | k <;> cases hk <;> rfl
    · simp only [sampleTable, List.mem_cons, List.not_mem_nil, or_false, forall_eq_or_imp,
        forall_eq]
      exact ⟨isName_letter (.inl rfl), isName_letter (.inr (.inl rfl))⟩
  have hselect : (Command.select (str "t") [] none).Typeable fun _ => 255 :=
    ⟨by rintro t ⟨⟩, ⟨isName_letter (.inr (.inr rfl)), by simp, by rintro t ⟨⟩⟩, by decide, trivial⟩
  refine sessions_run_database rfl rfl rfl ?_ _ _ _
  simp only [sampleSessions, sampleCommands, List.mem_cons, List.not_mem_nil, or_false,
    forall_eq_or_imp, forall_eq]
  exact ⟨⟨⟨hcreate, by decide⟩,
    ⟨sampleInsert_typeable 1 10 (by decide) (by decide) (by decide), by decide⟩,
    ⟨sampleInsert_typeable 2 20 (by decide) (by decide) (by decide), by decide⟩⟩,
    ⟨hselect, by decide⟩⟩

end MicroSql
