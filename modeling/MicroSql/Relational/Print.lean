import MicroSql.Relational.Lists

/-!
# Printing commands

Every command is printed as the tokens of a statement, and the parser is the inverse of the
printer: the statement that it makes of the tokens has no error and denotes the command.
-/

namespace MicroSql

open Lib

/-! ### The printer -/

/-- The condition of a statement. -/
def conditionTokens : Option Tree → List (TokenType × Str)
  | none => []
  | some t => (.where, str "WHERE") :: t.print

/-- What a SELECT selects. -/
def selectTokens (columns : List Str) : List (TokenType × Str) :=
  if columns = [] then [(.star, str "*")] else commas columnToken columns

/-- The column names of an INSERT. -/
def namesTokens (columns : List Str) : List (TokenType × Str) :=
  if columns = [] then []
  else (.leftParen, str "(") :: commas columnToken columns ++ [(.rightParen, str ")")]

namespace Command

/-- The tokens of a command.  A command that is not carried out is printed as one that would make
an index. -/
def print : Command → List (TokenType × Str)
  | select table columns condition =>
    (.select, str "SELECT") :: (selectTokens columns ++
      (.from, str "FROM") :: (.identifier, table) ::
        (conditionTokens condition ++ [(.semicolon, str ";")]))
  | insert table columns values =>
    (.insert, str "INSERT") :: (.into, str "INTO") :: (.identifier, table) ::
      (namesTokens columns ++ (.values, str "VALUES") :: (.leftParen, str "(") ::
        (commas Tree.print values ++ [(.rightParen, str ")"), (.semicolon, str ";")]))
  | update table assignments condition =>
    (.update, str "UPDATE") :: (.identifier, table) :: (.set, str "SET") ::
      (commas assignmentTokens assignments ++
        (conditionTokens condition ++ [(.semicolon, str ";")]))
  | delete table condition =>
    (.delete, str "DELETE") :: (.from, str "FROM") :: (.identifier, table) ::
      (conditionTokens condition ++ [(.semicolon, str ";")])
  | createTable table columns =>
    (.create, str "CREATE") :: (.table, str "TABLE") :: (.identifier, table) ::
      (.leftParen, str "(") :: (commas ColumnDefinition.print columns ++
        [(.rightParen, str ")"), (.semicolon, str ";")])
  | dropTable table =>
    [(.drop, str "DROP"), (.table, str "TABLE"), (.identifier, table), (.semicolon, str ";")]
  | unsupported table =>
    [(.create, str "CREATE"), (.index, str "INDEX"), (.on, str "ON"), (.identifier, table),
      (.leftParen, str "("), (.identifier, table), (.rightParen, str ")"), (.semicolon, str ";")]

/-- The commands that can be printed.  `textLength` is what stands in the columns that are not
`TEXT` where the source leaves their length without a value. -/
def Printable (textLength : ℕ → Int32) : Command → Prop
  | select _ _ condition | delete _ condition => ∀ t ∈ condition, t.Printable
  | insert _ _ values => values ≠ [] ∧ ∀ t ∈ values, t.Printable
  | update _ assignments condition =>
    assignments ≠ [] ∧ (∀ a ∈ assignments, a.2.Printable) ∧ ∀ t ∈ condition, t.Printable
  | createTable _ columns => ∀ (k : ℕ) c, columns[k]? = some c → c.Printable textLength k
  | dropTable _ | unsupported _ => True

end Command

/-! ### A statement denotes one command -/

section Unique

variable {pr : ParseResult}

theorem names_rightUnique : Relator.RightUnique pr.Names := by
  rintro index name name' ⟨expr, hindex, rfl⟩ ⟨expr', hindex', rfl⟩
  rw [Option.some.inj (hindex.2.symm.trans hindex'.2)]

theorem refers_rightUnique : Relator.RightUnique pr.Refers := fun _ _ _ h h' => h.unique h'

theorem assigns_rightUnique : Relator.RightUnique pr.Assigns := fun _ _ _ h h' =>
  Prod.ext (h.1.symm.trans h'.1) (h.2.unique h'.2)

theorem ParseResult.Condition.unique {condition condition' : Option Tree}
    (h : pr.Condition condition) (h' : pr.Condition condition') : condition = condition' := by
  have hneg : ∀ {t : Tree}, pr.Refers pr.statement.whereIndex t →
      pr.statement.whereIndex ≠ -1 := fun ht hindex => by
    have := ht.nonneg
    omega
  cases h with
  | none hindex =>
    cases h' with
    | none => rfl
    | some ht => exact absurd hindex (hneg ht)
  | some ht =>
    cases h' with
    | none hindex => exact absurd hindex (hneg ht)
    | some ht' => rw [ht.unique ht']

/-- **A statement denotes one command.** -/
theorem Denotes.unique {command command' : Command} (h : Denotes pr command)
    (h' : Denotes pr command') : command = command' := by
  cases h with
  | select hkind hcolumns hcondition =>
    cases h' with
    | select _ hcolumns' hcondition' =>
      rw [List.right_unique_forall₂' names_rightUnique hcolumns hcolumns',
        hcondition.unique hcondition']
    | _ hkind' => simp [hkind] at hkind'
  | insert hkind hvalues =>
    cases h' with
    | insert _ hvalues' =>
      rw [List.right_unique_forall₂' refers_rightUnique hvalues hvalues']
    | _ hkind' => simp [hkind] at hkind'
  | update hkind hassigns hcondition =>
    cases h' with
    | update _ hassigns' hcondition' =>
      rw [List.right_unique_forall₂' assigns_rightUnique hassigns hassigns',
        hcondition.unique hcondition']
    | _ hkind' => simp [hkind] at hkind'
  | delete hkind hcondition =>
    cases h' with
    | delete _ hcondition' => rw [hcondition.unique hcondition']
    | _ hkind' => simp [hkind] at hkind'
  | createTable hkind =>
    cases h' with
    | createTable => rfl
    | _ hkind' => simp [hkind] at hkind'
  | dropTable hkind =>
    cases h' with
    | dropTable => rfl
    | _ hkind' => simp [hkind] at hkind'
  | unsupported hkind =>
    cases h' with
    | unsupported => rfl
    | _ hkind' => simp [hkind'] at hkind

end Unique

/-! ### The parser -/

namespace Parser

variable {inp : Input} {s s' : Parser} {fuel : ℕ}

/-- The parser after the first token of a statement. -/
def started (kind : StatementKind) : Parser where
  position := 1
  result := { expressions := [], statement := { kind } }

theorem started_bind (kind : StatementKind) (c : Prog Parser Halt Unit) :
    (do
      advance
      setStatement fun s => { s with kind }
      c : Prog Parser Halt Unit) {} = c (started kind) := rfl

/-- The parser after the name of the table. -/
def named (table : Str) (s : Parser) : Parser where
  position := s.position + 1
  result := { s.result with statement := { s.result.statement with tableName := table } }

theorem parseTableName_spells (context : Str) {table : Str} {xs : List (TokenType × Str)}
    (h : inp.Spells s.position ((.identifier, table) :: xs)) :
    parseTableName inp context s = (.ok true, named table s) := by
  rw [parseTableName, Prog.bind_ok (consumeIdentifier_spells h)]
  rfl

/-- The condition of a statement has been read. -/
structure Conditioned (condition : Option Tree) (s s' : Parser) : Prop where
  error : s'.result.error = s.result.error
  expressions : s.result.expressions <+: s'.result.expressions
  statement : ∃ i, s'.result.statement = { s.result.statement with whereIndex := i }
  condition : s'.result.Condition condition

theorem parseWhere_spells {condition : Option Tree} (hprintable : ∀ t ∈ condition, t.Printable)
    (h : inp.Spells s.position (conditionTokens condition ++ [(.semicolon, str ";")]))
    (hfuel : (conditionTokens condition).length < fuel) :
    ∃ s', parseWhere inp fuel s = (.ok true, s') ∧
      inp.Spells s'.position [(.semicolon, str ";")] ∧ Conditioned condition s s' := by
  cases condition with
  | none =>
    have hother : (inp.token s.position).type ≠ .where := by
      rw [(spells_spelling h).1]
      decide
    refine ⟨{ s with result := { s.result with
      statement := { s.result.statement with whereIndex := -1 } } }, ?_, h,
      rfl, List.prefix_refl _, ⟨-1, rfl⟩, .none rfl⟩
    rw [parseWhere, currentIs_neg hother]
    rfl
  | some t =>
    rw [conditionTokens, List.cons_append] at h
    rw [conditionTokens, List.length_cons] at hfuel
    obtain ⟨hwhere, -, h⟩ := spells_spelling h
    obtain ⟨hprint, hsemicolon⟩ := h.append
    have hread : Returns (requireExpression inp fuel (str "expected expression after WHERE"))
        { s with position := s.position + 1 } (s.position + 1 + t.print.length) t :=
      requireExpression_spells (t := t) (hprintable t rfl) hprint
        (.inl (spells_spelling hsemicolon).1) (by omega)
    obtain ⟨i, s', hrun, hyields⟩ := hread
    refine ⟨{ s' with result := { s'.result with
      statement := { s'.result.statement with whereIndex := i } } }, ?_, ?_,
      hyields.error, hyields.expressions, ⟨i, ?_⟩, ?_⟩
    · rw [parseWhere, currentIs_pos hwhere, if_pos rfl, advance_bind, Prog.bind_ok hrun,
        if_neg hyields.ne]
      rfl
    · dsimp only
      rwa [hyields.position]
    · rw [hyields.statement]
    · refine .some (ParseResult.Refers.mono ?_ hyields.refers)
      exact List.prefix_refl s'.result.expressions

/-- The parser has made a statement that denotes the command. -/
def Accepts (command : Command) (c : Prog Parser Halt Unit) : Prop :=
  ∃ s', c {} = (.ok (), s') ∧ s'.result.error = [] ∧ Denotes s'.result command

/-- Reading a condition keeps what has been added. -/
theorem Conditioned.forall₂ {β γ : Type} {Q : ParseResult → γ → β → Prop} {condition : Option Tree}
    (h : Conditioned condition s s') (hQ : Persists Q) {cs : List γ} {bs : List β}
    (hall : List.Forall₂ (Q s.result) cs bs) : List.Forall₂ (Q s'.result) cs bs :=
  hall.imp fun _ _ => hQ h.expressions

/-! ### SELECT -/

theorem selectColumns_spells {columns : List Str} {xs : List (TokenType × Str)}
    (h : inp.Spells s.position (selectTokens columns ++ (.from, str "FROM") :: xs))
    (hfuel : (selectTokens columns).length + 1 < fuel) :
    ∃ s', selectColumns inp fuel s = (.ok true, s') ∧
      inp.Spells s'.position ((.from, str "FROM") :: xs) ∧
      Adds Statement.addSelected ParseResult.Names columns s s' := by
  unfold selectTokens at h hfuel
  by_cases hcolumns : columns = []
  · subst hcolumns
    rw [if_pos rfl] at h
    obtain ⟨hstar, -, hfrom⟩ := spells_spelling h
    refine ⟨{ s with position := s.position + 1 }, ?_, hfrom, .nil rfl⟩
    rw [selectColumns, currentIs_pos hstar, if_pos rfl, advance_bind, current_bind,
      (spells_spelling hfrom).1]
    rfl
  · rw [if_neg hcolumns] at h hfuel
    obtain ⟨hlist, hfrom⟩ := h.append
    have hother : (inp.token s.position).type ≠ .star := by
      obtain ⟨name, names, rfl⟩ := List.exists_cons_of_ne_nil hcolumns
      rw [commas] at hlist
      rw [(spells_spelling hlist.append.1).1]
      decide
    obtain ⟨s', hrun, hpos, hadds⟩ := selectList_reads hcolumns hlist (spells_spelling hfrom).1
      hfuel
    rw [← hpos] at hfrom
    refine ⟨s', ?_, hfrom, hadds⟩
    rw [selectColumns, currentIs_neg hother, if_neg Bool.false_ne_true]
    exact hrun

theorem parseSelect_print {table : Str} {columns : List Str} {condition : Option Tree}
    (hprintable : ∀ t ∈ condition, t.Printable)
    (h : inp.Spells 0 (Command.select table columns condition).print)
    (hfuel : (Command.select table columns condition).print.length < fuel) :
    Accepts (.select table columns condition) (parseSelect inp fuel) := by
  rw [Command.print] at h hfuel
  simp only [List.length_cons, List.length_append, List.length_nil] at hfuel
  obtain ⟨-, -, h⟩ := spells_spelling h
  obtain ⟨s₁, hrun₁, hfrom, hadds⟩ := selectColumns_spells (s := started .select) h
    (by omega : _ < fuel)
  obtain ⟨hfromType, -, hname⟩ := spells_spelling hfrom
  have htable := parseTableName_spells (s := { s₁ with position := s₁.position + 1 })
    (str "table name after FROM") hname
  obtain ⟨s₂, hrun₂, -, hconditioned⟩ := parseWhere_spells (s := named table
    { s₁ with position := s₁.position + 1 }) hprintable hname.2 (by omega : _ < fuel)
  obtain ⟨cs, hcs, hall⟩ := hadds.added
  obtain ⟨i, hi⟩ := hconditioned.statement
  refine ⟨s₂, ?_, hconditioned.error.trans hadds.error, ?_⟩
  · rw [parseSelect, started_bind, Prog.bind_ok hrun₁, if_pos rfl,
      currentIs_pos hfromType, if_pos rfl, advance_bind, Prog.bind_ok htable, if_pos rfl,
      Prog.bind_ok hrun₂]
    rfl
  · have hstatement : s₂.result.statement =
        { kind := .select, tableName := table, selectColumns := cs, whereIndex := i } := by
      rw [hi, named, hcs, Statement.foldl_addSelected]
      rfl
    have hdenotes : Denotes s₂.result
        (.select s₂.result.statement.tableName columns condition) := by
      refine .select (by rw [hstatement]) ?_ hconditioned.condition
      rw [hstatement]
      exact hconditioned.forall₂ names_persists hall
    rwa [hstatement] at hdenotes

/-! ### INSERT -/

theorem insertColumns_spells {names : List Str} {xs : List (TokenType × Str)}
    (h : inp.Spells s.position (namesTokens names ++ (.values, str "VALUES") :: xs))
    (hfuel : (namesTokens names).length + 1 < fuel) :
    ∃ s', insertColumns inp fuel s = (.ok true, s') ∧
      inp.Spells s'.position ((.values, str "VALUES") :: xs) ∧
      Adds Statement.addName (fun _ c b => c = b) names s s' := by
  unfold namesTokens at h hfuel
  by_cases hnames : names = []
  · subst hnames
    have hother : (inp.token s.position).type ≠ .leftParen := by
      rw [(spells_spelling h).1]
      decide
    refine ⟨s, ?_, h, .nil rfl⟩
    rw [insertColumns, currentIs_neg hother]
    rfl
  · rw [if_neg hnames] at h hfuel
    simp only [List.length_append, List.length_cons, List.length_nil] at hfuel
    obtain ⟨hlist, hvalues⟩ := h.append
    obtain ⟨s', hrun, hpos, hadds⟩ := insertColumns_reads hnames hlist (by omega : _ < fuel)
    refine ⟨s', hrun, ?_, hadds⟩
    rw [hpos]
    simpa [Nat.add_assoc] using hvalues

theorem parseInsert_print {table : Str} {names : List Str} {values : List Tree}
    (hne : values ≠ []) (hprintable : ∀ t ∈ values, t.Printable)
    (h : inp.Spells 0 (Command.insert table names values).print)
    (hfuel : (Command.insert table names values).print.length < fuel) :
    Accepts (.insert table names values) (parseInsert inp fuel) := by
  rw [Command.print] at h hfuel
  simp only [List.length_cons, List.length_append, List.length_nil] at hfuel
  obtain ⟨-, -, hinto⟩ := spells_spelling h
  have hconsume : consume inp .into (str "INTO") (started .insert) =
      (.ok true, { started .insert with position := 2 }) := consume_spells hinto
  have htable := parseTableName_spells (s := { started .insert with position := 2 })
    (str "table name") hinto.2
  obtain ⟨s₁, hrun₁, hvalues, hnames⟩ := insertColumns_spells
    (s := named table { started .insert with position := 2 }) hinto.2.2 (by omega : _ < fuel)
  have hconsume' : consume inp .values (str "VALUES") s₁ =
      (.ok true, { s₁ with position := s₁.position + 1 }) := consume_spells hvalues
  obtain ⟨s₂, hrun₂, hadds⟩ := insertRow_reads (s := { s₁ with position := s₁.position + 1 })
    hne hprintable hvalues.2 (by omega : _ < fuel)
  obtain ⟨cs, hcs, hall⟩ := hnames.added
  obtain rfl : cs = names := List.forall₂_eq_eq_eq ▸ hall
  obtain ⟨is, his, hrefers⟩ := hadds.added
  refine ⟨s₂, ?_, hadds.error.trans hnames.error, ?_⟩
  · rw [parseInsert, started_bind, Prog.bind_ok hconsume, if_pos rfl, Prog.bind_ok htable,
      if_pos rfl, Prog.bind_ok hrun₁, if_pos rfl, Prog.bind_ok hconsume', if_pos rfl]
    exact hrun₂
  · have hstatement : s₂.result.statement =
        { kind := .insert, tableName := table, insertColumnNames := cs, insertValues := is } := by
      rw [his, Statement.foldl_addValue, hcs, Statement.foldl_addName]
      rfl
    have hdenotes : Denotes s₂.result (.insert s₂.result.statement.tableName
        s₂.result.statement.insertColumnNames values) := by
      refine .insert (by rw [hstatement]) ?_
      rwa [hstatement]
    rwa [hstatement] at hdenotes

/-! ### DELETE and UPDATE -/

theorem parseDelete_print {table : Str} {condition : Option Tree}
    (hprintable : ∀ t ∈ condition, t.Printable)
    (h : inp.Spells 0 (Command.delete table condition).print)
    (hfuel : (Command.delete table condition).print.length < fuel) :
    Accepts (.delete table condition) (parseDelete inp fuel) := by
  rw [Command.print] at h hfuel
  simp only [List.length_cons, List.length_append, List.length_nil] at hfuel
  obtain ⟨-, -, hfrom⟩ := spells_spelling h
  have hconsume : consume inp .from (str "FROM") (started .delete) =
      (.ok true, { started .delete with position := 2 }) := consume_spells hfrom
  have htable := parseTableName_spells (s := { started .delete with position := 2 })
    (str "table name") hfrom.2
  obtain ⟨s₁, hrun₁, hsemicolon, hconditioned⟩ := parseWhere_spells
    (s := named table { started .delete with position := 2 }) hprintable hfrom.2.2
    (by omega : _ < fuel)
  obtain ⟨i, hi⟩ := hconditioned.statement
  have hend : consume inp .semicolon (str ";") s₁ =
      (.ok true, { s₁ with position := s₁.position + 1 }) := consume_spells hsemicolon
  refine ⟨{ s₁ with position := s₁.position + 1 }, ?_, hconditioned.error, ?_⟩
  · rw [parseDelete, started_bind, Prog.bind_ok hconsume, if_pos rfl, Prog.bind_ok htable,
      if_pos rfl, Prog.bind_ok hrun₁, if_pos rfl, Prog.bind_ok hend]
    rfl
  · have hdenotes : Denotes s₁.result (.delete s₁.result.statement.tableName condition) :=
      .delete (by rw [hi]; rfl) hconditioned.condition
    rwa [hi] at hdenotes

theorem parseUpdate_print {table : Str} {assignments : List (Str × Tree)}
    {condition : Option Tree} (hne : assignments ≠ [])
    (hassigns : ∀ a ∈ assignments, a.2.Printable) (hprintable : ∀ t ∈ condition, t.Printable)
    (h : inp.Spells 0 (Command.update table assignments condition).print)
    (hfuel : (Command.update table assignments condition).print.length < fuel) :
    Accepts (.update table assignments condition) (parseUpdate inp fuel) := by
  obtain ⟨a, as, rfl⟩ := List.exists_cons_of_ne_nil hne
  rw [Command.print] at h hfuel
  simp only [List.length_cons, List.length_append, List.length_nil] at hfuel
  obtain ⟨-, -, hname⟩ := spells_spelling h
  have htable := parseTableName_spells (s := started .update) (str "table name") hname
  have hconsume : consume inp .set (str "SET") (named table (started .update)) =
      (.ok true, { named table (started .update) with position := 3 }) := consume_spells hname.2
  obtain ⟨hlist, hrest⟩ := hname.2.2.append
  have hend : endsAssignments
      (inp.token (3 + (commas assignmentTokens (a :: as)).length)).type := by
    cases condition with
    | none => exact .inr (spells_spelling hrest).1
    | some t => exact .inl (spells_spelling hrest).1
  obtain ⟨s₁, hrun₁, s₂, hrun₂, hpos₂, hadds⟩ := assignments_reads
    (s := { named table (started .update) with position := 3 }) hassigns hlist hend
    (by omega : _ < fuel)
  rw [← hpos₂] at hrest
  obtain ⟨s₃, hrun₃, hsemicolon, hconditioned⟩ := parseWhere_spells hprintable hrest
    (by omega : _ < fuel)
  obtain ⟨cs, hcs, hall⟩ := hadds.added
  obtain ⟨i, hi⟩ := hconditioned.statement
  have hlast : consume inp .semicolon (str ";") s₃ =
      (.ok true, { s₃ with position := s₃.position + 1 }) := consume_spells hsemicolon
  refine ⟨{ s₃ with position := s₃.position + 1 }, ?_,
    hconditioned.error.trans hadds.error, ?_⟩
  · rw [parseUpdate, started_bind, Prog.bind_ok htable, if_pos rfl, Prog.bind_ok hconsume,
      if_pos rfl, Prog.bind_ok hrun₁, if_pos rfl, Prog.bind_ok hrun₂, if_pos rfl,
      Prog.bind_ok hrun₃, if_pos rfl, Prog.bind_ok hlast]
    rfl
  · have hstatement : s₃.result.statement =
        { kind := .update, tableName := table, assignments := cs, whereIndex := i } := by
      rw [hi, hcs, Statement.foldl_addAssignment]
      rfl
    have hdenotes : Denotes s₃.result
        (.update s₃.result.statement.tableName (a :: as) condition) := by
      refine .update (by rw [hstatement]) ?_ hconditioned.condition
      rw [hstatement]
      exact hconditioned.forall₂ assigns_persists hall
    rwa [hstatement] at hdenotes

/-! ### CREATE and DROP -/

theorem parseCreateTable_print {table : Str} {columns : Schema}
    (hprintable : (Command.createTable table columns).Printable inp.textLength)
    (h : inp.Spells 0 (Command.createTable table columns).print)
    (hfuel : (Command.createTable table columns).print.length < fuel) :
    Accepts (.createTable table columns) (parseCreate inp fuel) := by
  rw [Command.print] at h hfuel
  simp only [List.length_cons, List.length_append, List.length_nil] at hfuel
  obtain ⟨-, -, htable⟩ := spells_spelling h
  obtain ⟨-, hvalue, hname⟩ := spells_spelling htable
  have hnamed := parseTableName_spells (s := { started .createTable with position := 2 })
    (str "table name") hname
  have hopen : consume inp .leftParen (str "(")
      (named table { started .createTable with position := 2 }) =
      (.ok true, { named table { started .createTable with position := 2 } with position := 4 }) :=
    consume_spells hname.2
  obtain ⟨hlist, hclose⟩ := hname.2.2.append
  obtain ⟨s₁, hrun₁, hpos₁, hadds⟩ := columnDefinitions_reads
    (s := { named table { started .createTable with position := 2 } with position := 4 }) rfl
    hprintable hlist (spells_spelling hclose).1 (by omega : _ < fuel)
  rw [← hpos₁] at hclose
  obtain ⟨cs, hcs, hall⟩ := hadds.added
  obtain rfl : cs = columns := List.forall₂_eq_eq_eq ▸ hall
  have hlast : consume inp .semicolon (str ";") { s₁ with position := s₁.position + 1 } =
      (.ok true, { s₁ with position := s₁.position + 1 + 1 }) := consume_spells hclose.2
  have hrun : parseCreateTable inp fuel { ({} : Parser) with position := 1 } =
      (.ok (), { s₁ with position := s₁.position + 1 + 1 }) := by
    rw [parseCreateTable, advance_bind, setStatement_bind]
    refine (Prog.bind_ok hnamed _).trans ?_
    rw [if_pos rfl, Prog.bind_ok hopen, if_pos rfl, Prog.bind_ok hrun₁,
      if_pos rfl, advance_bind, Prog.bind_ok hlast]
    rfl
  refine ⟨{ s₁ with position := s₁.position + 1 + 1 }, ?_, hadds.error, ?_⟩
  · rw [parseCreate, advance_bind, current_bind]
    exact (congrFun (if_pos hvalue) _).trans hrun
  · have hstatement : s₁.result.statement =
        { kind := .createTable, tableName := table, columnDefinitions := cs } := by
      rw [hcs, Statement.foldl_addDefinition]
      rfl
    have hdenotes : Denotes s₁.result (.createTable s₁.result.statement.tableName
        s₁.result.statement.columnDefinitions) := .createTable (by rw [hstatement])
    rwa [hstatement] at hdenotes

/-- The parser in a CREATE INDEX, from the name of the column on. -/
def indexed (table : Str) (position : ℕ) : Parser where
  position
  result := { expressions := [],
              statement := { kind := .createIndex, tableName := table, indexColumnName := table } }

theorem parseCreateIndex_print {table : Str}
    (h : inp.Spells 0 (Command.unsupported table).print) :
    Accepts (.unsupported table) (parseCreate inp fuel) := by
  obtain ⟨-, -, h₁⟩ := spells_spelling h
  obtain ⟨-, hvalue, h₂⟩ := spells_spelling h₁
  have hnot : (inp.token 1).value ≠ str "TABLE" := by
    rw [hvalue]
    decide
  have hon : consume inp .on (str "ON") { started .createIndex with position := 2 } =
      (.ok true, { started .createIndex with position := 3 }) := consume_spells h₂
  have htable := parseTableName_spells (s := { started .createIndex with position := 3 })
    (str "table name") h₂.2
  have hopen : consume inp .leftParen (str "(")
      (named table { started .createIndex with position := 3 }) =
      (.ok true, { named table { started .createIndex with position := 3 } with position := 5 }) :=
    consume_spells h₂.2.2
  have hname : consumeIdentifier inp (str "Column name")
      { named table { started .createIndex with position := 3 } with position := 5 } =
      (.ok (some table),
        { named table { started .createIndex with position := 3 } with position := 6 }) :=
    consumeIdentifier_spells h₂.2.2.2
  have hclose : consume inp .rightParen (str ")") (indexed table 6) =
      (.ok true, indexed table 7) := consume_spells h₂.2.2.2.2
  have hlast : consume inp .semicolon (str ";") (indexed table 7) =
      (.ok true, indexed table 8) := consume_spells h₂.2.2.2.2.2
  have hrun : parseCreateIndex inp { ({} : Parser) with position := 1 } =
      (.ok (), indexed table 8) := by
    rw [parseCreateIndex, advance_bind, setStatement_bind]
    refine (Prog.bind_ok hon _).trans ?_
    rw [if_pos rfl, Prog.bind_ok htable, if_pos rfl, Prog.bind_ok hopen, if_pos rfl,
      Prog.bind_ok hname]
    refine (Prog.bind_ok hclose _).trans ?_
    rw [if_pos rfl]
    exact Prog.bind_ok hlast _
  refine ⟨indexed table 8, ?_, rfl, .unsupported (.head _)⟩
  rw [parseCreate, advance_bind, current_bind]
  exact (congrFun (if_neg hnot) _).trans ((congrFun (if_pos hvalue) _).trans hrun)

theorem parseDrop_print {table : Str} (h : inp.Spells 0 (Command.dropTable table).print) :
    Accepts (.dropTable table) (parseDrop inp) := by
  obtain ⟨-, -, h₁⟩ := spells_spelling h
  have hconsume : consume inp .table (str "TABLE") (started .dropTable) =
      (.ok true, { started .dropTable with position := 2 }) := consume_spells h₁
  have htable := parseTableName_spells (s := { started .dropTable with position := 2 })
    (str "table name") h₁.2
  have hlast : consume inp .semicolon (str ";")
      (named table { started .dropTable with position := 2 }) =
      (.ok true, { named table { started .dropTable with position := 2 } with position := 4 }) :=
    consume_spells h₁.2.2
  refine ⟨{ named table { started .dropTable with position := 2 } with position := 4 }, ?_, rfl,
    .dropTable rfl⟩
  rw [parseDrop, started_bind, Prog.bind_ok hconsume, if_pos rfl, Prog.bind_ok htable, if_pos rfl,
    Prog.bind_ok hlast]
  rfl

end Parser

/-! ### The parser inverts the printer -/

variable {inp : Input} {command : Command} {fuel : ℕ}

namespace Parser

theorem Accepts.of_eq {c d : Prog Parser Halt Unit} (h : Accepts command c) (hd : d {} = c {}) :
    Accepts command d := by
  rwa [Accepts, hd]

theorem parseStatement_print (hprintable : command.Printable inp.textLength)
    (h : inp.Spells 0 command.print) (hfuel : command.print.length < fuel) :
    Accepts command (parseStatement inp fuel) := by
  cases command with
  | select table columns condition =>
    have htype : (inp.token 0).type = .select := (spells_spelling h).1
    exact (parseSelect_print hprintable h hfuel).of_eq (by simp [parseStatement, htype])
  | insert table names values =>
    have htype : (inp.token 0).type = .insert := (spells_spelling h).1
    exact (parseInsert_print hprintable.1 hprintable.2 h hfuel).of_eq
      (by simp [parseStatement, htype])
  | update table assignments condition =>
    have htype : (inp.token 0).type = .update := (spells_spelling h).1
    exact (parseUpdate_print hprintable.1 hprintable.2.1 hprintable.2.2 h hfuel).of_eq
      (by simp [parseStatement, htype])
  | delete table condition =>
    have htype : (inp.token 0).type = .delete := (spells_spelling h).1
    exact (parseDelete_print hprintable h hfuel).of_eq (by simp [parseStatement, htype])
  | createTable table columns =>
    have htype : (inp.token 0).type = .create := (spells_spelling h).1
    exact (parseCreateTable_print hprintable h hfuel).of_eq (by simp [parseStatement, htype])
  | dropTable table =>
    have htype : (inp.token 0).type = .drop := (spells_spelling h).1
    exact (parseDrop_print h).of_eq (by simp [parseStatement, htype])
  | unsupported table =>
    have htype : (inp.token 0).type = .create := (spells_spelling h).1
    have haccepts : Accepts (.unsupported table) (parseCreate inp fuel) := parseCreateIndex_print h
    exact haccepts.of_eq (by simp [parseStatement, htype])

end Parser

/-- The printed tokens of a command, whatever follows them, are parsed without an error as a
statement that denotes the command and no other. -/
theorem parse_print (hprintable : command.Printable inp.textLength)
    (h : inp.Spells 0 command.print) (hfuel : command.print.length < fuel) :
    ∃ pr, parse fuel inp = .ok pr ∧ pr.error = [] ∧ Denotes pr command ∧
      ∀ command', Denotes pr command' → command' = command := by
  obtain ⟨s, hrun, herror, hdenotes⟩ := Parser.parseStatement_print hprintable h hfuel
  refine ⟨s.result, ?_, herror, hdenotes, fun command' h' => h'.unique hdenotes⟩
  rw [parse, hrun]
  rfl

end MicroSql
