import MicroSql.Lexer.Render
import MicroSql.Prompt.Prompt
import MicroSql.Relational.Print

/-!
# The text of a command

Its printed tokens, rendered with blanks between them.  The lexer and the parser make a statement
of the text that denotes the command.
-/

namespace MicroSql

open Lib Lexer Catalog

/-! ### What can be written -/

/-- A word that the lexer reports as an identifier. -/
structure IsName (name : Str) : Prop where
  start : isWordStart (name.getD 0 0) = true
  word : ∀ b ∈ name, isWordChar b = true
  other : ∀ e ∈ keywordMap, e.1 ≠ toUpper name

/-- The names in the expression are identifiers, its texts are such as `text` says, and what
stands for `NULL` is a spelling of it. -/
def Tree.Writable (text : Str → Prop) : Tree → Prop
  | leaf (.literalText s) => text s
  | leaf (.literalNull s) => toUpper s = str "NULL"
  | leaf (.columnRef table column) => (table ≠ [] → IsName table) ∧ IsName column
  | leaf _ => True
  | binary _ left right => left.Writable text ∧ right.Writable text
  | unary _ t => t.Writable text

/-- The names and the texts of a command. -/
def Command.Writable (text : Str → Prop) : Command → Prop
  | select table columns condition =>
    IsName table ∧ (∀ name ∈ columns, IsName name) ∧ ∀ t ∈ condition, t.Writable text
  | insert table names values =>
    IsName table ∧ (∀ name ∈ names, IsName name) ∧ ∀ t ∈ values, t.Writable text
  | update table assignments condition =>
    IsName table ∧ (∀ a ∈ assignments, IsName a.1 ∧ a.2.Writable text) ∧
      ∀ t ∈ condition, t.Writable text
  | delete table condition => IsName table ∧ ∀ t ∈ condition, t.Writable text
  | createTable table columns => IsName table ∧ ∀ c ∈ columns, IsName c.name
  | dropTable table | unsupported table => IsName table

/-- The tokens in front of the semicolon of a statement. -/
inductive Occurs (text : Str → Prop) : TokenType × Str → Prop
  | keyword {type : TokenType} {value : Str} (h : (value, type) ∈ keywordMap) :
      Occurs text (type, value)
  | operator {t : TokenType × Str} (h : t ∈ operators) (hother : t.1 ≠ .semicolon) : Occurs text t
  | name {name : Str} (h : IsName name) : Occurs text (.identifier, name)
  | text {s : Str} (h : text s) : Occurs text (.stringLiteral, s)
  | null {s : Str} (h : toUpper s = str "NULL") : Occurs text (.tknull, s)
  | number {n : ℕ} (h : n < 2 ^ 31) : Occurs text (.integerLiteral, numeral n)

/-! ### The tokens of a command -/

section Tokens

variable {text : Str → Prop} {t : TokenType × Str}

/-- All of the tokens occur. -/
def AllOccur (text : Str → Prop) (ts : List (TokenType × Str)) : Prop := ∀ t ∈ ts, Occurs text t

theorem AllOccur.nil : AllOccur text [] := fun _ h => absurd h List.not_mem_nil

theorem AllOccur.cons {ts : List (TokenType × Str)} (ht : Occurs text t) (hts : AllOccur text ts) :
    AllOccur text (t :: ts) := List.forall_mem_cons.2 ⟨ht, hts⟩

theorem AllOccur.append {ts us : List (TokenType × Str)} (hts : AllOccur text ts)
    (hus : AllOccur text us) : AllOccur text (ts ++ us) := fun t h =>
  (List.mem_append.1 h).elim (hts t) (hus t)

theorem AllOccur.commas {β : Type} {item : β → List (TokenType × Str)} {bs : List β}
    (h : ∀ b ∈ bs, AllOccur text (item b)) : AllOccur text (commas item bs) := by
  cases bs with
  | nil => exact .nil
  | cons b bs =>
    refine (h b List.mem_cons_self).append fun t ht => ?_
    obtain ⟨c, hc, ht⟩ := List.mem_flatMap.1 ht
    rcases List.mem_cons.1 ht with rfl | ht
    · exact .operator (by decide) (by decide)
    · exact h c (List.mem_cons_of_mem b hc) t ht

theorem occurs_open : Occurs text (.leftParen, str "(") := .operator (by decide) (by decide)

theorem occurs_close : Occurs text (.rightParen, str ")") := .operator (by decide) (by decide)

theorem allOccur_operator (op : BinaryOperator) : AllOccur text op.spelling := by
  have hkeywords : ∀ t ∈ op.spelling, (t.2, t.1) ∈ keywordMap ∨
      t ∈ operators ∧ t.1 ≠ .semicolon := by
    cases op <;> decide
  intro t ht
  rcases hkeywords t ht with h | ⟨h, hother⟩
  · exact .keyword h
  · exact .operator h hother

theorem occurs_number {n : ℤ} (hlo : 0 ≤ n) (hhi : n < 2 ^ 31) :
    Occurs text (.integerLiteral, str (toString n)) := by
  rw [str_toString, if_pos hlo]
  exact .number (by omega)

theorem allOccur_leaf {expr : Expression} (hprintable : (Tree.leaf expr).Printable)
    (hwritable : (Tree.leaf expr).Writable text) : AllOccur text expr.spelling := by
  cases expr with
  | literalInt n => exact .cons (occurs_number hprintable.1 hprintable.2) .nil
  | literalText s => exact .cons (.text hwritable) .nil
  | literalBool b => cases b <;> exact .cons (.keyword (by decide)) .nil
  | literalNull s => exact .cons (.null hwritable) .nil
  | columnRef table column =>
    cases table with
    | nil => exact .cons (.name hwritable.2) .nil
    | cons b bs =>
      exact .cons (.name (hwritable.1 (List.cons_ne_nil b bs)))
        (.cons (.operator (by decide) (by decide)) (.cons (.name hwritable.2) .nil))
  | literalFloat | binary | unary | star => exact absurd hprintable id

theorem AllOccur.parenthesize {lvl : Level} {tree : Tree} {ts : List (TokenType × Str)}
    (h : AllOccur text ts) : AllOccur text (tree.parenthesize lvl ts) := by
  unfold Tree.parenthesize
  split
  · exact h
  · exact .append (.cons occurs_open h) (.cons occurs_close .nil)

theorem allOccur_tree {tree : Tree} (hprintable : tree.Printable) (hwritable : tree.Writable text) :
    AllOccur text tree.print := by
  induction tree with
  | leaf expr => exact allOccur_leaf hprintable hwritable
  | binary op left right ihl ihr =>
    exact .append (.append (ihl hprintable.1 hwritable.1).parenthesize (allOccur_operator op))
      (ihr hprintable.2 hwritable.2).parenthesize
  | unary op tree ih =>
    cases op with
    | not => exact .cons (.keyword (by decide)) (ih hprintable hwritable).parenthesize
    | negate =>
      exact .cons (.operator (by decide) (by decide)) (ih hprintable hwritable).parenthesize

theorem allOccur_condition {condition : Option Tree} (hprintable : ∀ t ∈ condition, t.Printable)
    (hwritable : ∀ t ∈ condition, t.Writable text) :
    AllOccur text (conditionTokens condition) := by
  cases condition with
  | none => exact .nil
  | some tree =>
    exact .cons (.keyword (by decide)) (allOccur_tree (hprintable tree rfl) (hwritable tree rfl))

theorem allOccur_names {names : List Str} (h : ∀ name ∈ names, IsName name) :
    AllOccur text (commas columnToken names) :=
  .commas fun name hname => .cons (.name (h name hname)) .nil

theorem allOccur_column {textLength : ℕ → Int32} {k : ℕ} {c : ColumnDefinition}
    (hprintable : c.Printable textLength k) (hname : IsName c.name) : AllOccur text c.print := by
  refine .append (.cons (.name hname) ?_) (.append ?_ ?_)
  · unfold ColumnDefinition.typeTokens
    unfold ColumnDefinition.Printable at hprintable
    cases htype : c.type with
    | text =>
      rw [if_pos htype] at hprintable
      exact .cons (.keyword (by decide)) (.cons occurs_open
        (.cons (occurs_number hprintable.1 hprintable.2) (.cons occurs_close .nil)))
    | _ => exact .cons (.keyword (by decide)) .nil
  · cases c.primaryKey
    · exact .nil
    · exact .cons (.keyword (by decide)) (.cons (.keyword (by decide)) .nil)
  · cases c.notNull
    · exact .nil
    · exact .cons (.keyword (by decide)) (.cons (.keyword (by decide)) .nil)

/-- The keywords that a statement begins with. -/
def statementKeywords : List (TokenType × Str) :=
  [(.select, str "SELECT"), (.insert, str "INSERT"), (.update, str "UPDATE"),
    (.delete, str "DELETE"), (.create, str "CREATE"), (.drop, str "DROP")]

/-- A command is a keyword, other tokens and a semicolon. -/
theorem Command.exists_body {textLength : ℕ → Int32} {command : Command}
    (hprintable : command.Printable textLength) (hwritable : command.Writable text) :
    ∃ first body, command.print = first :: body ++ [(.semicolon, str ";")] ∧
      first ∈ statementKeywords ∧ AllOccur text (first :: body) := by
  cases command with
  | select table columns condition =>
    obtain ⟨htable, hcolumns, hcondition⟩ := hwritable
    refine ⟨_, selectTokens columns ++ (.from, str "FROM") :: (.identifier, table) ::
      conditionTokens condition, by simp [print], .head _, .cons (.keyword (by decide))
      (.append ?_ (.cons (.keyword (by decide)) (.cons (.name htable)
        (allOccur_condition hprintable hcondition))))⟩
    unfold selectTokens
    split
    · exact .cons (.operator (by decide) (by decide)) .nil
    · exact allOccur_names hcolumns
  | insert table names values =>
    obtain ⟨htable, hnames, hvalues⟩ := hwritable
    refine ⟨_, (.into, str "INTO") :: (.identifier, table) :: (namesTokens names ++
      (.values, str "VALUES") :: (.leftParen, str "(") :: (commas Tree.print values ++
        [(.rightParen, str ")")])), by simp [print], .tail _ (.head _),
      .cons (.keyword (by decide)) (.cons (.keyword (by decide)) (.cons (.name htable)
        (.append ?_ (.cons (.keyword (by decide)) (.cons occurs_open (.append (.commas fun t ht =>
          allOccur_tree (hprintable.2 t ht) (hvalues t ht)) (.cons occurs_close .nil)))))))⟩
    unfold namesTokens
    split
    · exact .nil
    · exact .append (.cons occurs_open (allOccur_names hnames)) (.cons occurs_close .nil)
  | update table assignments condition =>
    obtain ⟨htable, hassigns, hcondition⟩ := hwritable
    refine ⟨_, (.identifier, table) :: (.set, str "SET") :: (commas assignmentTokens assignments ++
      conditionTokens condition), by simp [print], .tail _ (.tail _ (.head _)),
      .cons (.keyword (by decide)) (.cons (.name htable) (.cons (.keyword (by decide))
        (.append (.commas fun a ha => .cons (.name (hassigns a ha).1)
          (.cons (.operator (by decide) (by decide)) (allOccur_tree (hprintable.2.1 a ha)
            (hassigns a ha).2))) (allOccur_condition hprintable.2.2 hcondition))))⟩
  | delete table condition =>
    obtain ⟨htable, hcondition⟩ := hwritable
    exact ⟨_, (.from, str "FROM") :: (.identifier, table) :: conditionTokens condition,
      by simp [print], .tail _ (.tail _ (.tail _ (.head _))),
      .cons (.keyword (by decide)) (.cons (.keyword (by decide)) (.cons (.name htable)
        (allOccur_condition hprintable hcondition)))⟩
  | createTable table columns =>
    obtain ⟨htable, hcolumns⟩ := hwritable
    refine ⟨_, (.table, str "TABLE") :: (.identifier, table) :: (.leftParen, str "(") ::
      (commas ColumnDefinition.print columns ++ [(.rightParen, str ")")]), by simp [print],
      .tail _ (.tail _ (.tail _ (.tail _ (.head _)))),
      .cons (.keyword (by decide)) (.cons (.keyword (by decide)) (.cons (.name htable)
        (.cons occurs_open (.append (.commas fun c hc => ?_) (.cons occurs_close .nil)))))⟩
    obtain ⟨k, hk, rfl⟩ := List.mem_iff_getElem.1 hc
    exact allOccur_column (hprintable k _ (List.getElem?_eq_getElem hk)) (hcolumns _ hc)
  | dropTable table =>
    exact ⟨_, [(.table, str "TABLE"), (.identifier, table)], rfl,
      .tail _ (.tail _ (.tail _ (.tail _ (.tail _ (.head _))))),
      .cons (.keyword (by decide)) (.cons (.keyword (by decide)) (.cons (.name hwritable) .nil))⟩
  | unsupported table =>
    exact ⟨_, [(.index, str "INDEX"), (.on, str "ON"), (.identifier, table),
      (.leftParen, str "("), (.identifier, table), (.rightParen, str ")")], rfl,
      .tail _ (.tail _ (.tail _ (.tail _ (.head _)))),
      .cons (.keyword (by decide)) (.cons (.keyword (by decide)) (.cons (.keyword (by decide))
        (.cons (.name hwritable) (.cons occurs_open (.cons (.name hwritable)
          (.cons occurs_close .nil))))))⟩

end Tokens

/-! ### The lexer -/

section Lexing

variable {text : Str → Prop} {t : TokenType × Str} {command : Command} {textLength : ℕ → Int32}

/-- The texts that the lexer gives back. -/
def plainText (s : Str) : Prop := ∀ b ∈ s, b ≠ quote ∧ b ≠ 0

theorem Occurs.spelled (htext : ∀ s, text s → plainText s) (h : Occurs text t) : Spelled t := by
  cases h with
  | @keyword type value h =>
    have hupper : ∀ e ∈ keywordMap, toUpper e.1 = e.1 := by decide
    exact .keyword h (hupper _ h)
  | operator h => exact .operator h
  | @name name h =>
    cases name with
    | nil => exact absurd h.start (by decide)
    | cons c word =>
      exact .identifier h.start (fun b hb => h.word b (List.mem_cons_of_mem c hb)) h.other
  | text h => exact .text (htext _ h)
  | null h => exact .keyword (by decide : (str "NULL", TokenType.tknull) ∈ keywordMap) h
  | @number n h =>
    refine .integer (numeral_ne_nil n) (fun d hd => isDigit_of_mem_numeral hd) ?_
    rwa [digits_numeral]

theorem Command.spelled (hprintable : command.Printable textLength)
    (hwritable : command.Writable plainText) : ∀ t ∈ command.print, Spelled t := by
  obtain ⟨first, body, hprint, -, hoccur⟩ := exists_body hprintable hwritable
  intro t ht
  rw [hprint] at ht
  rcases List.mem_append.1 ht with ht | ht
  · exact (hoccur t ht).spelled fun _ h => h
  · rw [List.mem_singleton.1 ht]
    exact .operator (by decide)

/-- In a text that is shorter than an `int` can count, the text literals fit. -/
theorem textsFit_of_length {ts : List (TokenType × Str)} {k : ℕ}
    (h : k + (render ts).length < 2 ^ 31) : TextsFit k ts := by
  induction ts generalizing k with
  | nil => trivial
  | cons t ts ih =>
    obtain ⟨rest, hrender, -, hnext⟩ := render_cons t ts
    rw [hrender, List.length_append] at h
    refine ⟨fun htext => ?_, ?_⟩
    · have hlong := length_spelling_text (s := t.2)
      rw [← htext] at hlong
      change t.2.length < (spelling t).length at hlong
      omega
    · rcases hnext with ⟨rfl, -⟩ | ⟨-, rfl⟩
      · trivial
      · refine ih ?_
        rw [List.length_cons] at h
        omega

end Lexing

/-! ### From a text to a command -/

/-- Rounds that are enough for the text of a command. -/
def Command.rounds (command : Command) : ℕ :=
  (render command.print).length + 2 * command.print.length + 1

/-- The text of a command, with names and texts that the lexer gives back, is parsed without an
error as a statement that denotes the command and no other. -/
theorem parseQuery_render {command : Command} {textLength : ℕ → Int32}
    (hprintable : command.Printable textLength) (hwritable : command.Writable plainText)
    (hlength : (render command.print).length < 2 ^ 31) (stof : Str → Except Halt Double)
    {fuel : ℕ} (hfuel : command.rounds ≤ fuel) :
    ∃ pr, Prompt.parseQuery fuel stof textLength (render command.print) = .ok pr ∧
      pr.error = [] ∧ Denotes pr command ∧
      ∀ command', Denotes pr command' → command' = command := by
  unfold Command.rounds at hfuel
  have hfits : TextsFit 0 command.print := textsFit_of_length (by omega)
  obtain ⟨tokens, htokens, hmap⟩ : ∃ tokens,
      Lexer.loop fuel fuel ⟨render command.print, 0⟩ 1 = .ok tokens ∧
        tokens.map (fun t => (t.type, t.value)) = command.print ++ [(.endOfFile, [])] :=
    loop_render (k := 0) (q := render command.print) (command.spelled hprintable hwritable) hfits
      rfl (by omega) (by omega) (by omega)
  have hne : tokens ≠ [] := by
    rintro rfl
    simp at hmap
  let inp : Input := { tokens, nonempty := hne, stof, textLength }
  have hspells : inp.Spells 0 (command.print ++ [(.endOfFile, [])]) := by
    have happend : inp.tokens = [] ++ tokens ++ [] := (List.append_nil tokens).symm
    rw [← hmap]
    exact Input.spells_of_append happend
  have hrounds : command.print.length < fuel := by omega
  obtain ⟨pr, hparse, hpr⟩ := parse_print hprintable hspells.append.1 hrounds
  refine ⟨pr, ?_, hpr⟩
  rw [Prompt.parseQuery, Lexer.tokenize, htokens, ok_bind, dif_pos hne]
  exact hparse

/-- A command with a name, an operator and a text with a comment sign in it. -/
def sampleUpdateCommand : Command :=
  .update (str "t")
    [(str "b", .binary .add (.leaf (.columnRef [] (str "b"))) (.leaf (.literalInt 1)))]
    (some (.binary .equal (.leaf (.columnRef [] (str "a"))) (.leaf (.literalText (str "-- ;")))))

example : render sampleUpdateCommand.print =
    str "UPDATE t SET b = b + 1 WHERE a = '-- ;' ;" := by decide

theorem isName_letter {c : UInt8} (hc : c = ch 'a' ∨ c = ch 'b' ∨ c = ch 't') : IsName [c] := by
  have hstart : isWordStart c = true := by
    rcases hc with rfl | rfl | rfl <;> decide
  refine ⟨hstart, fun b hb => ?_, ?_⟩
  · rw [List.mem_singleton.1 hb]
    exact isWordChar_of_isWordStart hstart
  · rcases hc with rfl | rfl | rfl <;> decide

theorem parseQuery_render_sample :
    ∃ pr, Prompt.parseQuery 1000 (fun _ => .ok ⟨0⟩) (fun _ => 0)
        (render sampleUpdateCommand.print) = .ok pr ∧
      pr.error = [] ∧ Denotes pr sampleUpdateCommand ∧
      ∀ command', Denotes pr command' → command' = sampleUpdateCommand := by
  have hprintable : sampleUpdateCommand.Printable fun _ => 0 := by
    refine ⟨by simp, fun a ha => ?_, fun t ht => ?_⟩
    · rw [List.mem_singleton.1 ha]
      exact ⟨trivial, by decide, by decide⟩
    · cases ht
      exact ⟨trivial, trivial⟩
  have hwritable : sampleUpdateCommand.Writable plainText := by
    refine ⟨isName_letter (.inr (.inr rfl)), fun a ha => ?_, fun t ht => ?_⟩
    · rw [List.mem_singleton.1 ha]
      exact ⟨isName_letter (.inr (.inl rfl)),
        ⟨fun h => absurd rfl h, isName_letter (.inr (.inl rfl))⟩, trivial⟩
    · cases ht
      refine ⟨⟨fun h => absurd rfl h, isName_letter (.inl rfl)⟩, fun b hb => ?_⟩
      have hall : (str "-- ;").all (fun b => b != quote && b != 0) = true := by decide
      simpa using List.all_eq_true.1 hall b hb
  exact parseQuery_render hprintable hwritable (by decide) _ (by decide)

end MicroSql
