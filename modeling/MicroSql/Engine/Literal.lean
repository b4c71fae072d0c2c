import MicroSql.Engine.Insert
import MicroSql.Lexer.Render
import MicroSql.Parser.Printer
import MicroSql.Storage.RowExtent
import MicroSql.Table.NotNull
import MicroSql.Table.Rejects

/-!
# Integer literals

A literal goes through the lexer, which takes it for an integer if an `int` can hold it, the
parser, which converts it with `stoi` to a value of 64 bits, and the encoder, which stores eight
bytes.  The first of these is the narrowest: from 2 ^ 31 on the lexer makes a float literal of
it.
-/

namespace MicroSql

open Lib Catalog

/-- The text is one token, and `e` is what the parser makes of that. -/
def ParsesTo (s : Str) (e : Expression) : Prop :=
  ∃ tokens, (∃ n, ∀ fuel ≥ n, Lexer.tokenize fuel { query := s } = .ok tokens) ∧
    ∀ (inp : Input) (rec : Prog Parser Halt ℤ) (p : Parser), inp.tokens = tokens →
      p.position = 0 → ∃ p', Parser.parsePrimary inp rec p =
        (.ok (p.result.expressions.length : ℤ), p') ∧
        p'.result.expressions = p.result.expressions ++ [e]

/-- Integer literals of value `n` keep it, in the expression and in a column. -/
structure KeepsValue (n : ℕ) : Prop where
  parses : ∃ m : Int64, ParsesTo (numeral n) (.literalInt m) ∧ m.toInt = n
  /-- an INSERT that succeeds -/
  selects : ∀ {w : Engine} {t : TableSchema} {pr : ParseResult} {i : ℕ} {c : ColumnDefinition}
    {index : ℤ} {e : Expression}, Reachable EncodesWithin w → pr.statement.kind = .insert →
    w.catalog.findTable pr.statement.tableName = some t → t.columns[i]? = some c →
    c.type = .integer → suppliedIndex pr i c = some index → pr.HasNode index e →
    ParsesTo (numeral n) e → EncodesWithin pr w → (execInsert pr w).1 = .ok () →
    ∃ row before after m,
      (execSelect (selectStar pr.statement.tableName) w).1 =
        .ok { columns := t.columnNames, rows := before ++ after } ∧
      (execSelect (selectStar pr.statement.tableName) (execInsert pr w).2).1 =
        .ok { columns := t.columnNames, rows := before ++ row :: after } ∧
      row[i]? = some (.int m) ∧ m.toInt = n
  /-- the first INSERT into a table with one column -/
  first : ∀ {t : TableSchema} {c : ColumnDefinition} {e : Expression},
    t.filePath = tablePath t.tableName → t.columns = [c] → c.type = .integer →
    ParsesTo (numeral n) e →
    (execInsert (insertInto t.tableName [e]) (newEngine t)).1 = .ok () ∧
    ∃ m : Int64, m.toInt = n ∧
      (execSelect (selectStar t.tableName)
        (execInsert (insertInto t.tableName [e]) (newEngine t)).2).1 =
          .ok { columns := t.columnNames, rows := [[.int m]] }

/-! ### Reading a literal -/

section Literal

variable {n : ℕ}

theorem isInt_numeral (n : ℕ) : isInt (numeral n) = true ↔ n < 2 ^ 31 := by
  have hdigits : ∀ d ∈ numeral n, isDigit d = true := fun d hd => isDigit_of_mem_numeral hd
  have hall : (numeral n).all isDigit = true := List.all_eq_true.2 hdigits
  have hne := numeral_ne_nil n
  have hvalue := digits_numeral n
  unfold isInt
  split
  · next ds hminus =>
    exact absurd (hdigits 45 (hminus ▸ List.mem_cons_self)) (by decide)
  · simp [hne, hall, hvalue]

theorem getTokenTypeDigit_numeral (n : ℕ) :
    getTokenTypeDigit (numeral n) = .integerLiteral ↔ n < 2 ^ 31 := by
  rw [← isInt_numeral, getTokenTypeDigit]
  by_cases hint : isInt (numeral n) = true
  · simp [hint]
  · rw [if_neg hint]
    refine iff_of_false ?_ hint
    split
    · simp
    · simp

/-- The tokens of a literal. -/
def literalTokens (n : ℕ) : List Token :=
  [⟨getTokenTypeDigit (numeral n), numeral n, 1⟩, Lexer.endToken 1]

theorem tokenize_numeral {fuel : ℕ} (hfuel : (numeral n).length + 2 ≤ fuel) :
    Lexer.tokenize fuel { query := numeral n } = .ok (literalTokens n) := by
  have hdigits : ∀ d ∈ numeral n, isDigit d = true := fun d hd => isDigit_of_mem_numeral hd
  have hquery : (numeral n).drop 0 = numeral n ++ [] := (List.append_nil _).symm
  have hcur : (⟨numeral n, 0⟩ : Lexer).current ≠ 0 := by
    intro hnul
    have hlt : 0 < (numeral n).length := List.length_pos_iff.2 (numeral_ne_nil n)
    have hmem := List.getElem_mem hlt
    rw [Lexer.current, Lexer.getD_eq_of_lt hlt] at hnul
    rw [hnul] at hmem
    exact absurd (hdigits 0 hmem) (by decide)
  have hend : (⟨numeral n, 0 + (numeral n).length⟩ : Lexer).current = 0 := by
    rw [Lexer.current, List.getD_eq_default _ _ (by simp)]
  obtain ⟨rounds, rfl⟩ : ∃ r, fuel = r + 1 + 1 := ⟨fuel - 2, by omega⟩
  rw [Lexer.tokenize, Lexer.loop, if_neg hcur,
    Lexer.scan_integer (numeral_ne_nil n) hdigits (.inl rfl) hquery (by omega), ok_bind]
  dsimp only
  rw [Lexer.loop, if_pos hend]
  rfl

/-- The parser at an integer literal. -/
theorem parsePrimary_integer {inp : Input} {rec : Prog Parser Halt ℤ} {p : Parser} {m : ℤ}
    (htype : (inp.token p.position).type = .integerLiteral)
    (hvalue : stoi (inp.token p.position).value = .ok m) :
    ∃ p', Parser.parsePrimary inp rec p = (.ok (p.result.expressions.length : ℤ), p') ∧
      p'.result.expressions = p.result.expressions ++ [.literalInt (Int64.ofInt m)] := by
  unfold Parser.parsePrimary
  simp only [Parser.current_bind, htype, hvalue, Prog.lift_ok_bind_apply]
  exact ⟨_, rfl, rfl⟩

/-- What the parser makes of another number is no integer literal. -/
theorem parsePrimary_other {inp : Input} {rec : Prog Parser Halt ℤ} {p p' : Parser} {m : Int64}
    {i : ℤ} (htype : (inp.token p.position).type = .floatLiteral ∨
      (inp.token p.position).type = .unknown)
    (h : Parser.parsePrimary inp rec p = (.ok i, p')) :
    p'.result.expressions ≠ p.result.expressions ++ [.literalInt m] := by
  unfold Parser.parsePrimary at h
  rw [Parser.current_bind] at h
  rcases htype with htype | htype
  · rw [htype] at h
    obtain ⟨x, -, h⟩ := Prog.lift_bind_eq_ok.1 h
    cases h
    intro hsame
    cases List.append_cancel_left hsame
  · rw [htype] at h
    cases h
    simp

/-- The input of a literal. -/
def literalInput (n : ℕ) : Input where
  tokens := literalTokens n
  nonempty := by simp [literalTokens]
  stof := fun _ => .ok ⟨0⟩
  textLength := fun _ => 0

/-- Two readings of a text agree. -/
theorem ParsesTo.parsePrimary {e : Expression} (h : ParsesTo (numeral n) e) :
    ∃ p', Parser.parsePrimary (literalInput n) (.fail .outOfFuel) {} = (.ok 0, p') ∧
      p'.result.expressions = [e] := by
  obtain ⟨tokens, ⟨k, hk⟩, hparse⟩ := h
  have htokens := hk (k + (numeral n).length + 2) (by omega)
  rw [tokenize_numeral (by omega)] at htokens
  cases htokens
  exact hparse (literalInput n) _ {} rfl rfl

theorem ParsesTo.unique {e e' : Expression} (h : ParsesTo (numeral n) e)
    (h' : ParsesTo (numeral n) e') : e = e' := by
  obtain ⟨p, hp, he⟩ := h.parsePrimary
  obtain ⟨p', hp', he'⟩ := h'.parsePrimary
  rw [hp] at hp'
  cases hp'
  rw [he] at he'
  cases he'
  rfl

theorem toInt_ofInt (hn : n < 2 ^ 31) : (Int64.ofInt (n : ℤ)).toInt = n :=
  Int64.toInt_ofInt_of_le (by omega) (by omega)

/-- A literal that an `int` can hold. -/
theorem parsesTo_literalInt (hn : n < 2 ^ 31) :
    ParsesTo (numeral n) (.literalInt (Int64.ofInt n)) := by
  refine ⟨literalTokens n, ⟨_, fun fuel hfuel => tokenize_numeral hfuel⟩, ?_⟩
  intro inp rec p htokens hposition
  have htoken : inp.token p.position =
      ⟨getTokenTypeDigit (numeral n), numeral n, 1⟩ := by
    rw [hposition]
    exact @Input.token_of_append inp [] _ _ htokens
  have hstoi : stoi (numeral n) = .ok (n : ℤ) := by
    have hn' := stoi_toString (n := n) (by omega) (by omega)
    rwa [str_toString, if_pos (Int.natCast_nonneg n), Int.toNat_natCast] at hn'
  refine parsePrimary_integer ?_ ?_
  · rw [htoken]
    exact (getTokenTypeDigit_numeral n).2 hn
  · rw [htoken]
    exact hstoi

/-- A larger one is none. -/
theorem lt_of_parsesTo {m : Int64} (h : ParsesTo (numeral n) (.literalInt m)) : n < 2 ^ 31 := by
  obtain ⟨p', hrun, hexpr⟩ := h.parsePrimary
  by_contra hn
  have hmem := Lexer.getTokenTypeDigit_mem (numeral n)
  have hne := mt (getTokenTypeDigit_numeral n).1 hn
  simp only [List.mem_cons, List.not_mem_nil, or_false] at hmem
  have htype : ((literalInput n).token 0).type = getTokenTypeDigit (numeral n) := rfl
  refine parsePrimary_other (p := {}) ?_ hrun hexpr
  rw [htype]
  exact hmem.resolve_left hne

end Literal

/-! ### Storing a literal -/

section Insert

variable {w : Engine} {t : TableSchema} {pr : ParseResult} {i : ℕ} {c : ColumnDefinition}
  {index : ℤ} {m : Int64}

/-- The value that an INSERT supplies for a column gets there. -/
theorem getElem?_of_supplied {row : Row} {v : Value}
    (hrow : rowFromInsertValues pr t.columns = .ok row) (hc : t.columns[i]? = some c)
    (hindex : suppliedIndex pr i c = some index) (hv : insertValue pr index = .ok v) :
    row[i]? = some v := by
  refine getElem?_rowFromInsertValues hrow hc ?_
  unfold suppliedIndex at hindex
  unfold givenValue
  by_cases hnames : pr.statement.insertColumnNames = []
  · rw [if_pos hnames] at hindex ⊢
    rw [hindex, Option.map_some, hv]
  · rw [if_neg hnames] at hindex ⊢
    obtain ⟨pos, hpos, hval⟩ := Option.bind_eq_some_iff.1 hindex
    unfold insertColumn
    rw [hpos]
    dsimp only
    rw [hval]
    exact congrArg some hv

theorem insertValue_literalInt (h : pr.HasNode index (.literalInt m)) :
    insertValue pr index = .ok (.int m) := by
  rw [insertValue, h.expression]
  rfl

/-- A literal that is stored is selected. -/
theorem selects_literalInt (h : Reachable EncodesWithin w) (hkind : pr.statement.kind = .insert)
    (hfind : w.catalog.findTable pr.statement.tableName = some t) (hc : t.columns[i]? = some c)
    (hindex : suppliedIndex pr i c = some index) (hnode : pr.HasNode index (.literalInt m))
    (hwithin : EncodesWithin pr w) (hok : (execInsert pr w).1 = .ok ()) :
    ∃ row before after,
      (execSelect (selectStar pr.statement.tableName) w).1 =
        .ok { columns := t.columnNames, rows := before ++ after } ∧
      (execSelect (selectStar pr.statement.tableName) (execInsert pr w).2).1 =
        .ok { columns := t.columnNames, rows := before ++ row :: after } ∧
      row[i]? = some (.int m) := by
  obtain ⟨hcatalog, row, before, after, hrow, hold, hnew⟩ := insert_rows h hkind hfind hwithin hok
  have hgood := (Reachable.execute h pr hwithin).good
  rw [Engine.after_insert hkind] at hgood
  have hfind' : (execInsert pr w).2.catalog.findTable pr.statement.tableName = some t := by
    rw [hcatalog, hfind]
  refine ⟨row, before, after, ?_, ?_, ?_⟩
  · rw [h.good.selectStar hfind, hold]
  · rw [hgood.selectStar hfind', hnew]
  · exact getElem?_of_supplied hrow hc hindex (insertValue_literalInt hnode)

/-- A literal in the first row of a table with one column. -/
theorem first_literalInt (hpath : t.filePath = tablePath t.tableName) (hcolumns : t.columns = [c])
    (htype : c.type = .integer) (m : Int64) :
    (execInsert (insertInto t.tableName [.literalInt m]) (newEngine t)).1 = .ok () ∧
      (execSelect (selectStar t.tableName)
        (execInsert (insertInto t.tableName [.literalInt m]) (newEngine t)).2).1 =
          .ok { columns := t.columnNames, rows := [[.int m]] } := by
  have hfind := newEngine_find hpath
  have hgood := (newEngine_reachable hpath).good
  have hrow : rowFromInsertValues (insertInto t.tableName [.literalInt m]) t.columns =
      .ok [.int m] := rfl
  have hsuits : Row.Suits [.int m] t.columns := by
    rw [hcolumns]
    exact .cons htype .nil
  obtain ⟨bytes, hbytes⟩ := hsuits.serializeRow
  -- a NULL flag and eight bytes
  have hlength : bytes.length = 9 := by
    rw [length_serializeRow_eq hbytes, hcolumns]
    simp [rowLength, fieldLength, htype]
  obtain ⟨hok, hins⟩ : (execInsert (insertInto t.tableName [.literalInt m]) (newEngine t)).1 =
      .ok () ∧ Engine.Inserted (newEngine t) t [.int m] bytes
        (execInsert (insertInto t.tableName [.literalInt m]) (newEngine t)).2 := by
    refine hgood.insert hfind hrow hbytes ⟨hbytes, by omega⟩ (by omega) (by omega) ?_ ?_
    · intro _ _ _ _
      rw [newEngine_rows hpath]
      rfl
    · rw [newEngine_pages hpath, newEngine_limit hpath]
      exact two_pages_le
  obtain ⟨before, after, hold, hnew⟩ := hins.rows
  rw [newEngine_rows hpath] at hold
  obtain ⟨rfl, rfl⟩ := List.append_eq_nil_iff.1 hold.symm
  have hfind' : Catalog.findTable
      (execInsert (insertInto t.tableName [.literalInt m]) (newEngine t)).2.catalog t.tableName =
        some t := by
    rw [hins.catalog_eq, hfind]
  refine ⟨hok, ?_⟩
  rw [hins.inv.selectStar hfind', hnew]
  rfl

end Insert

/-- **Integer literals keep their value** exactly if an `int` can hold it. -/
theorem keepsValue_iff (n : ℕ) : KeepsValue n ↔ n < 2 ^ 31 := by
  constructor
  · intro h
    obtain ⟨m, hparse, -⟩ := h.parses
    exact lt_of_parsesTo hparse
  · intro hn
    have hparse := parsesTo_literalInt hn
    have hvalue := toInt_ofInt hn
    refine ⟨⟨_, hparse, hvalue⟩, ?_, ?_⟩
    · intro w t pr i c index e h hkind hfind hc _ hindex hnode he hwithin hok
      obtain rfl := he.unique hparse
      obtain ⟨row, before, after, hold, hnew, hrow⟩ :=
        selects_literalInt h hkind hfind hc hindex hnode hwithin hok
      exact ⟨row, before, after, _, hold, hnew, hrow, hvalue⟩
    · intro t c e hpath hcolumns htype he
      obtain rfl := he.unique hparse
      obtain ⟨hok, hselect⟩ := first_literalInt hpath hcolumns htype (Int64.ofInt n)
      exact ⟨hok, _, hvalue, hselect⟩

/-- The first number that an `int` cannot hold. -/
theorem intMax_succ_not_kept :
    Lexer.tokenize 20 { query := str "2147483648" } =
      .ok [⟨.floatLiteral, str "2147483648", 1⟩, Lexer.endToken 1] ∧ ¬KeepsValue 2147483648 := by
  refine ⟨by decide +kernel, fun h => ?_⟩
  obtain ⟨m, hparse, -⟩ := h.parses
  exact absurd (lt_of_parsesTo hparse) (by decide)

end MicroSql
