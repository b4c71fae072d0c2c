import MicroSql.Parser.CreateLoop
import MicroSql.Parser.Fuel

/-!
# The conversions of the parser

The text of an integer literal is converted, and so is whatever stands in the parentheses of a
`TEXT`.  The lexer has seen to the literals; the length of a `TEXT` nobody has looked at.
-/

namespace MicroSql

open Lib Prog

/-- The length of a `TEXT` is expected at the position, when the query is parsed. -/
def Input.LengthAt (inp : Input) (p : ℕ) : Prop :=
  (inp.token 0).type = .create ∧ (inp.token 1).value = str "TABLE" ∧
    ∃ t, inp.TypeAt t ∧ (inp.token t).type = .text ∧ (inp.token (t + 1)).type = .leftParen ∧
      p = t + 2

namespace Parser

/-- The states in which the passes of the column loop begin, when a query is parsed. -/
inductive ColumnPass (inp : Input) : Parser → Prop
  | first {s s' : Parser} (hcreate : (inp.token 0).type = .create)
      (htable : (inp.token 1).value = str "TABLE")
      (hname : parseTableName inp (str "table name")
        ⟨2, { expressions := [], statement := { kind := .createTable } }⟩ = (.ok true, s))
      (hopen : consume inp .leftParen (str "(") s = (.ok true, s')) : ColumnPass inp s'
  | next {fuel : ℕ} {s s' : Parser} (h : ColumnPass inp s)
      (hgoes : listEnds (inp.token s.position).type = false)
      (hcolumn : columnDefinition inp fuel s = (.ok true, s')) :
      ColumnPass inp { s' with position := inp.skipComma s'.position }

/-- `std::stoi` is applied to the text for the length of a `TEXT`, when the query is parsed. -/
def ReadsLength (inp : Input) (text : Str) : Prop :=
  ∃ s s' name, ColumnPass inp s ∧ listEnds (inp.token s.position).type = false ∧
    consumeIdentifier inp (str "column name") s = (.ok (some name), s') ∧
    (inp.token s'.position).type = .text ∧ (inp.token (s'.position + 1)).type = .leftParen ∧
    text = (inp.token (s'.position + 2)).value

end Parser

/-- Malformed SQL gives a syntax error: `parse` returns a result, and `std::stoi` is applied to
decimal integers that an `int` can hold only, for the literals and for the lengths. -/
structure Converted (inp : Input) (fuel : ℕ) : Prop where
  returns : ∃ r, parse fuel inp = .ok r
  literals : ∀ token ∈ inp.tokens, token.type = .integerLiteral → isInt token.value = true
  lengths : ∀ text, Parser.ReadsLength inp text → isInt text = true

namespace Parser

variable {inp : Input} {fuel : ℕ} {s s' : Parser}

/-! ### The passes of the column loop -/

theorem columnDefinition_true (h : columnDefinition inp fuel s = (.ok true, s')) :
    inp.Column (fun _ => True) s.position s'.position ∧ inp.LengthConverts (s.position + 1) := by
  refine ⟨?_, ?_⟩
  · rcases columnDefinition_eq h with ⟨hfalse, -⟩ | ⟨-, hitem⟩
    · cases hfalse
    · exact hitem
  · rcases @columnDefinition_cases inp fuel s with ⟨s₁, hrun, -⟩ | ⟨e, s₁, hrun, -⟩ |
      ⟨column, s₁, -, -, hlength, -⟩
    · rw [h] at hrun
      cases hrun
    · rw [h] at hrun
      cases hrun
    · exact hlength

theorem consume_leftParen {s₁ s₂ : Parser}
    (hname : parseTableName inp (str "table name") s = (.ok true, s₁))
    (hopen : consume inp .leftParen (str "(") s₁ = (.ok true, s₂)) :
    (inp.token s.position).type = .identifier ∧
      (inp.token (s.position + 1)).type = .leftParen ∧ s₂.position = s.position + 2 := by
  obtain ⟨htable, rfl⟩ := parseTableName_true hname
  obtain ⟨hparen, rfl⟩ := consume_true hopen
  exact ⟨htable, hparen, rfl⟩

theorem ColumnPass.columnAt (h : ColumnPass inp s) : inp.ColumnAt s.position := by
  induction h with
  | first _ _ hname hopen =>
    obtain ⟨htable, hparen, hpos⟩ := consume_leftParen hname hopen
    rw [hpos]
    exact .first htable hparen
  | next _ _ hcolumn ih =>
    obtain ⟨hitem, hlength⟩ := columnDefinition_true hcolumn
    exact .next ih hitem hlength

theorem ColumnPass.create (h : ColumnPass inp s) :
    (inp.token 0).type = .create ∧ (inp.token 1).value = str "TABLE" := by
  induction h with
  | first hcreate htable => exact ⟨hcreate, htable⟩
  | next _ _ _ ih => exact ih

/-- What is converted stands where a length is expected. -/
theorem ReadsLength.lengthAt {text : Str} (h : ReadsLength inp text) :
    ∃ p, inp.LengthAt p ∧ text = (inp.token p).value := by
  obtain ⟨s, s', name, hpass, -, hname, htext, hopen, rfl⟩ := h
  rcases consumeIdentifier_eq hname with ⟨hnone, -⟩ | ⟨hident, -, rfl⟩
  · cases hnone
  obtain ⟨hcreate, htable⟩ := hpass.create
  exact ⟨_, ⟨hcreate, htable, _, ⟨_, hpass.columnAt, hident, rfl⟩, htext, hopen, rfl⟩, rfl⟩

section Whole

variable (heof : inp.EofLast) (hwhole : ∀ p, inp.ConstraintAt p → ¬inp.HalfConstraint p)
include heof hwhole

/-- A column definition is read, if its length is converted. -/
theorem columnDefinition_complete {q : ℕ} (hat : inp.ColumnAt s.position)
    (hcolumn : inp.Column (fun _ => True) s.position q)
    (hlength : inp.LengthConverts (s.position + 1)) :
    ∃ s', columnDefinition inp inp.tokens.length s = (.ok true, s') ∧ s'.position = q := by
  obtain ⟨hname, e, htyped, hconstraints⟩ := hcolumn
  obtain ⟨column, s₁, rfl, -, hok⟩ :=
    columnDefinition_typed inp.tokens.length hname htyped hlength
  have hlast := Input.last_sub_lt (le_refl inp.tokens.length) s₁.position
  obtain ⟨c, s₂, hrun⟩ := columnConstraints_returns heof hwhole inp.tokens.length column
    (.first ⟨_, hat, hname, rfl⟩ htyped hlength) hlast
  obtain ⟨s', hrun', hpos⟩ := hok c s₂ hrun
  exact ⟨s', hrun', hpos.trans (hconstraints.unique (columnConstraints_eq _ hrun)).symm⟩

variable (hcreate : (inp.token 0).type = .create) (htable : (inp.token 1).value = str "TABLE")
include hcreate htable

/-- Where the loops end, the column loop comes to all its passes. -/
theorem columnPass_of_columnAt {c : ℕ} (h : inp.ColumnAt c) :
    ∃ s, ColumnPass inp s ∧ s.position = c := by
  induction h with
  | first hname hopen =>
    refine ⟨_, .first hcreate htable (parseTableName_pos hname _) (consume_pos ?_ _), rfl⟩
    exact hopen
  | next hat hcolumn hlength ih =>
    obtain ⟨s, hpass, rfl⟩ := ih
    obtain ⟨s', hrun, rfl⟩ := columnDefinition_complete heof hwhole hat hcolumn hlength
    exact ⟨_, .next hpass (listEnds_of_identifier hcolumn.1) hrun, rfl⟩

/-- What stands where a length is expected is converted. -/
theorem readsLength_of_lengthAt {p : ℕ} (h : inp.LengthAt p) :
    ReadsLength inp (inp.token p).value := by
  obtain ⟨-, -, t, ⟨c, hc, hname, rfl⟩, htext, hopen, rfl⟩ := h
  obtain ⟨s, hpass, rfl⟩ := columnPass_of_columnAt heof hwhole hcreate htable hc
  have hrun : consumeIdentifier inp (str "column name") s =
      (.ok (some (inp.token s.position).value), { s with position := s.position + 1 }) := by
    unfold consumeIdentifier
    rw [current_bind, if_pos hname]
    rfl
  exact ⟨s, _, _, hpass, listEnds_of_identifier hname, hrun, htext, hopen, rfl⟩

end Whole

/-! ### What a statement is left by -/

/-- The exceptions of the conversions, and too few rounds. -/
def Stops (inp : Input) (e : Halt) : Prop := e = .outOfFuel ∨ inp.Throws e

section Statements

variable (heof : inp.EofLast) (hfuel : inp.tokens.length ≤ fuel)

theorem insertName_ends {E : Halt → Prop} : Ends E (insertName inp) :=
  .bind current_ends fun _ => .bind (setStatement_ends _) fun _ => advance_ends

theorem insertNames_stops : ∀ rounds, Ends (Stops inp) (insertNames inp rounds)
  | 0 => .fail (.inl rfl)
  | rounds + 1 => .bind current_ends fun _ => .ite (.pure _) <| .bind skipComma_ends fun _ =>
      .bind insertName_ends fun _ => .bind skipComma_ends fun _ => insertNames_stops rounds

include heof hfuel

theorem insertValue_stops : Ends (Stops inp) (insertValue inp fuel) :=
  .bind (parseExpression_ends heof (fun _ h => .inr h) hfuel) fun _ => setStatement_ends _

theorem insertValues_stops : ∀ rounds, Ends (Stops inp) (insertValues inp fuel rounds)
  | 0 => .fail (.inl rfl)
  | rounds + 1 => .bind current_ends fun _ => .ite (.pure _) <| .bind skipComma_ends fun _ =>
      .bind (insertValue_stops heof hfuel) fun _ => .bind skipComma_ends fun _ =>
        insertValues_stops rounds

theorem parseInsert_stops : Ends (Stops inp) (parseInsert inp fuel) := by
  have hcolumns : Ends (Stops inp) (insertColumns inp fuel) :=
    .bind (currentIs_ends _) fun _ => .ite (.bind advance_ends fun _ => .bind insertName_ends
      fun _ => .bind (insertNames_stops fuel) fun _ => consume_ends _ _) (.pure _)
  have hrow : Ends (Stops inp) (insertRow inp fuel) :=
    .guard (currentIs_ends _) <| .bind advance_ends fun _ =>
      .bind (insertValue_stops heof hfuel) fun _ => .bind (currentIs_ends _) fun _ =>
        .bind (.when (.bind advance_ends fun _ => insertValues_stops heof hfuel fuel)) fun _ =>
          .guard (consume_ends _ _) semicolon_ends
  exact .bind advance_ends fun _ => .bind (setStatement_ends _) fun _ =>
    .guard (consume_ends _ _) <| .guard (parseTableName_ends _) <| .guard hcolumns <|
      .guard (consume_ends _ _) hrow

end Statements

theorem parseDrop_ends {E : Halt → Prop} : Ends E (parseDrop inp) :=
  .bind advance_ends fun _ => .bind (setStatement_ends _) fun _ => .guard (consume_ends _ _) <|
    .guard (parseTableName_ends _) semicolon_ends

theorem parseCreateIndex_ends {E : Halt → Prop} : Ends E (parseCreateIndex inp) := by
  refine .bind advance_ends fun _ => .bind (setStatement_ends _) fun _ =>
    .guard (consume_ends _ _) <| .guard (parseTableName_ends _) <| .guard (consume_ends _ _) <|
      .bind (consumeIdentifier_ends _) fun name => ?_
  cases name with
  | none => exact .pure _
  | some name =>
    exact .bind (setStatement_ends _) fun _ => .guard (consume_ends _ _) semicolon_ends

/-- A length that is a decimal integer is converted. -/
theorem lengthConverts_of_isInt {p : ℕ} {e : Halt} (hint : isInt (inp.token p).value = true) :
    stoi (inp.token p).value ≠ .error e := by
  obtain ⟨n, hn⟩ := stoi_of_isInt hint
  rw [hn]
  exact nofun

section CreateTable

variable (hcreate : (inp.token 0).type = .create) (htable : (inp.token 1).value = str "TABLE")
  (hdecimal : ∀ p, inp.LengthAt p → isInt (inp.token p).value = true)
include hcreate htable hdecimal

/-- If all lengths are decimal integers, no conversion throws. -/
theorem columnDefinitions_stops : ∀ (rounds : ℕ) {s s' : Parser} {e : Halt},
    inp.ColumnAt s.position → columnDefinitions inp fuel rounds s = (.error e, s') →
    e = .outOfFuel
  | 0, _, _, _, _, h => by
    cases h
    rfl
  | rounds + 1, s, s', e, hat, h => by
    rw [columnDefinitions, current_bind] at h
    by_cases hends : listEnds (inp.token s.position).type = true
    · rw [if_pos hends] at h
      cases h
    rw [if_neg hends] at h
    rcases @columnDefinition_cases inp fuel s with ⟨s₁, hrun, -⟩ |
      ⟨e', s₁, -, hname, htext, hopen, hconv⟩ | ⟨column, s₁, -, -, -, herror, hok⟩
    · rw [bind_ok hrun] at h
      cases h
    · have hint := hdecimal (s.position + 3)
        ⟨hcreate, htable, _, ⟨_, hat, hname, rfl⟩, htext, hopen, rfl⟩
      exact absurd hconv (lengthConverts_of_isInt hint)
    rcases hrun : columnConstraints inp fuel column s₁ with ⟨e' | c, s₂⟩
    · rw [bind_error (herror e' s₂ hrun)] at h
      cases h
      exact columnConstraints_error fuel column hrun
    · obtain ⟨s₃, hcolumn, -⟩ := hok c s₂ hrun
      obtain ⟨hitem, hlength⟩ := columnDefinition_true hcolumn
      rw [bind_ok hcolumn, if_pos rfl, bind_ok skipComma_apply] at h
      refine columnDefinitions_stops rounds ?_ h
      exact .next hat hitem hlength

theorem parseCreateTable_stops {e : Halt} (hs : s.position = 1)
    (h : parseCreateTable inp fuel s = (.error e, s')) : e = .outOfFuel := by
  rcases @parseCreateTable_cases inp fuel s hs with ⟨s₁, hname, hopen, hpos, herror, hok⟩ |
    ⟨-, s₁, hrun⟩
  swap
  · rw [h] at hrun
    cases hrun
  rcases hrun : columnDefinitions inp fuel fuel s₁ with ⟨e' | b, s₂⟩
  · have hsame := (herror e' s₂ hrun).symm.trans h
    cases hsame
    exact columnDefinitions_stops hcreate htable hdecimal fuel (hpos ▸ .first hname hopen) hrun
  · obtain ⟨s₃, hrun'⟩ := hok b s₂ hrun
    rw [h] at hrun'
    cases hrun'

end CreateTable

/-- A statement of which all lengths are decimal integers is left for want of rounds only. -/
theorem parseStatement_stops (hlexed : inp.Lexed) (hfloats : inp.FloatsConvert)
    (hfuel : inp.tokens.length ≤ fuel)
    (hdecimal : ∀ p, inp.LengthAt p → isInt (inp.token p).value = true) {e : Halt}
    (h : parseStatement inp fuel {} = (.error e, s')) : e = .outOfFuel := by
  have heof := hlexed.eofLast
  have hnever : ∀ e, ¬inp.Throws e := fun e ⟨token, hmem, hthrown⟩ =>
    hlexed.converts hfloats token hmem e hthrown
  have hreturns : ∀ {E : Halt → Prop} {c : Prog Parser Halt Unit} {s : Parser}, Ends E c →
      (∀ e, E e → e = .outOfFuel) → c s = (.error e, s') → e = .outOfFuel := fun hc hE hrun =>
    hE e ((hc _).error le_rfl hrun)
  have hthrown : ∀ e, inp.Throws e → e = .outOfFuel := fun e hthrows => absurd hthrows (hnever e)
  unfold parseStatement at h
  rw [current_bind] at h
  cases htype : (inp.token 0).type <;> rw [htype] at h <;> dsimp only at h
  case select => exact hreturns (parseSelect_ends heof (fun _ h => h) hfuel) hthrown h
  case update => exact hreturns (parseUpdate_ends heof (fun _ h => h) hfuel) hthrown h
  case delete => exact hreturns (parseDelete_ends heof (fun _ h => h) hfuel) hthrown h
  case drop => exact hreturns (E := inp.Throws) parseDrop_ends hthrown h
  case insert =>
    exact hreturns (parseInsert_stops heof hfuel) (fun _ h => h.elim id (hthrown _)) h
  case create =>
    unfold parseCreate at h
    rw [advance_bind, current_bind] at h
    by_cases htable : (inp.token 1).value = str "TABLE"
    · rw [if_pos htable] at h
      exact parseCreateTable_stops htype htable hdecimal rfl h
    rw [if_neg htable] at h
    by_cases hindex : (inp.token 1).value = str "INDEX"
    · rw [if_pos hindex] at h
      exact hreturns (E := inp.Throws) parseCreateIndex_ends hthrown h
    · rw [if_neg hindex] at h
      cases h
  all_goals cases h

end Parser

/-- **Malformed SQL gives a syntax error, never an exception**, exactly if the text in the
parentheses of each `TEXT` that the parser comes to is a decimal integer of an `int`. -/
theorem converted_iff {inp : Input} (hlexed : inp.Lexed) (hfloats : inp.FloatsConvert) {fuel : ℕ}
    (hends : parse fuel inp ≠ .error .outOfFuel) :
    Converted inp fuel ↔ ∀ p, inp.LengthAt p → isInt (inp.token p).value = true := by
  have heof := hlexed.eofLast
  constructor
  · intro h p hp
    obtain ⟨hcreate, htable, -⟩ := id hp
    refine h.lengths _ (Parser.readsLength_of_lengthAt heof (fun p hat hhalf => hends ?_) hcreate
      htable hp)
    -- at half a constraint the parser would not have ended
    have hspins : (Parser.parseCreateTable inp fuel { position := 1 }).1 = .error .outOfFuel := by
      refine Parser.parseCreateTable_spins hat (fun s column hs => ?_) rfl
      subst hs
      exact Parser.columnConstraints_spins hat hhalf column
    have hrun : Parser.parseStatement inp fuel {} =
        Parser.parseCreateTable inp fuel { position := 1 } := by
      unfold Parser.parseStatement
      rw [Parser.current_bind]
      simp only [hcreate]
      unfold Parser.parseCreate
      rw [Parser.advance_bind, Parser.current_bind]
      exact if_pos htable ▸ rfl
    show Except.map _ (Parser.parseStatement inp fuel {}).1 = _
    rw [hrun, hspins]
    rfl
  · intro hdecimal
    refine ⟨?_, fun token => hlexed.isInt, fun text hreads => ?_⟩
    · have hmono := parse_mono (Nat.le_max_left fuel inp.tokens.length) hends
      rw [← hmono] at hends ⊢
      unfold parse at hends ⊢
      rcases hrun : Parser.parseStatement inp (max fuel inp.tokens.length) {} with ⟨e | u, s⟩
      · obtain rfl := Parser.parseStatement_stops hlexed hfloats (Nat.le_max_right _ _) hdecimal
          hrun
        rw [hrun] at hends
        exact absurd rfl hends
      · exact ⟨s.result, rfl⟩
    · obtain ⟨p, hp, rfl⟩ := Parser.ReadsLength.lengthAt hreads
      exact hdecimal p hp

/-- The tokens of `CREATE TABLE t (a TEXT(` … `));`. -/
def textInput (length : Token) : Input where
  tokens := [⟨.create, str "CREATE", 1⟩, ⟨.table, str "TABLE", 1⟩, ⟨.identifier, str "t", 1⟩,
    ⟨.leftParen, str "(", 1⟩, ⟨.identifier, str "a", 1⟩, ⟨.text, str "TEXT", 1⟩,
    ⟨.leftParen, str "(", 1⟩, length, ⟨.rightParen, str ")", 1⟩, ⟨.rightParen, str ")", 1⟩,
    ⟨.semicolon, str ";", 1⟩, ⟨.endOfFile, [], 1⟩]
  nonempty := by simp
  stof _ := .ok ⟨0⟩
  textLength _ := 0

/-- `CREATE TABLE t (a TEXT(9));` -/
theorem converted_iff_sample : Converted (textInput ⟨.integerLiteral, str "9", 1⟩) 2 ↔
    ∀ p, (textInput ⟨.integerLiteral, str "9", 1⟩).LengthAt p →
      isInt ((textInput ⟨.integerLiteral, str "9", 1⟩).token p).value = true :=
  converted_iff ⟨str "CREATE TABLE t (a TEXT(9));", 28, by rfl⟩ (fun _ _ _ => ⟨_, rfl⟩)
    (by decide)

/-- `CREATE TABLE t (a TEXT(b));` is left by the exception of `std::stoi`. -/
theorem length_throws : ¬ ∀ (inp : Input) (fuel : ℕ), inp.Lexed → inp.FloatsConvert →
    parse fuel inp ≠ .error .outOfFuel → Converted inp fuel := by
  intro h
  obtain ⟨r, hr⟩ := (h (textInput ⟨.identifier, str "b", 1⟩) 2
    ⟨str "CREATE TABLE t (a TEXT(b));", 28, by rfl⟩ (fun _ _ _ => ⟨_, rfl⟩) (by decide)).returns
  have hthrown : parse 2 (textInput ⟨.identifier, str "b", 1⟩) =
      .error (.fault .uncaughtException) := by rfl
  rw [hthrown] at hr
  cases hr

end MicroSql
