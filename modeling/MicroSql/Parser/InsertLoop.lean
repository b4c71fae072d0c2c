import MicroSql.Lib.Rounds
import MicroSql.Parser.Progress
import MicroSql.Parser.WellFormed

/-!
# The loops of INSERT

The loop over the column names takes any token for a name, so each of its passes moves.  The loop
over the values calls for an expression and does not look at what it returns: at a token that
begins no expression, is no comma and does not end the list, a pass moves nowhere, and the next
one begins where it began.
-/

namespace MicroSql

open Lib Prog

namespace Parser

/-! ### The expression parser leaves the statement alone -/

/-- The function leaves the statement alone, however it ends. -/
def Leaves {α : Type} (c : Prog Parser Halt α) : Prop :=
  ∀ s, (c s).2.result.statement = s.result.statement

namespace Leaves

variable {α β : Type} {c d : Prog Parser Halt α}

theorem pure (a : α) : Leaves (pure a) := fun _ => rfl

theorem bind {k : α → Prog Parser Halt β} (hc : Leaves c) (hk : ∀ a, Leaves (k a)) :
    Leaves (c >>= k) := by
  intro s
  have hs := hc s
  rw [bind_apply]
  rcases h : c s with ⟨e | a, s'⟩ <;> rw [h] at hs
  · exact hs
  · exact (hk a s').trans hs

theorem ite {p : Prop} [Decidable p] (hc : Leaves c) (hd : Leaves d) :
    Leaves (if p then c else d) := by
  split
  · exact hc
  · exact hd

end Leaves

section Expressions

variable {inp : Input} {rec : Prog Parser Halt ℤ} {fuel : ℕ}

theorem push_leaves (expr : Expression) : Leaves (push expr) := fun _ => rfl

theorem parseLiteral_leaves (expr : Expression) : Leaves (parseLiteral expr) := fun _ => rfl

theorem current_leaves : Leaves (current inp) := fun _ => rfl

theorem peek_leaves : Leaves (peek inp) := fun _ => rfl

theorem currentIs_leaves (type : TokenType) : Leaves (currentIs inp type) := fun _ => rfl

theorem advance_leaves : Leaves advance := fun _ => rfl

theorem setError_leaves (text : Str) : Leaves (setError text) := fun _ => rfl

theorem setErrorIfEmpty_leaves (text : Str) : Leaves (setErrorIfEmpty text) := fun s => by
  rw [setErrorIfEmpty_apply]
  split <;> rfl

theorem parsePrimary_leaves (hrec : Leaves rec) : Leaves (parsePrimary inp rec) := by
  have hconversion : ∀ {α : Type} (x : Except Halt α) (k : α → Expression),
      Leaves (do let a ← Prog.lift x; parseLiteral (k a)) := fun x k s => by
    rcases x with e | a <;> rfl
  refine .bind current_leaves fun token => ?_
  cases token.type
  case identifier =>
    exact .bind current_leaves fun _ => .bind peek_leaves fun _ => .ite
      (.bind advance_leaves fun _ => .bind peek_leaves fun _ => .ite
        (.bind advance_leaves fun _ => parseLiteral_leaves _)
        (.bind current_leaves fun _ => .bind (setError_leaves _) fun _ => .pure _))
      (parseLiteral_leaves _)
  case leftParen =>
    exact .bind advance_leaves fun _ => .bind hrec fun _ => .ite (.pure _) <|
      .bind current_leaves fun _ => .ite (.bind advance_leaves fun _ => .pure _)
        (.bind (setError_leaves _) fun _ => .pure _)
  case integerLiteral => exact hconversion _ _
  case floatLiteral => exact hconversion _ _
  all_goals first | exact parseLiteral_leaves _ | exact .pure _

theorem parsePrefix_leaves (op : UnaryOperator) (hrec : Leaves rec) :
    Leaves (parsePrefix op rec) :=
  .bind advance_leaves fun _ => .bind hrec fun _ => .ite (.pure _) (push_leaves _)

section Loops

variable {round : Prog Parser Halt (Option (BinaryOperator × ℤ))}

theorem binaryLoop_leaves (hround : Leaves round) :
    ∀ (n : ℕ) (left : ℤ), Leaves (binaryLoop round n left)
  | 0, _ => fun _ => rfl
  | n + 1, left => by
    refine .bind hround fun x => ?_
    rcases x with _ | ⟨op, right⟩
    · exact .pure _
    · exact .ite (.pure _) (.bind (push_leaves _) fun _ => binaryLoop_leaves hround n _)

theorem parseBinary_leaves (hround : Leaves round) (hrec : Leaves rec) (n : ℕ) :
    Leaves (parseBinary round rec n) :=
  .bind hrec fun _ => .ite (.pure _) (binaryLoop_leaves hround n _)

end Loops

theorem binaryRound_leaves (opOf : TokenType → Option BinaryOperator) (hrec : Leaves rec) :
    Leaves (binaryRound inp opOf rec) := by
  refine .bind current_leaves fun token => ?_
  cases opOf token.type with
  | none => exact .pure _
  | some op => exact .bind advance_leaves fun _ => .bind hrec fun _ => .pure _

theorem comparisonRound_leaves (hrec : Leaves rec) : Leaves (comparisonRound inp rec) := by
  refine .bind current_leaves fun token => ?_
  have hoperand : ∀ op value, Leaves (comparisonOperand op value token.line rec) := fun _ _ =>
    .bind hrec fun _ => .bind (.ite (setErrorIfEmpty_leaves _) (.pure _)) fun _ => .pure _
  cases comparison token.type with
  | none => exact .pure _
  | some op =>
    exact .bind peek_leaves fun _ => .ite
      (.bind advance_leaves fun _ => .bind advance_leaves fun _ => hoperand _ _)
      (.bind advance_leaves fun _ => hoperand _ _)

theorem parseExpression_leaves : ∀ fuel, Leaves (parseExpression inp fuel)
  | 0 => fun _ => rfl
  | fuel + 1 => by
    have hprimary := @parsePrimary_leaves inp _ (parseExpression_leaves fuel)
    have hunary : Leaves (parseUnary inp (parseExpression inp fuel)) :=
      .bind (currentIs_leaves _) fun _ => .ite (parsePrefix_leaves _ hprimary) hprimary
    have hmultiplicative := parseBinary_leaves (@binaryRound_leaves inp _ multiplicative hunary)
      hunary fuel
    have hadditive := parseBinary_leaves (@binaryRound_leaves inp _ additive hmultiplicative)
      hmultiplicative fuel
    have hcomparison := parseBinary_leaves (@comparisonRound_leaves inp _ hadditive) hadditive fuel
    have hnot : Leaves (parseNot inp (parseExpression inp fuel) fuel) :=
      .bind (currentIs_leaves _) fun _ => .ite (parsePrefix_leaves _ hcomparison) hcomparison
    have hand := parseBinary_leaves (@binaryRound_leaves inp _ conjunction hnot) hnot fuel
    exact parseBinary_leaves (@binaryRound_leaves inp _ disjunction hand) hand fuel

end Expressions

end Parser

namespace Input

variable (inp : Input)

/-! ### Where the passes begin -/

/-- A call for an expression returns, with an index or without one. -/
def Returned (p q : ℕ) : Prop := ∃ o, inp.Attempt .operand .or p o q ∧ ∀ e, o ≠ .thrown e

/-- The parser of an `INSERT` comes to the list of values, whose parenthesis is at `v`. -/
structure ValuesAt (v : ℕ) : Prop where
  into : (inp.token 1).type = .into
  table : (inp.token 2).type = .identifier
  names : ((inp.token 3).type = .values ∧ v = 4) ∨ ((inp.token 3).type = .leftParen ∧
    ∃ r js, inp.Names 5 r js ∧ (inp.token r).type = .rightParen ∧
      (inp.token (r + 1)).type = .values ∧ v = r + 2)
  opens : (inp.token v).type = .leftParen

/-- A pass of the `VALUES` loop begins at the position. -/
inductive PassAt : ℕ → Prop
  | first {v q : ℕ} (hv : inp.ValuesAt v) (hvalue : inp.Returned (v + 1) q)
      (hcomma : (inp.token q).type = .comma) : PassAt (q + 1)
  | next {p q : ℕ} (h : PassAt p) (hgoes : Parser.listEnds (inp.token p).type = false)
      (hvalue : inp.Returned (inp.skipComma p) q) : PassAt (inp.skipComma q)

/-- A token at which a pass moves nowhere. -/
def Stuck (p : ℕ) : Prop :=
  Parser.listEnds (inp.token p).type = false ∧ (inp.token p).type ≠ .comma ∧
    (inp.token p).type ∉ starts

variable {inp} {p q : ℕ}

theorem Returned.unique (h : inp.Returned p q) {q' : ℕ} (h' : inp.Returned p q') : q = q' := by
  obtain ⟨o, hattempt, -⟩ := h
  obtain ⟨o', hattempt', -⟩ := h'
  exact (hattempt.unique hattempt').2

theorem Returned.le (h : inp.Returned p q) : p ≤ q := by
  obtain ⟨o, hattempt, -⟩ := h
  exact hattempt.le

theorem le_skipComma (p : ℕ) : p ≤ inp.skipComma p := by
  unfold skipComma
  split <;> omega

/-- A pass moves, unless its token is stuck. -/
theorem pass_moves_iff (hgoes : Parser.listEnds (inp.token p).type = false)
    (hvalue : inp.Returned (inp.skipComma p) q) : p < inp.skipComma q ↔ ¬inp.Stuck p := by
  have hq := hvalue.le
  have hnext := @le_skipComma inp q
  by_cases hcomma : (inp.token p).type = .comma
  · rw [skipComma_of_comma hcomma] at hvalue hq
    exact iff_of_true (by omega) fun hstuck => hstuck.2.1 hcomma
  rw [skipComma_of_ne hcomma] at hvalue hq
  obtain ⟨o, hattempt, ho⟩ := hvalue
  have hunmoved := hattempt.unmoved_iff ho
  constructor
  · rintro hlt ⟨-, -, hstarts⟩
    rw [hunmoved.2 hstarts, skipComma_of_ne hcomma] at hlt
    exact lt_irrefl _ hlt
  · intro hstuck
    have hmoved : q ≠ p := fun heq => hstuck ⟨hgoes, hcomma, hunmoved.1 heq⟩
    omega

theorem ValuesAt.afterValues {v : ℕ} (h : inp.ValuesAt v) : inp.AfterValues v := by
  rcases h.names with ⟨hvalues, rfl⟩ | ⟨hopen, r, js, hjs, -, -, rfl⟩
  · exact .inl ⟨by simp [hvalues], rfl⟩
  · exact .inr ⟨hopen, r, js, hjs, rfl⟩

end Input

namespace Parser

variable {inp : Input} {fuel : ℕ} {s s' : Parser}

/-- The values that have been stored. -/
abbrev stored (s : Parser) : List ℤ := s.result.statement.insertValues

/-! ### The names -/

/-- One pass of the loop over the column names. -/
def namesPass (inp : Input) : Prog Parser Halt Unit := do
  skipComma inp
  insertName inp
  skipComma inp

theorem namesPass_apply : ∃ s', namesPass inp s = (.ok (), s') ∧
    s'.position = inp.skipComma (inp.skipComma s.position + 1) ∧ s'.stored = s.stored := by
  unfold namesPass
  rw [bind_ok skipComma_apply]
  unfold insertName
  rw [bind_assoc, current_bind, bind_assoc, setStatement_bind, advance_bind, skipComma_apply]
  exact ⟨_, rfl, rfl, rfl⟩

theorem insertNames_succ (rounds : ℕ) : insertNames inp (rounds + 1) = (do
    if listEnds (← current inp).type then return ()
    else do
      namesPass inp
      insertNames inp rounds) := by
  rw [insertNames]
  simp only [namesPass, bind_assoc]

/-- The loop over the column names comes to its end. -/
theorem insertNames_returns (heof : inp.EofLast) : ∀ (rounds : ℕ) {s : Parser},
    inp.last - s.position < rounds → ∃ js s', insertNames inp rounds s = (.ok (), s') ∧
      inp.Names s.position s'.position js ∧ s'.stored = s.stored
  | 0, _, h => absurd h (Nat.not_lt_zero _)
  | rounds + 1, s, h => by
    rw [insertNames_succ, current_bind]
    by_cases hends : listEnds (inp.token s.position).type = true
    · rw [if_pos hends]
      exact ⟨[], s, rfl, .nil hends, rfl⟩
    have hgoes : listEnds (inp.token s.position).type = false := by simpa using hends
    rw [if_neg hends]
    have hlt := heof.lt_last_of_goes hgoes rfl
    obtain ⟨s₁, hpass, hpos, hkeep⟩ := @namesPass_apply inp s
    have hle := @Input.le_skipComma inp s.position
    have hle' := @Input.le_skipComma inp (inp.skipComma s.position + 1)
    obtain ⟨js, s', hrest, hnames, hkeep'⟩ := insertNames_returns heof rounds
      (show inp.last - s₁.position < rounds by omega)
    rw [bind_ok hpass]
    rw [hpos] at hnames
    exact ⟨_, s', hrest, .cons hgoes hnames, hkeep'.trans hkeep⟩

/-! ### The head of the statement -/

theorem consume_pos {type : TokenType} (h : (inp.token s.position).type = type) (name : Str) :
    consume inp type name s = (.ok true, { s with position := s.position + 1 }) := by
  unfold consume
  rw [current_bind, if_pos h]
  rfl

theorem consume_neg {type : TokenType} (h : (inp.token s.position).type ≠ type) (name : Str) :
    ∃ s', consume inp type name s = (.ok false, s') ∧ s'.result.statement = s.result.statement := by
  unfold consume
  rw [current_bind, if_neg h]
  exact ⟨_, rfl, rfl⟩

theorem parseTableName_pos (h : (inp.token s.position).type = .identifier) (context : Str) :
    parseTableName inp context s = (.ok true, { s with
      position := s.position + 1
      result := { s.result with
        statement := { s.result.statement with
          tableName := (inp.token s.position).value } } }) := by
  unfold parseTableName consumeIdentifier
  rw [bind_assoc, current_bind, if_pos h]
  rfl

theorem parseTableName_neg (h : (inp.token s.position).type ≠ .identifier) (context : Str) :
    ∃ s', parseTableName inp context s = (.ok false, s') ∧
      s'.result.statement = s.result.statement := by
  unfold parseTableName consumeIdentifier
  rw [bind_assoc, current_bind, if_neg h]
  exact ⟨_, rfl, rfl⟩

/-- The column names of an `INSERT`, read or refused. -/
theorem insertColumns_cases (heof : inp.EofLast) (hfuel : inp.tokens.length ≤ fuel) (s : Parser) :
    ∃ b s', insertColumns inp fuel s = (.ok b, s') ∧ s'.stored = s.stored ∧
      (((inp.token s.position).type ≠ .leftParen ∧ b = true ∧ s'.position = s.position) ∨
        ((inp.token s.position).type = .leftParen ∧ ∃ r js, inp.Names (s.position + 2) r js ∧
          (b = true ↔ (inp.token r).type = .rightParen) ∧
          (b = true → s'.position = r + 1))) := by
  unfold insertColumns
  rw [currentIs_bind]
  by_cases hopen : (inp.token s.position).type = .leftParen
  swap
  · rw [if_neg (by simpa using hopen)]
    exact ⟨true, s, rfl, rfl, .inl ⟨hopen, rfl, rfl⟩⟩
  rw [if_pos (by simpa using hopen), advance_bind]
  unfold insertName
  rw [bind_assoc, current_bind, bind_assoc, setStatement_bind, advance_bind]
  have hrounds := Input.last_sub_lt hfuel (s.position + 2)
  obtain ⟨js, s₁, hrun, hnames, hkeep⟩ := insertNames_returns (s := { s with
    position := s.position + 2
    result := { s.result with statement := { s.result.statement with
      insertColumnNames := s.result.statement.insertColumnNames ++
        [(inp.token (s.position + 1)).value] } } }) heof fuel hrounds
  rw [bind_ok hrun]
  by_cases hclose : (inp.token s₁.position).type = .rightParen
  · exact ⟨true, _, consume_pos hclose _, hkeep, .inr ⟨hopen, _, js, hnames, iff_of_true rfl hclose,
      fun _ => rfl⟩⟩
  · obtain ⟨s₂, hrun', hkeep'⟩ := consume_neg hclose (str ")")
    refine ⟨false, s₂, hrun', ?_, .inr ⟨hopen, _, js, hnames, iff_of_false nofun hclose, nofun⟩⟩
    unfold stored
    rw [hkeep']
    exact hkeep

/-- `parseInsert` comes to its values, or it has returned before. -/
theorem parseInsert_cases (heof : inp.EofLast) (hfuel : inp.tokens.length ≤ fuel) :
    (∃ s, inp.ValuesAt s.position ∧ s.stored = [] ∧
      parseInsert inp fuel {} = insertRow inp fuel s) ∨
    ((∀ v, ¬inp.ValuesAt v) ∧ ∃ s', parseInsert inp fuel {} = (.ok (), s') ∧ s'.stored = []) := by
  have hkept : ∀ {s s' : Parser}, s.stored = [] → s'.result.statement = s.result.statement →
      s'.stored = [] := by
    intro s s' hs hkeep
    unfold stored
    rw [hkeep]
    exact hs
  unfold parseInsert
  rw [advance_bind, setStatement_bind]
  by_cases hinto : (inp.token 1).type = .into
  swap
  · obtain ⟨s', hs', hkeep⟩ := consume_neg (s := { position := 1, result := _ }) hinto (str "INTO")
    exact .inr ⟨fun v hv => hinto hv.into, s', bind_ok hs' _, hkept rfl hkeep⟩
  rw [bind_ok (consume_pos (s := { position := 1, result := _ }) hinto _), if_pos rfl]
  by_cases htable : (inp.token 2).type = .identifier
  swap
  · obtain ⟨s', hs', hkeep⟩ :=
      parseTableName_neg (s := { position := 2, result := _ }) htable (str "table name")
    exact .inr ⟨fun v hv => htable hv.table, s', bind_ok hs' _, hkept rfl hkeep⟩
  rw [bind_ok (parseTableName_pos (s := { position := 2, result := _ }) htable _), if_pos rfl]
  obtain ⟨b, s₁, hcolumns, hkeep, hread⟩ :=
    insertColumns_cases heof hfuel { position := 3, result := _ }
  rw [bind_ok hcolumns]
  replace hkeep : s₁.stored = [] := hkeep
  -- the names decide where `VALUES` is expected
  have hnames : ∀ v, inp.ValuesAt v → b = true ∧ (inp.token s₁.position).type = .values ∧
      v = s₁.position + 1 := by
    intro v hv
    rcases hread with ⟨hplain, hb, hpos⟩ | ⟨hopen, r, js, hjs, hclose, hpos⟩
    · rcases hv.names with ⟨hvalues, rfl⟩ | ⟨hopen, -⟩
      · rw [hpos]
        exact ⟨hb, hvalues, rfl⟩
      · exact absurd hopen hplain
    · rcases hv.names with ⟨hvalues, -⟩ | ⟨-, r', js', hjs', hclose', hvalues, rfl⟩
      · exact absurd (hopen.symm.trans hvalues) (by decide)
      · obtain ⟨rfl, -⟩ := hjs.unique hjs'
        have hb := hclose.2 hclose'
        rw [hpos hb]
        exact ⟨hb, hvalues, rfl⟩
  cases b with
  | false => exact .inr ⟨fun v hv => Bool.false_ne_true (hnames v hv).1, s₁, rfl, hkeep⟩
  | true =>
  rw [if_pos rfl]
  by_cases hvalues : (inp.token s₁.position).type = .values
  swap
  · obtain ⟨s', hs', hkeep'⟩ := consume_neg hvalues (str "VALUES")
    exact .inr ⟨fun v hv => hvalues (hnames v hv).2.1, s', bind_ok hs' _, hkept hkeep hkeep'⟩
  rw [bind_ok (consume_pos hvalues _), if_pos rfl]
  by_cases hopens : (inp.token (s₁.position + 1)).type = .leftParen
  swap
  · refine .inr ⟨fun v hv => hopens ?_, { s₁ with position := s₁.position + 1 }, ?_, hkeep⟩
    · have hv' := hv.opens
      rwa [(hnames v hv).2.2] at hv'
    · unfold insertRow
      rw [currentIs_bind, if_neg (by simpa using hopens)]
      rfl
  refine .inl ⟨{ s₁ with position := s₁.position + 1 }, ⟨hinto, htable, ?_, hopens⟩, hkeep, rfl⟩
  rcases hread with ⟨-, -, hpos⟩ | ⟨hopen, r, js, hjs, hclose, hpos⟩
  · rw [hpos] at hvalues
    exact .inl ⟨hvalues, by rw [hpos]⟩
  · rw [hpos rfl] at hvalues
    exact .inr ⟨hopen, r, js, hjs, hclose.1 rfl, hvalues, by rw [hpos rfl]⟩

/-! ### The values -/

/-- One pass of the loop over the values. -/
def valuesPass (inp : Input) (fuel : ℕ) : Prog Parser Halt Unit := do
  skipComma inp
  insertValue inp fuel
  skipComma inp

theorem insertValues_succ (fuel rounds : ℕ) : insertValues inp fuel (rounds + 1) = (do
    if listEnds (← current inp).type then return ()
    else do
      valuesPass inp fuel
      insertValues inp fuel rounds) := by
  rw [insertValues]
  simp only [valuesPass, bind_assoc]

/-- `std::stoi` throws, or it returns. -/
theorem stoi_error {s : Str} {e : Halt} (h : stoi s = .error e) :
    e = .fault .uncaughtException := by
  unfold stoi at h
  split at h <;> cases h
  rfl

section Values

variable (heof : inp.EofLast) (hstof : ∀ text, inp.stof text ≠ .error .outOfFuel)
  (hfuel : inp.tokens.length ≤ fuel)

include hstof in
theorem ne_outOfFuel_of_throws {e : Halt} (h : inp.Throws e) : e ≠ .outOfFuel := by
  obtain ⟨token, -, h⟩ := h
  rintro rfl
  unfold Input.literal at h
  split at h
  case h_1 =>
    rcases hrun : stoi token.value with e | n
    · rw [hrun] at h
      cases h
      cases stoi_error hrun
    · rw [hrun] at h
      cases h
  case h_2 =>
    refine hstof token.value ?_
    rcases hrun : inp.stof token.value with e | x
    · rw [hrun] at h
      cases h
      rfl
    · rw [hrun] at h
      cases h
  all_goals cases h

include heof hstof hfuel

/-- A value is stored, whatever the call for an expression returns, unless it throws. -/
theorem insertValue_cases (s : Parser) :
    (∃ q i s', inp.Returned s.position q ∧ insertValue inp fuel s = (.ok (), s') ∧
      s'.position = q ∧ s'.stored = s.stored ++ [i]) ∨
    ∃ e s', e ≠ .outOfFuel ∧ (∀ q, ¬inp.Returned s.position q) ∧
      insertValue inp fuel s = (.error e, s') ∧ s'.stored = s.stored := by
  have hkeep := @parseExpression_leaves inp fuel s
  unfold insertValue
  rcases hrun : parseExpression inp fuel s with ⟨e | i, s'⟩ <;>
    have hattempt := parseExpression_attempt heof hfuel hrun <;> rw [hrun] at hkeep
  · refine .inr ⟨e, s', ne_outOfFuel_of_throws hstof hattempt.thrown_of, ?_, bind_error hrun _, ?_⟩
    · rintro q ⟨o, hattempt', ho⟩
      exact ho e (hattempt'.unique hattempt).1
    · exact congrArg Statement.insertValues hkeep
  · refine .inl ⟨s'.position, i, _, ⟨_, hattempt, ending_ok_ne_thrown i⟩, bind_ok hrun _, rfl, ?_⟩
    show s'.result.statement.insertValues ++ [i] = _
    rw [hkeep]

theorem valuesPass_cases (s : Parser) :
    (∃ q i s', inp.Returned (inp.skipComma s.position) q ∧ valuesPass inp fuel s = (.ok (), s') ∧
      s'.position = inp.skipComma q ∧ s'.stored = s.stored ++ [i]) ∨
    ∃ e s', e ≠ .outOfFuel ∧ (∀ q, ¬inp.Returned (inp.skipComma s.position) q) ∧
      valuesPass inp fuel s = (.error e, s') ∧ s'.stored = s.stored := by
  unfold valuesPass
  rw [bind_ok skipComma_apply]
  rcases insertValue_cases heof hstof hfuel { s with position := inp.skipComma s.position } with
    ⟨q, i, s', hq, hrun, hpos, hstored⟩ | ⟨e, s', he, hnone, hrun, hstored⟩
  · rw [bind_ok hrun, skipComma_apply]
    exact .inl ⟨q, i, _, hq, rfl, by rw [hpos], hstored⟩
  · exact .inr ⟨e, s', he, hnone, bind_error hrun _, hstored⟩

/-! ### Passes that move nowhere -/

/-- The loop over the values, as a loop over the states. -/
abbrev OutOfFuel (r : Except Halt Unit × Parser) : Prop := r.1 = .error .outOfFuel

omit heof hstof hfuel in
theorem insertValues_goesOn (hgoes : listEnds (inp.token s.position).type = false)
    (hpass : valuesPass inp fuel s = (.ok (), s')) : GoesOn (insertValues inp fuel) s s' := by
  intro rounds
  rw [insertValues_succ, current_bind, if_neg (by simpa using hgoes), bind_ok hpass]

/-- From a stuck token the loop never ends. -/
theorem spins_of_stuck {p : ℕ} (hstuck : inp.Stuck p) {s : Parser} (hs : s.position = p) :
    Spins (insertValues inp fuel) OutOfFuel s := by
  refine spins_of_invariant (I := fun s => s.position = p) (fun _ => rfl) ?_ hs
  rintro s rfl
  have hkept : inp.Returned (inp.skipComma s.position) s.position := by
    rw [Input.skipComma_of_ne hstuck.2.1]
    exact ⟨_, .of_not_mem_starts hstuck.2.2 .or, nofun⟩
  rcases valuesPass_cases heof hstof hfuel s with ⟨q, i, s', hq, hpass, hpos, -⟩ |
    ⟨e, s', -, hnone, -⟩
  · obtain rfl := hq.unique hkept
    rw [Input.skipComma_of_ne hstuck.2.1] at hpos
    exact ⟨s', hpos, insertValues_goesOn hstuck.1 hpass⟩
  · exact absurd hkept (hnone _)

omit heof hstof hfuel in
/-- The end of the statement, after the values. -/
theorem insertRow_tail (s : Parser) : ∃ s', (do
      if ← consume inp .rightParen (str ")") then
        let _ ← consume inp .semicolon (str ";")) s = (.ok (), s') ∧ s'.stored = s.stored := by
  have hkept : ∀ (type : TokenType) (name : Str) (s : Parser), ∃ b s',
      consume inp type name s = (.ok b, s') ∧ s'.stored = s.stored := by
    intro type name s
    by_cases htype : (inp.token s.position).type = type
    · exact ⟨true, _, consume_pos htype name, rfl⟩
    · obtain ⟨s', hrun, hkeep⟩ := consume_neg htype name
      exact ⟨false, s', hrun, congrArg Statement.insertValues hkeep⟩
  obtain ⟨b, s₁, hrun, hkeep⟩ := hkept .rightParen (str ")") s
  rw [bind_ok hrun]
  cases b with
  | false => exact ⟨s₁, rfl, hkeep⟩
  | true =>
    obtain ⟨b, s₂, hrun', hkeep'⟩ := hkept .semicolon (str ";") s₁
    rw [if_pos rfl, bind_ok hrun']
    exact ⟨s₂, rfl, hkeep'.trans hkeep⟩

/-- The values of a statement: the first one, and the loop if a comma follows. -/
theorem insertRow_cases (hopens : (inp.token s.position).type = .leftParen) :
    (∃ q i s₁, inp.Returned (s.position + 1) q ∧ s₁.stored = s.stored ++ [i] ∧
      (((inp.token q).type ≠ .comma ∧ ∃ s', insertRow inp fuel s = (.ok (), s') ∧
          s'.stored = s₁.stored) ∨
        ((inp.token q).type = .comma ∧ s₁.position = q + 1 ∧
          ((∃ e s', insertValues inp fuel fuel s₁ = (.error e, s') ∧
              insertRow inp fuel s = (.error e, s')) ∨
            ∃ s₂ s', insertValues inp fuel fuel s₁ = (.ok (), s₂) ∧
              insertRow inp fuel s = (.ok (), s') ∧ s'.stored = s₂.stored)))) ∨
    ∃ e s', e ≠ .outOfFuel ∧ (∀ q, ¬inp.Returned (s.position + 1) q) ∧
      insertRow inp fuel s = (.error e, s') ∧ s'.stored = s.stored := by
  unfold insertRow
  rw [currentIs_bind, if_pos (by simpa using hopens), advance_bind]
  rcases insertValue_cases heof hstof hfuel { s with position := s.position + 1 } with
    ⟨q, i, s₁, hq, hrun, rfl, hstored⟩ | ⟨e, s', he, hnone, hrun, hstored⟩
  swap
  · exact .inr ⟨e, s', he, hnone, bind_error hrun _, hstored⟩
  rw [bind_ok hrun, currentIs_bind, bind_apply, when_apply]
  by_cases hcomma : (inp.token s₁.position).type = .comma
  swap
  · rw [if_neg (by simpa using hcomma)]
    obtain ⟨s', htail, hkeep⟩ := @insertRow_tail inp s₁
    exact .inl ⟨_, i, s₁, hq, hstored, .inl ⟨hcomma, s', htail, hkeep⟩⟩
  rw [if_pos (by simpa using hcomma), advance_bind]
  refine .inl ⟨_, i, { s₁ with position := s₁.position + 1 }, hq, hstored, .inr ⟨hcomma, rfl, ?_⟩⟩
  rcases insertValues inp fuel fuel { s₁ with position := s₁.position + 1 } with ⟨e | u, s₂⟩
  · exact .inl ⟨e, s₂, rfl, rfl⟩
  · obtain ⟨s', htail, hkeep⟩ := @insertRow_tail inp s₂
    exact .inr ⟨s₂, s', rfl, htail, hkeep⟩

/-- A loop that spins from one of its passes makes the statement spin. -/
theorem parseInsert_spins {p : ℕ} (h : inp.PassAt p)
    (hspins : ∀ s : Parser, s.position = p → Spins (insertValues inp fuel) OutOfFuel s) :
    (parseInsert inp fuel {}).1 = .error .outOfFuel := by
  induction h with
  | @first v q hv hvalue hcomma =>
    rcases parseInsert_cases heof hfuel with ⟨s, hs, -, heq⟩ | ⟨hnone, -⟩
    swap
    · exact absurd hv (hnone v)
    obtain rfl := hv.afterValues.unique hs.afterValues
    rw [heq]
    rcases insertRow_cases heof hstof hfuel hs.opens with ⟨q', i, s₁, hq, -, hrest⟩ |
      ⟨e, s', -, hnone, -⟩
    swap
    · exact absurd hvalue (hnone q)
    obtain rfl := hvalue.unique hq
    obtain ⟨-, hpos, hloop⟩ := hrest.resolve_left fun h => h.1 hcomma
    have hout : (insertValues inp fuel fuel s₁).1 = .error .outOfFuel := hspins s₁ hpos fuel
    rcases hloop with ⟨e, s', hrun, hrow⟩ | ⟨s₂, s', hrun, -⟩ <;> rw [hrun] at hout
    · rw [hrow]
      exact hout
    · cases hout
  | @next p q _ hgoes hvalue ih =>
    refine ih fun s hs => ?_
    subst hs
    rcases valuesPass_cases heof hstof hfuel s with ⟨q', i, s', hq, hpass, hpos, -⟩ |
      ⟨e, s', -, hnone, -⟩
    · obtain rfl := hvalue.unique hq
      exact .of_goesOn (fun _ => rfl) (insertValues_goesOn hgoes hpass) (hspins s' hpos)
    · exact absurd hvalue (hnone q)

/-! ### Passes that move -/

variable (hmoves : ∀ p, inp.PassAt p → ¬inp.Stuck p)
include hmoves

/-- What a pass does where no pass is stuck. -/
theorem valuesPass_moves (hpass : inp.PassAt s.position)
    (hgoes : listEnds (inp.token s.position).type = false) :
    (∃ i s', inp.PassAt s'.position ∧ valuesPass inp fuel s = (.ok (), s') ∧
      s.position < s'.position ∧ s'.stored = s.stored ++ [i]) ∨
    ∃ e s', e ≠ .outOfFuel ∧ valuesPass inp fuel s = (.error e, s') ∧ s'.stored = s.stored := by
  rcases valuesPass_cases heof hstof hfuel s with ⟨q, i, s', hq, hrun, hpos, hstored⟩ |
    ⟨e, s', he, -, hrun, hstored⟩
  · refine .inl ⟨i, s', hpos ▸ .next hpass hgoes hq, hrun, ?_, hstored⟩
    rw [hpos]
    exact (Input.pass_moves_iff hgoes hq).2 (hmoves _ hpass)
  · exact .inr ⟨e, s', he, hrun, hstored⟩

theorem insertValues_ends {rounds : ℕ} (hpass : inp.PassAt s.position)
    (hrounds : inp.last - s.position < rounds) :
    (insertValues inp fuel rounds s).1 ≠ .error .outOfFuel := by
  refine @ends_of_measure _ _ (insertValues inp fuel) OutOfFuel (fun s => inp.PassAt s.position)
    (fun s => inp.last - s.position) ?_ _ _ hpass hrounds
  intro s hpass
  by_cases hends : listEnds (inp.token s.position).type = true
  · refine .inl fun n => ?_
    show ¬(insertValues inp fuel (n + 1) s).1 = _
    rw [insertValues_succ, current_bind, if_pos hends]
    exact nofun
  have hgoes : listEnds (inp.token s.position).type = false := by simpa using hends
  have hlt := heof.lt_last_of_goes hgoes rfl
  rcases valuesPass_moves heof hstof hfuel hmoves hpass hgoes with
    ⟨i, s', hpass', hrun, hmoved, -⟩ | ⟨e, s', he, hrun, -⟩
  · exact .inr ⟨s', hpass', by omega, insertValues_goesOn hgoes hrun⟩
  · refine .inl fun n => ?_
    show ¬(insertValues inp fuel (n + 1) s).1 = _
    rw [insertValues_succ, current_bind, if_neg hends, bind_error hrun]
    simpa using he

/-- Each value that the loop stores has its token. -/
theorem insertValues_stored : ∀ (rounds : ℕ) {s : Parser}, inp.PassAt s.position →
    (insertValues inp fuel rounds s).2.stored.length ≤
      s.stored.length + (inp.last - s.position)
  | 0, _, _ => Nat.le_add_right _ _
  | rounds + 1, s, hpass => by
    rw [insertValues_succ, current_bind]
    by_cases hends : listEnds (inp.token s.position).type = true
    · rw [if_pos hends]
      exact Nat.le_add_right _ _
    have hgoes : listEnds (inp.token s.position).type = false := by simpa using hends
    have hlt := heof.lt_last_of_goes hgoes rfl
    rw [if_neg hends]
    rcases valuesPass_moves heof hstof hfuel hmoves hpass hgoes with
      ⟨i, s', hpass', hrun, hmoved, hstored⟩ | ⟨e, s', -, hrun, hstored⟩
    · have hrest := insertValues_stored rounds hpass'
      rw [hstored, List.length_append, List.length_singleton] at hrest
      rw [bind_ok hrun]
      omega
    · rw [bind_error hrun]
      show s'.stored.length ≤ _
      rw [hstored]
      exact Nat.le_add_right _ _

/-- `parseInsert` ends, and stores no more values than there are tokens. -/
theorem parseInsert_ends : (parseInsert inp fuel {}).1 ≠ .error .outOfFuel ∧
    (parseInsert inp fuel {}).2.stored.length ≤ inp.tokens.length := by
  have hlength := inp.length_pos
  rcases parseInsert_cases heof hfuel with ⟨s, hs, hnil, heq⟩ | ⟨-, s', heq, hnil⟩
  swap
  · rw [heq]
    refine ⟨nofun, ?_⟩
    show s'.stored.length ≤ _
    rw [hnil]
    exact Nat.zero_le _
  rw [heq]
  rcases insertRow_cases heof hstof hfuel hs.opens with ⟨q, i, s₁, hq, hstored, hrest⟩ |
    ⟨e, s', he, -, hrow, hstored⟩
  swap
  · rw [hrow]
    refine ⟨by simpa using he, ?_⟩
    show s'.stored.length ≤ _
    rw [hstored, hnil]
    exact Nat.zero_le _
  have hone : s₁.stored.length = 1 := by rw [hstored, hnil]; rfl
  rcases hrest with ⟨-, s', hrow, hkeep⟩ | ⟨hcomma, hpos, hloop⟩
  · rw [hrow]
    refine ⟨nofun, ?_⟩
    show s'.stored.length ≤ _
    rw [hkeep]
    omega
  have hpass : inp.PassAt s₁.position := by
    rw [hpos]
    exact .first hs hq hcomma
  have hlast := Input.last_sub_lt hfuel s₁.position
  have hends := insertValues_ends heof hstof hfuel hmoves hpass hlast
  have hcount := insertValues_stored heof hstof hfuel hmoves fuel hpass
  have hbound := Input.last_sub_lt (le_refl inp.tokens.length) s₁.position
  rcases hloop with ⟨e, s', hrun, hrow⟩ | ⟨s₂, s', hrun, hrow, hkeep⟩ <;>
    rw [hrun] at hends hcount <;> rw [hrow]
  · refine ⟨hends, ?_⟩
    show s'.stored.length ≤ _
    exact le_trans hcount (by omega)
  · refine ⟨nofun, ?_⟩
    show s'.stored.length ≤ _
    rw [hkeep]
    exact le_trans hcount (by omega)

end Values

end Parser

/-! ### What is asked of parsing an INSERT -/

/-- Parsing an `INSERT` ends: `parseInsert` returns or is left by an exception, a pass of either
loop that does not leave it moves, and no more values are stored than there are tokens. -/
structure InsertEnds (inp : Input) : Prop where
  ends : ∀ fuel, inp.tokens.length ≤ fuel → (Parser.parseInsert inp fuel {}).1 ≠ .error .outOfFuel
  namesPass : ∀ s s' : Parser, Parser.listEnds (inp.token s.position).type = false →
    Parser.namesPass inp s = (.ok (), s') → s.position < s'.position
  valuesPass : ∀ fuel (s s' : Parser), inp.tokens.length ≤ fuel → inp.PassAt s.position →
    Parser.listEnds (inp.token s.position).type = false →
    Parser.valuesPass inp fuel s = (.ok (), s') → s.position < s'.position
  stored : ∀ fuel, inp.tokens.length ≤ fuel →
    (Parser.parseInsert inp fuel {}).2.stored.length ≤ inp.tokens.length

/-- **Parsing an INSERT ends** exactly if no pass of the `VALUES` loop begins at a token that
begins no expression, is no comma and does not end the list. -/
theorem insertEnds_iff {inp : Input} (heof : inp.EofLast)
    (hstof : ∀ text, inp.stof text ≠ .error .outOfFuel) :
    InsertEnds inp ↔ ∀ p, inp.PassAt p → ¬inp.Stuck p := by
  constructor
  · intro h p hpass hstuck
    exact h.ends _ le_rfl (Parser.parseInsert_spins heof hstof le_rfl hpass
      fun s hs => Parser.spins_of_stuck heof hstof le_rfl hstuck hs)
  · intro hmoves
    refine ⟨fun fuel hfuel => (Parser.parseInsert_ends heof hstof hfuel hmoves).1, ?_, ?_,
      fun fuel hfuel => (Parser.parseInsert_ends heof hstof hfuel hmoves).2⟩
    · intro s s' _ hrun
      obtain ⟨s₁, hrun', hpos, -⟩ := @Parser.namesPass_apply inp s
      obtain rfl : s₁ = s' := congrArg Prod.snd (hrun'.symm.trans hrun)
      have hle := @Input.le_skipComma inp s.position
      have hle' := @Input.le_skipComma inp (inp.skipComma s.position + 1)
      omega
    · intro fuel s s' hfuel hpass hgoes hrun
      rcases Parser.valuesPass_moves heof hstof hfuel hmoves hpass hgoes with
        ⟨i, s₁, -, hrun', hmoved, -⟩ | ⟨e, s₁, -, hrun', -⟩
      · obtain rfl : s₁ = s' := congrArg Prod.snd (hrun'.symm.trans hrun)
        exact hmoved
      · rw [hrun'] at hrun
        cases hrun

/-- `INSERT INTO t VALUES (7);` -/
theorem insertEnds_iff_sample : InsertEnds (insertInput [⟨.integerLiteral, str "7", 1⟩]) ↔
    ∀ p, (insertInput [⟨.integerLiteral, str "7", 1⟩]).PassAt p →
      ¬(insertInput [⟨.integerLiteral, str "7", 1⟩]).Stuck p :=
  insertEnds_iff (by rfl) fun _ => nofun

/-- Parsing `INSERT INTO t VALUES (1, FROM);` never ends: the loop over the values stays at
`FROM`. -/
theorem insert_spins_at_from : ¬ ∀ inp : Input, inp.EofLast → InsertEnds inp := by
  intro h
  have hends := h (insertInput [⟨.integerLiteral, str "1", 1⟩, ⟨.comma, str ",", 1⟩,
    ⟨.from, str "FROM", 1⟩]) (by rfl)
  exact hends.ends 11 (by decide) (by rfl)

end MicroSql
