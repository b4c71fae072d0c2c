import MicroSql.Lexer.Recased
import MicroSql.Parser.InsertValues

/-!
# Parsing a query with keywords in another letter case

Two token lists that differ in the spelling of keywords only.  The parser does the same on both
of them but at two places where it reads the spelling of a token that need not be an identifier:
the word after `CREATE`, and the column names of an `INSERT`.
-/

namespace MicroSql

open Lib Prog

/-! ### Tokens -/

/-- The types of tokens that are no keywords. -/
theorem Lexer.TokenLike.value_eq {t t' : Token} (h : Lexer.TokenLike t t')
    (htype : t.type ∈ [TokenType.identifier, .integerLiteral, .floatLiteral, .stringLiteral]) :
    t'.value = t.value := by
  rcases h.value with hsame | ⟨hkey, hword, -⟩
  · exact hsame
  · have hnone : ∀ e ∈ keywordMap,
        e.2 ∉ [TokenType.identifier, .integerLiteral, .floatLiteral, .stringLiteral] := by decide
    rw [← hword] at htype
    exact absurd htype (hnone _ (Lexer.getTokenTypeAlpha_mem hkey))

theorem Lexer.TokenLike.symm {t t' : Token} (h : Lexer.TokenLike t t') :
    Lexer.TokenLike t' t := by
  refine ⟨h.type.symm, h.line.symm, ?_⟩
  rcases h.value with hsame | ⟨hkey, hword, hupper⟩
  · exact .inl hsame.symm
  · have hsame : getTokenTypeAlpha t'.value = getTokenTypeAlpha t.value := by
      rw [getTokenTypeAlpha, getTokenTypeAlpha, hupper]
    exact .inr ⟨by rwa [hsame], by rw [hsame, hword, h.type], hupper.symm⟩

/-- A word that begins with a letter is no number. -/
theorem stoi_alpha {b : UInt8} {w : Str} (hb : Lexer.isWordStart b = true) :
    stoi (b :: w) = .error (.fault .uncaughtException) := by
  have hnone : ∀ {c}, Lexer.isWordStart c = false → b ≠ c := by
    rintro c hc rfl
    rw [hb] at hc
    cases hc
  have hspace := Lexer.isSpace_of_isWordChar (Lexer.isWordChar_of_isWordStart hb)
  have hdigit := (Lexer.not_number_of_isWordStart hb).1
  have hbody : Catalog.stoi (b :: w) = .error (.fault .uncaughtException) := by
    unfold Catalog.stoi
    -- no sign, and no digits
    split
    next hs =>
      split at hs
      next hminus =>
        cases hminus
        exact absurd rfl (hnone (c := 45) (by decide))
      next hplus =>
        cases hplus
        exact absurd rfl (hnone (c := 43) (by decide))
      next =>
        cases hs
        simp [hdigit]
  rw [stoi, List.dropWhile_cons_of_neg (by simp [hspace]), hbody]

/-- `std::stoi` reads the values of two such tokens alike. -/
theorem Lexer.TokenLike.stoi_eq {t t' : Token} (h : Lexer.TokenLike t t') :
    stoi t'.value = stoi t.value := by
  rcases h.value with hsame | ⟨hkey, -, hupper⟩
  · rw [hsame]
  · have hword : ∀ {w : Str}, toUpper w = toUpper t.value →
        stoi w = .error (.fault .uncaughtException) := by
      intro w hw
      obtain ⟨hne, halpha⟩ := Lexer.isAlpha_of_keyword hkey hw
      cases w with
      | nil => exact absurd rfl hne
      | cons b w =>
        exact stoi_alpha (Lexer.isWordStart_of_isAlpha (halpha b List.mem_cons_self))
    rw [hword hupper, hword rfl]

/-- Two inputs that differ in the spelling of keywords. -/
structure Input.Like (inp inp' : Input) : Prop where
  tokens : List.Forall₂ Lexer.TokenLike inp.tokens inp'.tokens
  stof : inp'.stof = inp.stof
  textLength : inp'.textLength = inp.textLength

theorem Input.Like.token {inp inp' : Input} (h : inp.Like inp') (p : ℕ) :
    Lexer.TokenLike (inp.token p) (inp'.token p) := by
  have hlength := h.tokens.length_eq
  have hget := List.forall₂_iff_get.1 h.tokens
  have hpos := inp.length_pos
  have hp : min p (inp.tokens.length - 1) < inp.tokens.length := by omega
  have hlike := hget.2 _ hp (by rw [← hlength]; exact hp)
  unfold Input.token
  simpa only [← hlength] using hlike

/-! ### Parsers side by side -/

/-- The same node, but for the text that is kept with a `NULL`. -/
def ExpressionLike (e e' : Expression) : Prop :=
  e' = e ∨ ∃ text text', e = .literalNull text ∧ e' = .literalNull text'

/-- The same statement, but for the column names of an `INSERT`, which `N` relates. -/
def StatementLike (N : List Str → List Str → Prop) (t t' : Statement) : Prop :=
  N t.insertColumnNames t'.insertColumnNames ∧
    t' = { t with insertColumnNames := t'.insertColumnNames }

namespace Parser

/-- The same place and the same result, but for texts that `NULL`s keep, column names and the
texts of errors. -/
structure Like (N : List Str → List Str → Prop) (s s' : Parser) : Prop where
  position : s'.position = s.position
  expressions : List.Forall₂ ExpressionLike s.result.expressions s'.result.expressions
  statement : StatementLike N s.result.statement s'.result.statement
  error : s'.result.error = [] ↔ s.result.error = []

/-- Two functions that return the same and keep the parsers alike. -/
def Twin {α : Type} (N : List Str → List Str → Prop) (c c' : Prog Parser Halt α) : Prop :=
  Sim (Like N) c c' (Like N) fun _ _ => True

section Twin

variable {N : List Str → List Str → Prop} {α β : Type} {c c' : Prog Parser Halt α}

namespace Twin

theorem pure (a : α) : Twin N (pure a) (pure a) := Sim.pure a

theorem fail (e : Halt) : Twin N (.fail e : Prog Parser Halt α) (.fail e) :=
  Sim.fail e fun _ _ _ => trivial

theorem lift (x : Except Halt α) : Twin N (.lift x) (.lift x) :=
  Sim.lift x fun _ _ _ => trivial

theorem bind {k k' : α → Prog Parser Halt β} (hc : Twin N c c') (hk : ∀ a, Twin N (k a) (k' a)) :
    Twin N (c >>= k) (c' >>= k') := Sim.bind hc hk

theorem ite {p : Prop} [Decidable p] {d d' : Prog Parser Halt α} (hc : Twin N c c')
    (hd : Twin N d d') : Twin N (if p then c else d) (if p then c' else d') := Sim.ite hc hd

theorem when {p : Prop} [Decidable p] {d d' : Prog Parser Halt Unit} (h : Twin N d d') :
    Twin N (.when p d) (.when p d') := ite h (pure ())

/-- `if (!c) return; d` -/
theorem guard {b b' : Prog Parser Halt Bool} {d d' : Prog Parser Halt Unit}
    (hb : Twin N b b') (hd : Twin N d d') : Twin N (do if ← b then d) (do if ← b' then d') :=
  bind hb fun _ => ite hd (pure _)

theorem modify {f f' : Parser → Parser} (h : ∀ {s s'}, Like N s s' → Like N (f s) (f' s')) :
    Twin N (.modify f) (.modify f') := fun _ _ hs => ⟨rfl, h hs⟩

theorem gets {f f' : Parser → α} (h : ∀ {s s'}, Like N s s' → f s = f' s') :
    Twin N (.gets f) (.gets f') := fun _ _ hs => ⟨congrArg Except.ok (h hs), hs⟩

/-- The other run of a function that returns. -/
theorem ok (h : Twin N c c') {s s' t : Parser} {a : α} (hs : Like N s s')
    (hc : c s = (.ok a, t)) : ∃ t', c' s' = (.ok a, t') ∧ Like N t t' := by
  rcases Sim.elim h hs with ⟨b, t₁, t', h₁, h', hlike⟩ | ⟨e, t₁, t', h₁, -⟩
  · rw [hc] at h₁
    cases h₁
    exact ⟨t', h', hlike⟩
  · rw [hc] at h₁
    cases h₁

end Twin

theorem advance_twin : Twin N advance advance :=
  .modify fun h => ⟨congrArg (· + 1) h.position, h.expressions, h.statement, h.error⟩

theorem setError_twin {text text' : Str} (h : text ≠ []) (h' : text' ≠ []) :
    Twin N (setError text) (setError text') :=
  .modify fun hs => ⟨hs.position, hs.expressions, hs.statement, iff_of_false h' h⟩

theorem setErrorIfEmpty_twin {text text' : Str} (h : text ≠ []) (h' : text' ≠ []) :
    Twin N (setErrorIfEmpty text) (setErrorIfEmpty text') := by
  refine .modify fun {s s'} hs => ?_
  by_cases herror : s.result.error = []
  · rw [if_pos herror, if_pos (hs.error.2 herror)]
    exact ⟨hs.position, hs.expressions, hs.statement, iff_of_false h' h⟩
  · rw [if_neg herror, if_neg (mt hs.error.1 herror)]
    exact hs

/-- Fields of the statement other than the column names are set alike. -/
theorem setStatement_twin {f : Statement → Statement}
    (hf : ∀ t names, f { t with insertColumnNames := names } =
      { f t with insertColumnNames := names }) (hkeep : ∀ t, (f t).insertColumnNames =
      t.insertColumnNames) : Twin N (setStatement f) (setStatement f) := by
  refine .modify fun {s s'} hs => ⟨hs.position, hs.expressions, ?_, hs.error⟩
  obtain ⟨hnames, heq⟩ := hs.statement
  refine ⟨by rwa [hkeep, hkeep], ?_⟩
  change f s'.result.statement = _
  rw [hkeep, ← hf, ← heq]

theorem push_twin {e e' : Expression} (h : ExpressionLike e e') : Twin N (push e) (push e') := by
  intro s s' hs
  rw [push_apply, push_apply, hs.expressions.length_eq]
  exact ⟨rfl, hs.position, List.rel_append hs.expressions (.cons h .nil), hs.statement, hs.error⟩

theorem parseLiteral_twin {e e' : Expression} (h : ExpressionLike e e') :
    Twin N (parseLiteral e) (parseLiteral e') :=
  .bind (push_twin h) fun _ => .bind advance_twin fun _ => .pure _

variable {inp inp' : Input} (h : inp.Like inp')
include h

theorem current_twin {k k' : Token → Prog Parser Halt α}
    (hk : ∀ {t t'}, Lexer.TokenLike t t' → Twin N (k t) (k' t')) :
    Twin N (current inp >>= k) (current inp' >>= k') := by
  intro s s' hs
  rw [current_bind, current_bind, hs.position]
  exact hk (h.token s.position) s s' hs

theorem peek_twin {k k' : Token → Prog Parser Halt α}
    (hk : ∀ {t t'}, Lexer.TokenLike t t' → Twin N (k t) (k' t')) :
    Twin N (peek inp >>= k) (peek inp' >>= k') := by
  intro s s' hs
  rw [peek_bind, peek_bind, hs.position]
  exact hk (h.token (s.position + 1)) s s' hs

theorem currentIs_twin (type : TokenType) :
    Twin N (currentIs inp type) (currentIs inp' type) :=
  current_twin h fun ht => by
    rw [ht.type]
    exact .pure _

theorem peekIs_twin (type : TokenType) : Twin N (peekIs inp type) (peekIs inp' type) :=
  peek_twin h fun ht => by
    rw [ht.type]
    exact .pure _

theorem consume_twin (type : TokenType) (name : Str) :
    Twin N (consume inp type name) (consume inp' type name) := by
  refine current_twin h fun ht => ?_
  rw [ht.type]
  exact .ite (.bind advance_twin fun _ => .pure _)
    (.bind (setError_twin (by simp) (by simp)) fun _ => .pure _)

theorem consumeIdentifier_twin (context : Str) :
    Twin N (consumeIdentifier inp context) (consumeIdentifier inp' context) := by
  refine current_twin h fun {t t'} ht => ?_
  rw [ht.type]
  by_cases htype : t.type = .identifier
  · rw [if_pos htype, if_pos htype, ht.value_eq (by simp [htype])]
    exact .bind advance_twin fun _ => .pure _
  · rw [if_neg htype, if_neg htype]
    exact .bind (setError_twin (by simp) (by simp)) fun _ => .pure _

theorem skipComma_twin : Twin N (skipComma inp) (skipComma inp') :=
  .bind (currentIs_twin h _) fun _ => .when advance_twin

/-! ### Expressions -/

theorem parseColumn_twin : Sim
    (fun s s' => Like N s s' ∧ (inp.token s.position).type = .identifier)
    (parseColumn inp) (parseColumn inp') (Like N) fun _ _ => True := by
  rintro s s' ⟨hs, htype⟩
  have hname := (h.token s.position).value_eq (by simp [htype])
  unfold parseColumn
  rw [current_bind, current_bind, hs.position]
  dsimp only
  rw [hname]
  refine peek_twin h (fun ht => ?_) s s' hs
  rw [ht.type]
  refine .ite (.bind advance_twin fun _ => peek_twin h fun {c c'} hc => ?_)
    (parseLiteral_twin (.inl rfl))
  rw [hc.type]
  by_cases hcolumn : c.type = .identifier
  · rw [if_pos hcolumn, if_pos hcolumn, hc.value_eq (by simp [hcolumn])]
    exact .bind advance_twin fun _ => parseLiteral_twin (.inl rfl)
  · rw [if_neg hcolumn, if_neg hcolumn]
    have hstart : str "Expected column name after '.' but found '" ≠ [] := by decide
    exact current_twin h fun _ =>
      .bind (setError_twin (by simp [hstart]) (by simp [hstart])) fun _ => .pure _

section Levels

variable {rec rec' : Prog Parser Halt ℤ} (hrec : Twin N rec rec')
include hrec

theorem parseParen_twin : Twin N (parseParen inp rec) (parseParen inp' rec') := by
  refine .bind advance_twin fun _ => .bind hrec fun index => .ite (.pure _)
    (current_twin h fun ht => ?_)
  rw [ht.type]
  exact .ite (.bind advance_twin fun _ => .pure _)
    (.bind (setError_twin (by simp) (by simp)) fun _ => .pure _)

theorem parsePrimary_twin : Twin N (parsePrimary inp rec) (parsePrimary inp' rec') := by
  intro s s' hs
  have ht := h.token s.position
  unfold parsePrimary
  rw [current_bind, current_bind, hs.position, ht.type]
  cases htype : (inp.token s.position).type
  case identifier => exact parseColumn_twin h s s' ⟨hs, htype⟩
  case integerLiteral =>
    dsimp only
    rw [ht.value_eq (by simp [htype])]
    exact Twin.bind (.lift _) (fun _ => parseLiteral_twin (.inl rfl)) s s' hs
  case floatLiteral =>
    dsimp only
    rw [ht.value_eq (by simp [htype]), h.stof]
    exact Twin.bind (.lift _) (fun _ => parseLiteral_twin (.inl rfl)) s s' hs
  case stringLiteral =>
    dsimp only
    rw [ht.value_eq (by simp [htype])]
    exact parseLiteral_twin (.inl rfl) s s' hs
  -- the spelling of `NULL` is kept with the node
  case tknull => exact parseLiteral_twin (.inr ⟨_, _, rfl, rfl⟩) s s' hs
  case true => exact parseLiteral_twin (.inl rfl) s s' hs
  case false => exact parseLiteral_twin (.inl rfl) s s' hs
  case leftParen => exact parseParen_twin h hrec s s' hs
  all_goals exact Twin.pure _ s s' hs

omit h in
theorem parsePrefix_twin (op : UnaryOperator) :
    Twin N (parsePrefix op rec) (parsePrefix op rec') :=
  .bind advance_twin fun _ => .bind hrec fun _ => .ite (.pure _) (push_twin (.inl rfl))

theorem parseUnary_twin : Twin N (parseUnary inp rec) (parseUnary inp' rec') :=
  .bind (currentIs_twin h _) fun _ =>
    .ite (parsePrefix_twin (parsePrimary_twin h hrec) _) (parsePrimary_twin h hrec)

theorem binaryRound_twin (opOf : TokenType → Option BinaryOperator) :
    Twin N (binaryRound inp opOf rec) (binaryRound inp' opOf rec') := by
  refine current_twin h fun {t t'} ht => ?_
  rw [ht.type]
  cases opOf t.type with
  | none => exact .pure _
  | some op => exact .bind advance_twin fun _ => .bind hrec fun _ => .pure _

theorem comparisonRound_twin :
    Twin N (comparisonRound inp rec) (comparisonRound inp' rec') := by
  have hoperand : ∀ op value value' line, Twin N (comparisonOperand op value line rec)
      (comparisonOperand op value' line rec') :=
    fun _ _ _ _ => .bind hrec fun _ =>
      .bind (.when (setErrorIfEmpty_twin (by simp) (by simp))) fun _ => .pure _
  refine current_twin h fun {t t'} ht => ?_
  rw [ht.type, ht.line]
  cases comparison t.type with
  | none => exact .pure _
  | some op =>
    refine peek_twin h fun hn => ?_
    rw [hn.type]
    exact .ite (.bind advance_twin fun _ => .bind advance_twin fun _ => hoperand _ _ _ _)
      (.bind advance_twin fun _ => hoperand _ _ _ _)

omit h in
theorem parseBinary_twin {round round' : Prog Parser Halt (Option (BinaryOperator × ℤ))}
    (hround : Twin N round round') (fuel : ℕ) :
    Twin N (parseBinary round rec fuel) (parseBinary round' rec' fuel) := by
  have hloop : ∀ n left, Twin N (binaryLoop round n left) (binaryLoop round' n left) := by
    intro n
    induction n with
    | zero => exact fun _ => .fail _
    | succ n ih =>
      intro left
      refine .bind hround fun x => ?_
      rcases x with _ | ⟨op, right⟩
      · exact .pure _
      · exact .ite (.pure _) (.bind (push_twin (.inl rfl)) fun _ => ih _)
  exact .bind hrec fun _ => .ite (.pure _) (hloop fuel _)

theorem parseMultiplyDivide_twin (fuel : ℕ) :
    Twin N (parseMultiplyDivide inp rec fuel) (parseMultiplyDivide inp' rec' fuel) :=
  parseBinary_twin (parseUnary_twin h hrec) (binaryRound_twin h (parseUnary_twin h hrec) _) fuel

theorem parseAddSubstract_twin (fuel : ℕ) :
    Twin N (parseAddSubstract inp rec fuel) (parseAddSubstract inp' rec' fuel) :=
  parseBinary_twin (parseMultiplyDivide_twin h hrec fuel)
    (binaryRound_twin h (parseMultiplyDivide_twin h hrec fuel) _) fuel

theorem parseComparison_twin (fuel : ℕ) :
    Twin N (parseComparison inp rec fuel) (parseComparison inp' rec' fuel) :=
  parseBinary_twin (parseAddSubstract_twin h hrec fuel)
    (comparisonRound_twin h (parseAddSubstract_twin h hrec fuel)) fuel

theorem parseNot_twin (fuel : ℕ) : Twin N (parseNot inp rec fuel) (parseNot inp' rec' fuel) :=
  .bind (currentIs_twin h _) fun _ => .ite (parsePrefix_twin (parseComparison_twin h hrec fuel) _)
    (parseComparison_twin h hrec fuel)

theorem parseAnd_twin (fuel : ℕ) : Twin N (parseAnd inp rec fuel) (parseAnd inp' rec' fuel) :=
  parseBinary_twin (parseNot_twin h hrec fuel) (binaryRound_twin h (parseNot_twin h hrec fuel) _)
    fuel

end Levels

theorem parseExpression_twin : ∀ fuel, Twin N (parseExpression inp fuel) (parseExpression inp' fuel)
  | 0 => .fail _
  | fuel + 1 =>
    have hand := parseAnd_twin h (parseExpression_twin fuel) fuel
    parseBinary_twin hand (binaryRound_twin h hand _) fuel

/-! ### Statements -/

theorem requireExpression_twin (fuel : ℕ) (context : Str) :
    Twin N (requireExpression inp fuel context) (requireExpression inp' fuel context) :=
  .bind (parseExpression_twin h fuel) fun _ => current_twin h fun _ =>
    .bind (.when (setErrorIfEmpty_twin (by simp) (by simp))) fun _ => .pure _

theorem parseWhere_twin (fuel : ℕ) : Twin N (parseWhere inp fuel) (parseWhere inp' fuel) :=
  .bind (currentIs_twin h _) fun _ => .ite
    (.bind advance_twin fun _ => .bind (requireExpression_twin h fuel _) fun _ => .ite (.pure _)
      (.bind (setStatement_twin (fun _ _ => rfl) fun _ => rfl) fun _ => .pure _))
    (.bind (setStatement_twin (fun _ _ => rfl) fun _ => rfl) fun _ => .pure _)

theorem parseTableName_twin (context : Str) :
    Twin N (parseTableName inp context) (parseTableName inp' context) := by
  refine .bind (consumeIdentifier_twin h context) fun name => ?_
  cases name with
  | none => exact .pure _
  | some name =>
    exact .bind (setStatement_twin (fun _ _ => rfl) fun _ => rfl) fun _ => .pure _

theorem parseSelect_twin (fuel : ℕ) : Twin N (parseSelect inp fuel) (parseSelect inp' fuel) := by
  have hlist : ∀ rounds, Twin N (selectList inp fuel rounds) (selectList inp' fuel rounds) := by
    intro rounds
    induction rounds with
    | zero => exact .fail _
    | succ rounds ih =>
      refine current_twin h fun ht => ?_
      rw [ht.type]
      have hstart : str "Unknown expression at line " ≠ [] := by decide
      exact .ite (.pure _) (.bind (parseExpression_twin h fuel) fun _ => .ite
        (current_twin h fun _ => .bind (setErrorIfEmpty_twin (by simp [hstart])
          (by simp [hstart])) fun _ => .pure _)
        (.bind (setStatement_twin (fun _ _ => rfl) fun _ => rfl) fun _ =>
          .bind (skipComma_twin h) fun _ => ih))
  have hcolumns : Twin N (selectColumns inp fuel) (selectColumns inp' fuel) := by
    refine .bind (currentIs_twin h _) fun _ => .ite
      (.bind advance_twin fun _ => current_twin h fun ht => ?_) (hlist fuel)
    rw [ht.type]
    exact .ite (.pure _) (.bind (setError_twin (by simp) (by simp)) fun _ => .pure _)
  exact .bind advance_twin fun _ => .bind (setStatement_twin (fun _ _ => rfl) fun _ => rfl) fun _ =>
    .guard hcolumns (.guard (currentIs_twin h _) (.bind advance_twin fun _ =>
      .guard (parseTableName_twin h _) (.bind (parseWhere_twin h fuel) fun _ => .pure _)))

theorem parseDelete_twin (fuel : ℕ) : Twin N (parseDelete inp fuel) (parseDelete inp' fuel) :=
  .bind advance_twin fun _ => .bind (setStatement_twin (fun _ _ => rfl) fun _ => rfl) fun _ =>
    .guard (consume_twin h _ _) (.guard (parseTableName_twin h _)
      (.guard (parseWhere_twin h fuel) (.bind (consume_twin h _ _) fun _ => .pure _)))

theorem parseAssignment_twin (fuel : ℕ) :
    Twin N (parseAssignment inp fuel) (parseAssignment inp' fuel) := by
  refine .bind (consumeIdentifier_twin h _) fun name => ?_
  cases name with
  | none => exact .pure _
  | some name =>
    exact .bind (consume_twin h _ _) fun _ => .ite
      (.bind (requireExpression_twin h fuel _) fun _ => .ite (.pure _)
        (.bind (setStatement_twin (fun _ _ => rfl) fun _ => rfl) fun _ => .pure _)) (.pure _)

theorem assignments_twin (fuel : ℕ) :
    ∀ rounds, Twin N (assignments inp fuel rounds) (assignments inp' fuel rounds)
  | 0 => .fail _
  | rounds + 1 =>
    .bind (currentIs_twin h _) fun _ => .ite (.bind advance_twin fun _ =>
      .bind (parseAssignment_twin h fuel) fun _ => .ite (assignments_twin fuel rounds) (.pure _))
      (.pure _)

theorem parseUpdate_twin (fuel : ℕ) : Twin N (parseUpdate inp fuel) (parseUpdate inp' fuel) :=
  .bind advance_twin fun _ => .bind (setStatement_twin (fun _ _ => rfl) fun _ => rfl) fun _ =>
    .guard (parseTableName_twin h _) (.guard (consume_twin h _ _)
      (.guard (parseAssignment_twin h fuel) (.guard (assignments_twin h fuel fuel)
        (.guard (parseWhere_twin h fuel) (.bind (consume_twin h _ _) fun _ => .pure _)))))

theorem parseDrop_twin : Twin N (parseDrop inp) (parseDrop inp') :=
  .bind advance_twin fun _ => .bind (setStatement_twin (fun _ _ => rfl) fun _ => rfl) fun _ =>
    .guard (consume_twin h _ _) (.guard (parseTableName_twin h _)
      (.bind (consume_twin h _ _) fun _ => .pure _))

theorem columnType_twin : Twin N (columnType inp) (columnType inp') := by
  refine current_twin h fun {t t'} ht => .bind (.gets fun {s s'} hs => ?_) fun undefined => ?_
  · obtain ⟨-, heq⟩ := hs.statement
    rw [heq, h.textLength]
  rw [ht.type]
  cases t.type
  case integer => exact .bind advance_twin fun _ => .pure _
  case float => exact .bind advance_twin fun _ => .pure _
  case boolean => exact .bind advance_twin fun _ => .pure _
  case text =>
    refine .bind (peekIs_twin h _) fun _ => .ite (.bind advance_twin fun _ => .bind advance_twin
      fun _ => current_twin h fun hlength => ?_) (.bind advance_twin fun _ => .pure _)
    rw [hlength.stoi_eq]
    exact .bind (.lift _) fun _ => .bind advance_twin fun _ => .bind (consume_twin h _ _) fun _ =>
      .ite (.pure _) (.pure _)
  all_goals exact .bind (setError_twin (by simp) (by simp)) fun _ => .pure _

theorem columnConstraints_twin : ∀ rounds column, Twin N (columnConstraints inp rounds column)
    (columnConstraints inp' rounds column)
  | 0, _ => .fail _
  | rounds + 1, column => by
    have hboth : ∀ first second,
        Twin N (consumeBoth inp first second) (consumeBoth inp' first second) := fun _ _ =>
      .bind (currentIs_twin h _) fun _ => .bind (peekIs_twin h _) fun _ => .ite
        (.bind advance_twin fun _ => .bind advance_twin fun _ => .pure _) (.pure _)
    refine current_twin h fun ht => ?_
    rw [ht.type]
    exact .ite (.bind (hboth _ _) fun _ => .bind (hboth _ _) fun _ =>
      columnConstraints_twin rounds _) (.pure _)

theorem columnDefinition_twin (fuel : ℕ) :
    Twin N (columnDefinition inp fuel) (columnDefinition inp' fuel) := by
  refine .bind (consumeIdentifier_twin h _) fun name => ?_
  cases name with
  | none => exact .pure _
  | some name =>
    refine .bind (columnType_twin h) fun type => ?_
    rcases type with _ | ⟨type, textLength⟩
    · exact .pure _
    · exact .bind (columnConstraints_twin h fuel _) fun _ =>
        .bind (setStatement_twin (fun _ _ => rfl) fun _ => rfl) fun _ => .pure _

theorem columnDefinitions_twin (fuel : ℕ) :
    ∀ rounds, Twin N (columnDefinitions inp fuel rounds) (columnDefinitions inp' fuel rounds)
  | 0 => .fail _
  | rounds + 1 => by
    refine current_twin h fun ht => ?_
    rw [ht.type]
    exact .ite (.pure _) (.bind (columnDefinition_twin h fuel) fun _ => .ite
      (.bind (skipComma_twin h) fun _ => columnDefinitions_twin fuel rounds) (.pure _))

theorem parseCreateTable_twin (fuel : ℕ) :
    Twin N (parseCreateTable inp fuel) (parseCreateTable inp' fuel) :=
  .bind advance_twin fun _ => .bind (setStatement_twin (fun _ _ => rfl) fun _ => rfl) fun _ =>
    .guard (parseTableName_twin h _) (.guard (consume_twin h _ _)
      (.guard (columnDefinitions_twin h fuel fuel) (.bind advance_twin fun _ =>
        .bind (consume_twin h _ _) fun _ => .pure _)))

theorem parseCreateIndex_twin : Twin N (parseCreateIndex inp) (parseCreateIndex inp') := by
  refine .bind advance_twin fun _ => .bind (setStatement_twin (fun _ _ => rfl) fun _ => rfl)
    fun _ => .guard (consume_twin h _ _) (.guard (parseTableName_twin h _)
      (.guard (consume_twin h _ _) (.bind (consumeIdentifier_twin h _) fun name => ?_)))
  cases name with
  | none => exact .pure _
  | some name =>
    exact .bind (setStatement_twin (fun _ _ => rfl) fun _ => rfl) fun _ =>
      .guard (consume_twin h _ _) (.bind (consume_twin h _ _) fun _ => .pure _)

/-- The word after `CREATE` is compared as it is spelled. -/
theorem parseCreate_twin (fuel : ℕ) : Sim
    (fun s s' => Like N s s' ∧
      (inp'.token (s.position + 1)).value = (inp.token (s.position + 1)).value)
    (parseCreate inp fuel) (parseCreate inp' fuel) (Like N) fun _ _ => True := by
  rintro s s' ⟨hs, hspelling⟩
  unfold parseCreate
  rw [advance_bind, advance_bind, current_bind, current_bind, hs.position]
  dsimp only
  rw [hspelling]
  refine Twin.ite (N := N) (parseCreateTable_twin h fuel) (.ite (parseCreateIndex_twin h)
    (setError_twin (by simp) (by simp))) _ _ ⟨rfl, hs.expressions, hs.statement, hs.error⟩

/-! ### INSERT -/

theorem insertValue_twin (fuel : ℕ) : Twin N (insertValue inp fuel) (insertValue inp' fuel) :=
  .bind (parseExpression_twin h fuel) fun _ => setStatement_twin (fun _ _ => rfl) fun _ => rfl

theorem insertValues_twin (fuel : ℕ) :
    ∀ rounds, Twin N (insertValues inp fuel rounds) (insertValues inp' fuel rounds)
  | 0 => .fail _
  | rounds + 1 => by
    refine current_twin h fun ht => ?_
    rw [ht.type]
    exact .ite (.pure _) (.bind (skipComma_twin h) fun _ => .bind (insertValue_twin h fuel) fun _ =>
      .bind (skipComma_twin h) fun _ => insertValues_twin fuel rounds)

theorem insertRow_twin (fuel : ℕ) : Twin N (insertRow inp fuel) (insertRow inp' fuel) :=
  .bind (currentIs_twin h _) fun _ => .ite (.bind advance_twin fun _ =>
    .bind (insertValue_twin h fuel) fun _ => .bind (currentIs_twin h _) fun _ =>
      .bind (.when (.bind advance_twin fun _ => insertValues_twin h fuel fuel)) fun _ =>
        .guard (consume_twin h _ _) (.bind (consume_twin h _ _) fun _ => .pure _)) (.pure _)

/-- The column names may differ in everything. -/
theorem insertColumns_twin (fuel : ℕ) :
    Twin (fun _ _ => True) (insertColumns inp fuel) (insertColumns inp' fuel) := by
  have hname : Twin (fun _ _ => True) (insertName inp) (insertName inp') := by
    refine current_twin h fun {t t'} _ => .bind (.modify fun {s s'} hs => ?_) fun _ => advance_twin
    obtain ⟨-, heq⟩ := hs.statement
    refine ⟨hs.position, hs.expressions, ⟨trivial, ?_⟩, hs.error⟩
    dsimp only
    rw [heq]
  have hnames : ∀ rounds,
      Twin (fun _ _ => True) (insertNames inp rounds) (insertNames inp' rounds) := by
    intro rounds
    induction rounds with
    | zero => exact .fail _
    | succ rounds ih =>
      refine current_twin h fun ht => ?_
      rw [ht.type]
      exact .ite (.pure _) (.bind (skipComma_twin h) fun _ => .bind hname fun _ =>
        .bind (skipComma_twin h) fun _ => ih)
  exact .bind (currentIs_twin h _) fun _ => .ite (.bind advance_twin fun _ => .bind hname fun _ =>
    .bind (hnames fuel) fun _ => consume_twin h _ _) (.pure _)

end Twin

end Parser

/-! ### The spelling that counts -/

namespace Input

/-- The positions of the column names of an `INSERT`. -/
def NamesAt (inp : Input) (js : List ℕ) : Prop :=
  ((inp.token 3).type ≠ .leftParen ∧ js = []) ∨
    ((inp.token 3).type = .leftParen ∧ ∃ q ks, inp.Names 5 q ks ∧ js = 4 :: ks)

/-- The word after `CREATE` and the column names of an `INSERT` are spelled alike. -/
structure SpellingKept (inp inp' : Input) : Prop where
  create : (inp.token 0).type = .create → (inp'.token 1).value = (inp.token 1).value
  names : (inp.token 0).type = .insert → ∀ js, inp.NamesAt js → ∀ j ∈ js,
    (inp'.token j).value = (inp.token j).value

variable {inp inp' : Input}

theorem NamesAt.unique {js js' : List ℕ} (h : inp.NamesAt js) (h' : inp.NamesAt js') :
    js = js' := by
  rcases h with ⟨hnot, rfl⟩ | ⟨hopen, q, ks, hks, rfl⟩
  · rcases h' with ⟨-, rfl⟩ | ⟨hopen, -⟩
    · rfl
    · exact absurd hopen hnot
  · rcases h' with ⟨hnot, -⟩ | ⟨-, q', ks', hks', rfl⟩
    · exact absurd hopen hnot
    · rw [(hks.unique hks').2]

theorem Like.skipComma (h : inp.Like inp') (p : ℕ) : inp'.skipComma p = inp.skipComma p := by
  unfold Input.skipComma
  rw [(h.token p).type]

/-- The names stand at the same places. -/
theorem Like.names (h : inp.Like inp') {p q : ℕ} {js : List ℕ} (hnames : inp.Names p q js) :
    inp'.Names p q js := by
  induction hnames with
  | nil hends => exact .nil (by rwa [(h.token _).type])
  | cons hgoes _ ih =>
    have hcons := Names.cons (by rwa [(h.token _).type]) (by rwa [h.skipComma, h.skipComma])
    rwa [h.skipComma] at hcons

end Input

namespace Parser

variable {inp inp' : Input} {s s' t : Parser} {fuel : ℕ}

/-- Both runs of an accepted `INSERT`: the statements agree but for the column names, and these
are the spellings of the tokens at the same places. -/
theorem parseInsert_twin (h : inp.Like inp') (hs : Like (fun _ _ => True) s s')
    (hposition : s.position = 0) (hnone : s.result.statement.insertColumnNames = [])
    (hnone' : s'.result.statement.insertColumnNames = [])
    (hrun : parseInsert inp fuel s = (.ok (), t)) (herror : t.result.error = []) :
    ∃ t' js, parseInsert inp' fuel s' = (.ok (), t') ∧ inp.NamesAt js ∧
      Like (fun names names' => names = js.map (fun j => (inp.token j).value) ∧
        names' = js.map (fun j => (inp'.token j).value)) t t' := by
  unfold parseInsert at hrun ⊢
  rw [advance_bind, setStatement_bind] at hrun ⊢
  obtain ⟨s₁, h₁, hafter₁⟩ := step_of_accepted hrun herror consume_false
  obtain ⟨s₂, h₂, hafter₂⟩ := step_of_accepted hafter₁ herror parseTableName_false
  obtain ⟨s₃, h₃, hafter₃⟩ := step_of_accepted hafter₂ herror insertColumns_false
  have hstart : Like (fun _ _ => True)
      { s with position := s.position + 1, result := { s.result with
        statement := { s.result.statement with kind := .insert } } }
      { s' with position := s'.position + 1, result := { s'.result with
        statement := { s'.result.statement with kind := .insert } } } := by
    refine ⟨congrArg (· + 1) hs.position, hs.expressions, ⟨trivial, ?_⟩, hs.error⟩
    dsimp only
    rw [hs.statement.2]
  obtain ⟨s₁', h₁', hlike⟩ := (consume_twin h _ _).ok hstart h₁
  obtain ⟨-, rfl⟩ := consume_true h₁
  obtain ⟨-, rfl⟩ := consume_true h₁'
  obtain ⟨s₂', h₂', hlike⟩ := (parseTableName_twin h _).ok hlike h₂
  obtain ⟨-, rfl⟩ := parseTableName_true h₂
  obtain ⟨-, rfl⟩ := parseTableName_true h₂'
  obtain ⟨s₃', h₃', hlike⟩ := (insertColumns_twin h fuel).ok hlike h₃
  -- the column names of both runs
  obtain ⟨js, hjs, hnames, hnames'⟩ : ∃ js, inp.NamesAt js ∧
      s₃.result.statement.insertColumnNames = js.map (fun j => (inp.token j).value) ∧
      s₃'.result.statement.insertColumnNames = js.map (fun j => (inp'.token j).value) := by
    have hposition' : s'.position = 0 := by rw [hs.position, hposition]
    rcases insertColumns_names h₃ with ⟨hnot, rfl⟩ | ⟨hopen, q, ks, hks, -, -, hkeep⟩
    · rcases insertColumns_names h₃' with ⟨-, rfl⟩ | ⟨hopen, -⟩
      · exact ⟨[], .inl ⟨by simpa [hposition] using hnot, rfl⟩, hnone, hnone'⟩
      · refine absurd ?_ hnot
        rw [(h.token _).type] at hopen
        simpa only [hposition, hposition'] using hopen
    · rcases insertColumns_names h₃' with ⟨hnot, -⟩ | ⟨-, q', ks', hks', -, -, hkeep'⟩
      · refine absurd ?_ hnot
        rw [(h.token _).type]
        simpa only [hposition, hposition'] using hopen
      · dsimp only at hks hks' hopen hkeep hkeep'
        rw [hposition] at hks hopen hkeep
        rw [hposition'] at hks' hkeep'
        obtain ⟨-, rfl⟩ := (h.names hks).unique hks'
        refine ⟨_, .inr ⟨hopen, q, ks, hks, rfl⟩, ?_, ?_⟩
        · rw [hkeep]
          simp [hnone]
        · rw [hkeep']
          simp [hnone']
  have hlike : Like (fun names names' => names = js.map (fun j => (inp.token j).value) ∧
      names' = js.map (fun j => (inp'.token j).value)) s₃ s₃' :=
    ⟨hlike.position, hlike.expressions, ⟨⟨hnames, hnames'⟩, hlike.statement.2⟩, hlike.error⟩
  obtain ⟨t', hrun', hlike⟩ := (Twin.guard (consume_twin h _ _) (insertRow_twin h fuel)).ok hlike
    hafter₃
  refine ⟨t', js, ?_, hjs, hlike⟩
  rw [bind_ok h₁', if_pos rfl, bind_ok h₂', if_pos rfl, bind_ok h₃', if_pos rfl]
  exact hrun'

end Parser

/-! ### The two results -/

/-- The same statement and the same expressions, but for the texts that `NULL`s keep. -/
structure ParseResult.Same (r r' : ParseResult) : Prop where
  statement : r'.statement = r.statement
  expressions : List.Forall₂ ExpressionLike r.expressions r'.expressions

namespace Parser

variable {inp inp' : Input} {t : Parser} {fuel : ℕ}

theorem Like.same {t' : Parser} (h : Like Eq t t') : t.result.Same t'.result := by
  obtain ⟨hnames, heq⟩ := h.statement
  refine ⟨?_, h.expressions⟩
  rw [heq, ← hnames]

/-- A `CREATE` whose next token is spelled in another way. -/
theorem parseCreate_respelled (h : inp.Like inp') {s : Parser}
    (hrun : parseCreate inp fuel s = (.ok (), t)) (herror : t.result.error = [])
    (hspelling : (inp'.token (s.position + 1)).value ≠ (inp.token (s.position + 1)).value) :
    ∃ t', parseCreate inp' fuel s = (.ok (), t') ∧ t'.result.error ≠ [] := by
  have hupper := ((h.token (s.position + 1)).value.resolve_left hspelling).2.2
  unfold parseCreate at hrun ⊢
  rw [advance_bind, current_bind] at hrun ⊢
  dsimp only at hrun hspelling hupper ⊢
  generalize (inp.token (s.position + 1)).value = word at hrun hspelling hupper
  have hword : word = str "TABLE" ∨ word = str "INDEX" := by
    by_contra hnone
    rw [not_or] at hnone
    rw [if_neg hnone.1, if_neg hnone.2] at hrun
    cases hrun
    simp at herror
  -- another spelling of one of the two words is none of them
  have hneither : (inp'.token (s.position + 1)).value ≠ str "TABLE" ∧
      (inp'.token (s.position + 1)).value ≠ str "INDEX" := by
    rcases hword with rfl | rfl
    · refine ⟨hspelling, fun hindex => ?_⟩
      rw [hindex] at hupper
      exact absurd hupper (by decide)
    · refine ⟨fun htable => ?_, hspelling⟩
      rw [htable] at hupper
      exact absurd hupper (by decide)
  rw [if_neg hneither.1, if_neg hneither.2]
  exact ⟨_, rfl, by simp⟩

theorem parseStatement_alike (h : inp.Like inp') (hrun : parseStatement inp fuel {} = (.ok (), t))
    (herror : t.result.error = []) : ∃ t', parseStatement inp' fuel {} = (.ok (), t') ∧
      ((t'.result.error = [] ∧ t.result.Same t'.result) ↔ inp.SpellingKept inp') := by
  have hstart : ∀ {N : List Str → List Str → Prop}, N [] [] → Like N {} {} :=
    fun hN => ⟨rfl, .nil, ⟨hN, rfl⟩, Iff.rfl⟩
  have ht := (h.token 0).type
  unfold parseStatement at hrun ⊢
  rw [current_bind] at hrun ⊢
  dsimp only at hrun ⊢
  rw [ht]
  -- where the two runs agree in everything
  have hwhole : ∀ {c' : Prog Parser Halt Unit}, (∃ t', c' {} = (.ok (), t') ∧ Like Eq t t') →
      inp.SpellingKept inp' → ∃ t', c' {} = (.ok (), t') ∧
        ((t'.result.error = [] ∧ t.result.Same t'.result) ↔ inp.SpellingKept inp') := by
    rintro c' ⟨t', hrun', hlike⟩ hkept
    exact ⟨t', hrun', iff_of_true ⟨hlike.error.2 herror, hlike.same⟩ hkept⟩
  cases htype : (inp.token 0).type <;> rw [htype] at hrun <;> dsimp only at hrun ⊢
  case select =>
    exact hwhole ((parseSelect_twin h fuel).ok (hstart rfl) hrun)
      ⟨by simp [htype], by simp [htype]⟩
  case update =>
    exact hwhole ((parseUpdate_twin h fuel).ok (hstart rfl) hrun)
      ⟨by simp [htype], by simp [htype]⟩
  case delete =>
    exact hwhole ((parseDelete_twin h fuel).ok (hstart rfl) hrun)
      ⟨by simp [htype], by simp [htype]⟩
  case drop =>
    exact hwhole ((parseDrop_twin h).ok (hstart rfl) hrun) ⟨by simp [htype], by simp [htype]⟩
  case create =>
    by_cases hspelling : (inp'.token 1).value = (inp.token 1).value
    · refine hwhole ?_ ⟨fun _ => hspelling, by simp [htype]⟩
      rcases Sim.elim (parseCreate_twin h fuel) ⟨hstart rfl, hspelling⟩ with
        ⟨⟨⟩, t₁, t', h₁, h', hlike⟩ | ⟨e, t₁, t', h₁, -⟩
      · rw [hrun] at h₁
        cases h₁
        exact ⟨t', h', hlike⟩
      · rw [hrun] at h₁
        cases h₁
    · obtain ⟨t', hrun', hfails⟩ := parseCreate_respelled h hrun herror hspelling
      exact ⟨t', hrun', iff_of_false (fun hsame => hfails hsame.1)
        fun hkept => hspelling (hkept.create htype)⟩
  case insert =>
    obtain ⟨t', js, hrun', hjs, hlike⟩ :=
      parseInsert_twin h (hstart trivial) rfl rfl rfl hrun herror
    refine ⟨t', hrun', ?_⟩
    obtain ⟨⟨hnames, hnames'⟩, heq⟩ := hlike.statement
    constructor
    · rintro ⟨-, hsame⟩
      refine ⟨by simp [htype], fun _ js' hjs' => ?_⟩
      obtain rfl := hjs.unique hjs'
      rw [hsame.statement, hnames] at hnames'
      exact fun j hj => (List.map_inj_left.1 hnames' j hj).symm
    · intro hkept
      refine ⟨hlike.error.2 herror, ?_, hlike.expressions⟩
      rw [heq, hnames', List.map_congr_left (hkept.names htype js hjs), ← hnames]
  all_goals
    cases hrun
    simp at herror

end Parser

/-- **Two queries that differ in the case of letters outside of literals.**  If the first is
accepted, the second is accepted too, and means the same, exactly if the spelling is kept where the
parser reads it.  The positions of all quotes are such that `int` can hold them. -/
theorem parse_recased {q q' : Str} (h : Lexer.Recased q q')
    (hquotes : ∀ k, q.getD k 0 = Lexer.quote → k + 1 < 2 ^ 31) {n fuel : ℕ} {inp : Input}
    {r : ParseResult} (hlex : Lexer.tokenize n { query := q } = .ok inp.tokens)
    (hparse : parse fuel inp = .ok r) (herror : r.error = []) :
    ∃ inp' : Input, Lexer.tokenize n { query := q' } = .ok inp'.tokens ∧ inp'.stof = inp.stof ∧
      inp'.textLength = inp.textLength ∧ ∃ r', parse fuel inp' = .ok r' ∧
        ((r'.error = [] ∧ r.Same r') ↔ inp.SpellingKept inp') := by
  have halike := Lexer.tokenize_alike h hquotes n
  rw [hlex] at halike
  rcases hlex' : Lexer.tokenize n { query := q' } with e | ts
  · rw [hlex'] at halike
    exact halike.elim
  rw [hlex'] at halike
  have hnonempty : ts ≠ [] := by
    rintro rfl
    exact inp.nonempty (List.forall₂_nil_right_iff.1 halike)
  have hlike : inp.Like ⟨ts, hnonempty, inp.stof, inp.textLength⟩ := ⟨halike, rfl, rfl⟩
  refine ⟨⟨ts, hnonempty, inp.stof, inp.textLength⟩, rfl, rfl, rfl, ?_⟩
  unfold parse at hparse ⊢
  rcases hrun : Parser.parseStatement inp fuel {} with ⟨e | ⟨⟩, t⟩
  · rw [hrun] at hparse
    cases hparse
  rw [hrun] at hparse
  cases hparse
  obtain ⟨t', hrun', hiff⟩ := Parser.parseStatement_alike hlike hrun herror
  rw [hrun']
  exact ⟨t'.result, rfl, hiff⟩

/-- In a short query no literal is too far to the right. -/
theorem quotes_of_length {q : Str} (hlength : q.length < 2 ^ 31) (k : ℕ)
    (hk : q.getD k 0 = Lexer.quote) : k + 1 < 2 ^ 31 := by
  have hlt := Lexer.lt_length_of_getD (by decide) hk
  omega

/-- The tokens of `DROP TABLE t;`. -/
def dropInput : Input where
  tokens := [⟨.drop, str "DROP", 1⟩, ⟨.table, str "TABLE", 1⟩, ⟨.identifier, str "t", 1⟩,
    ⟨.semicolon, str ";", 1⟩, ⟨.endOfFile, [], 1⟩]
  nonempty := by simp
  stof _ := .ok ⟨0⟩
  textLength _ := 0

/-- What `parse` returns for it. -/
def dropResult : ParseResult where
  expressions := []
  statement := { kind := .dropTable, tableName := str "t" }

/-- `DROP TABLE t;`, in both cases. -/
theorem parse_recased_sample : ∃ inp' : Input,
    Lexer.tokenize 14 { query := str "drop table t;" } = .ok inp'.tokens ∧
      inp'.stof = dropInput.stof ∧ inp'.textLength = dropInput.textLength ∧
      ∃ r', parse 1 inp' = .ok r' ∧
        ((r'.error = [] ∧ dropResult.Same r') ↔ dropInput.SpellingKept inp') := by
  have h : Lexer.Recased (str "DROP TABLE t;") (str "drop table t;") :=
    @Lexer.Recased.word (str "DROP") (str "drop") _ _ (by decide)
      (List.all_eq_true.1 (by decide)) (by decide) (.inr ⟨by decide, by decide⟩) <|
    .other (by decide) (by decide) (by decide) <|
    @Lexer.Recased.word (str "TABLE") (str "table") _ _ (by decide)
      (List.all_eq_true.1 (by decide)) (by decide) (.inr ⟨by decide, by decide⟩) <|
    .other (by decide) (by decide) (by decide) <|
    @Lexer.Recased.word (str "t") (str "t") _ _ (by decide)
      (List.all_eq_true.1 (by decide)) (by decide) (.inl rfl) <|
    .other (by decide) (by decide) (by decide) .nil
  exact parse_recased h (quotes_of_length (by decide)) (by rfl) (by rfl) rfl

/-- The tokens of `CREATE TABLE t (a INTEGER);`, with the second word as it is spelled. -/
def createInput (word : Str) : Input where
  tokens := [⟨.create, str "CREATE", 1⟩, ⟨.table, word, 1⟩, ⟨.identifier, str "t", 1⟩,
    ⟨.leftParen, str "(", 1⟩, ⟨.identifier, str "a", 1⟩, ⟨.integer, str "INTEGER", 1⟩,
    ⟨.rightParen, str ")", 1⟩, ⟨.semicolon, str ";", 1⟩, ⟨.endOfFile, [], 1⟩]
  nonempty := by simp
  stof _ := .ok ⟨0⟩
  textLength _ := 0

/-- `CREATE TABLE t (a INTEGER);` is accepted, and `CREATE table t (a INTEGER);` is not. -/
theorem keywords_respelled : ¬ ∀ (q q' : Str) (n fuel : ℕ) (inp inp' : Input) (r r' : ParseResult),
    Lexer.Recased q q' → Lexer.tokenize n { query := q } = .ok inp.tokens →
    Lexer.tokenize n { query := q' } = .ok inp'.tokens → inp'.stof = inp.stof →
    inp'.textLength = inp.textLength → parse fuel inp = .ok r → parse fuel inp' = .ok r' →
    r.error = [] → r'.error = [] ∧ r.Same r' := by
  intro hclaim
  have h : Lexer.Recased (str "CREATE TABLE t (a INTEGER);")
      (str "CREATE table t (a INTEGER);") :=
    @Lexer.Recased.word (str "CREATE") (str "CREATE") _ _ (by decide)
      (List.all_eq_true.1 (by decide)) (by decide) (.inl rfl) <|
    .other (by decide) (by decide) (by decide) <|
    @Lexer.Recased.word (str "TABLE") (str "table") _ _ (by decide)
      (List.all_eq_true.1 (by decide)) (by decide) (.inr ⟨by decide, by decide⟩) <|
    .other (by decide) (by decide) (by decide) <|
    @Lexer.Recased.word (str "t") (str "t") _ _ (by decide)
      (List.all_eq_true.1 (by decide)) (by decide) (.inl rfl) <|
    .other (by decide) (by decide) (by decide) <|
    .other (by decide) (by decide) (by decide) <|
    @Lexer.Recased.word (str "a") (str "a") _ _ (by decide)
      (List.all_eq_true.1 (by decide)) (by decide) (.inl rfl) <|
    .other (by decide) (by decide) (by decide) <|
    @Lexer.Recased.word (str "INTEGER") (str "INTEGER") _ _ (by decide)
      (List.all_eq_true.1 (by decide)) (by decide) (.inl rfl) <|
    .other (by decide) (by decide) (by decide) <|
    .other (by decide) (by decide) (by decide) .nil
  have hfails := (hclaim _ _ 28 3 (createInput (str "TABLE")) (createInput (str "table"))
    _ _ h (by rfl) (by rfl) rfl rfl (by rfl) (by rfl) rfl).1
  exact absurd hfails (by decide)

end MicroSql
