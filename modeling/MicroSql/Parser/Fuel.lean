import MicroSql.Parser.Statements

/-!
# Rounds

A run that does not run out of rounds does the same with more of them.
-/

namespace MicroSql

open Lib Prog

namespace Parser

variable {inp : Input} {rec rec' : Prog Parser Halt ℤ}

theorem parseParen_guards (hrec : Guards .outOfFuel rec rec') :
    Guards .outOfFuel (parseParen inp rec) (parseParen inp rec') :=
  .bind (.refl _ _) fun _ => .bind hrec fun _ => .refl _ _

theorem parsePrimary_guards (hrec : Guards .outOfFuel rec rec') :
    Guards .outOfFuel (parsePrimary inp rec) (parsePrimary inp rec') := by
  refine .bind (.refl _ _) fun token => ?_
  cases token.type
  case leftParen => exact parseParen_guards hrec
  all_goals exact .refl _ _

theorem parsePrefix_guards {op : UnaryOperator} (hrec : Guards .outOfFuel rec rec') :
    Guards .outOfFuel (parsePrefix op rec) (parsePrefix op rec') :=
  .bind (.refl _ _) fun _ => .bind hrec fun _ => .refl _ _

theorem parseUnary_guards (hrec : Guards .outOfFuel rec rec') :
    Guards .outOfFuel (parseUnary inp rec) (parseUnary inp rec') :=
  .bind (.refl _ _) fun _ =>
    .ite (parsePrefix_guards (parsePrimary_guards hrec)) (parsePrimary_guards hrec)

section Loops

variable {round round' : Prog Parser Halt (Option (BinaryOperator × ℤ))}

theorem binaryRound_guards {opOf : TokenType → Option BinaryOperator}
    (hrec : Guards .outOfFuel rec rec') :
    Guards .outOfFuel (binaryRound inp opOf rec) (binaryRound inp opOf rec') := by
  refine .bind (.refl _ _) fun token => ?_
  cases opOf token.type with
  | none => exact .refl _ _
  | some op => exact .bind (.refl _ _) fun _ => .bind hrec fun _ => .refl _ _

theorem comparisonRound_guards (hrec : Guards .outOfFuel rec rec') :
    Guards .outOfFuel (comparisonRound inp rec) (comparisonRound inp rec') := by
  refine .bind (.refl _ _) fun token => ?_
  have hoperand : ∀ op value, Guards .outOfFuel (comparisonOperand op value token.line rec)
      (comparisonOperand op value token.line rec') :=
    fun _ _ => .bind hrec fun _ => .refl _ _
  cases comparison token.type with
  | none => exact .refl _ _
  | some op =>
    exact .bind (.refl _ _) fun _ =>
      .ite (.bind (.refl _ _) fun _ => .bind (.refl _ _) fun _ => hoperand _ _)
        (.bind (.refl _ _) fun _ => hoperand _ _)

theorem binaryLoop_guards (hround : Guards .outOfFuel round round') :
    ∀ {n m : ℕ}, n ≤ m → ∀ i, Guards .outOfFuel (binaryLoop round n i) (binaryLoop round' m i)
  | 0, _, _, _ => .fail _ _
  | n + 1, m + 1, h, i => by
    refine .bind hround fun x => ?_
    rcases x with _ | ⟨op, right⟩
    · exact .refl _ _
    · exact .ite (.refl _ _) (.bind (.refl _ _) fun _ =>
        binaryLoop_guards hround (Nat.le_of_succ_le_succ h) _)

theorem parseBinary_guards (hround : Guards .outOfFuel round round')
    (hrec : Guards .outOfFuel rec rec') {n m : ℕ} (h : n ≤ m) :
    Guards .outOfFuel (parseBinary round rec n) (parseBinary round' rec' m) :=
  .bind hrec fun _ => .ite (.refl _ _) (binaryLoop_guards hround h _)

end Loops

section Levels

variable (hrec : Guards .outOfFuel rec rec') {n m : ℕ} (h : n ≤ m)
include hrec h

theorem parseMultiplyDivide_guards : Guards .outOfFuel (parseMultiplyDivide inp rec n)
    (parseMultiplyDivide inp rec' m) :=
  parseBinary_guards (binaryRound_guards (parseUnary_guards hrec)) (parseUnary_guards hrec) h

theorem parseAddSubstract_guards : Guards .outOfFuel (parseAddSubstract inp rec n)
    (parseAddSubstract inp rec' m) :=
  parseBinary_guards (binaryRound_guards (parseMultiplyDivide_guards hrec h))
    (parseMultiplyDivide_guards hrec h) h

theorem parseComparison_guards : Guards .outOfFuel (parseComparison inp rec n)
    (parseComparison inp rec' m) :=
  parseBinary_guards (comparisonRound_guards (parseAddSubstract_guards hrec h))
    (parseAddSubstract_guards hrec h) h

theorem parseNot_guards : Guards .outOfFuel (parseNot inp rec n) (parseNot inp rec' m) :=
  .bind (.refl _ _) fun _ =>
    .ite (parsePrefix_guards (parseComparison_guards hrec h)) (parseComparison_guards hrec h)

theorem parseAnd_guards : Guards .outOfFuel (parseAnd inp rec n) (parseAnd inp rec' m) :=
  parseBinary_guards (binaryRound_guards (parseNot_guards hrec h)) (parseNot_guards hrec h) h

end Levels

theorem parseExpression_guards : ∀ {n m : ℕ}, n ≤ m →
    Guards .outOfFuel (parseExpression inp n) (parseExpression inp m)
  | 0, _, _ => .fail _ _
  | n + 1, m + 1, h =>
    have hnm : n ≤ m := Nat.le_of_succ_le_succ h
    have hand := parseAnd_guards (parseExpression_guards hnm) hnm
    parseBinary_guards (binaryRound_guards hand) hand hnm

/-- Two runs that return, return the same. -/
theorem parseExpression_unique {n m : ℕ} {s s₁ s₂ : Parser} {i j : ℤ}
    (hn : parseExpression inp n s = (.ok i, s₁)) (hm : parseExpression inp m s = (.ok j, s₂)) :
    i = j ∧ s₁ = s₂ := by
  have hkeep : ∀ {n m : ℕ} {i : ℤ} {s' : Parser}, n ≤ m →
      parseExpression inp n s = (.ok i, s') → parseExpression inp m s = (.ok i, s') := by
    intro n m i s' h hn
    rw [← (@parseExpression_guards inp _ _ h).eq (s := s) (by rw [hn]; exact nofun)]
    exact hn
  have hboth := (hkeep (Nat.le_max_left n m) hn).symm.trans (hkeep (Nat.le_max_right n m) hm)
  cases hboth
  exact ⟨rfl, rfl⟩

/-! ### Statements -/

section Statements

variable {n m : ℕ} (h : n ≤ m)
include h

theorem requireExpression_guards (context : Str) : Guards .outOfFuel
    (requireExpression inp n context) (requireExpression inp m context) :=
  .bind (parseExpression_guards h) fun _ => .refl _ _

theorem parseWhere_guards : Guards .outOfFuel (parseWhere inp n) (parseWhere inp m) :=
  .bind (.refl _ _) fun _ => .ite (.bind (.refl _ _) fun _ =>
    .bind (requireExpression_guards h _) fun _ => .refl _ _) (.refl _ _)

theorem selectList_guards : ∀ {k l : ℕ}, k ≤ l →
    Guards .outOfFuel (selectList inp n k) (selectList inp m l)
  | 0, _, _ => .fail _ _
  | _ + 1, _ + 1, hkl =>
    .bind (.refl _ _) fun _ => .ite (.refl _ _) <| .bind (parseExpression_guards h) fun _ =>
      .ite (.refl _ _) <| .bind (.refl _ _) fun _ => .bind (.refl _ _) fun _ =>
        selectList_guards (Nat.le_of_succ_le_succ hkl)

theorem parseSelect_guards : Guards .outOfFuel (parseSelect inp n) (parseSelect inp m) :=
  .bind (.refl _ _) fun _ => .bind (.refl _ _) fun _ => .bind
    (.bind (.refl _ _) fun _ => .ite (.refl _ _) (selectList_guards h h)) fun _ => .ite
    (.bind (.refl _ _) fun _ => .ite (.bind (.refl _ _) fun _ => .bind (.refl _ _) fun _ => .ite
      (.bind (parseWhere_guards h) fun _ => .refl _ _) (.refl _ _)) (.refl _ _)) (.refl _ _)

omit h in
theorem insertNames_guards : ∀ {k l : ℕ}, k ≤ l →
    Guards .outOfFuel (insertNames inp k) (insertNames inp l)
  | 0, _, _ => .fail _ _
  | _ + 1, _ + 1, hkl =>
    .bind (.refl _ _) fun _ => .ite (.refl _ _) <| .bind (.refl _ _) fun _ =>
      .bind (.refl _ _) fun _ => .bind (.refl _ _) fun _ =>
        insertNames_guards (Nat.le_of_succ_le_succ hkl)

theorem insertValue_guards : Guards .outOfFuel (insertValue inp n) (insertValue inp m) :=
  .bind (parseExpression_guards h) fun _ => .refl _ _

theorem insertValues_guards : ∀ {k l : ℕ}, k ≤ l →
    Guards .outOfFuel (insertValues inp n k) (insertValues inp m l)
  | 0, _, _ => .fail _ _
  | _ + 1, _ + 1, hkl =>
    .bind (.refl _ _) fun _ => .ite (.refl _ _) <| .bind (.refl _ _) fun _ =>
      .bind (insertValue_guards h) fun _ => .bind (.refl _ _) fun _ =>
        insertValues_guards (Nat.le_of_succ_le_succ hkl)

theorem insertRow_guards : Guards .outOfFuel (insertRow inp n) (insertRow inp m) :=
  .bind (.refl _ _) fun _ => .ite (.bind (.refl _ _) fun _ => .bind (insertValue_guards h) fun _ =>
    .bind (.refl _ _) fun _ => .bind
      (.ite (.bind (.refl _ _) fun _ => insertValues_guards h h) (.refl _ _)) fun _ =>
        .refl _ _) (.refl _ _)

theorem parseInsert_guards : Guards .outOfFuel (parseInsert inp n) (parseInsert inp m) :=
  .bind (.refl _ _) fun _ => .bind (.refl _ _) fun _ => .bind (.refl _ _) fun _ => .ite
    (.bind (.refl _ _) fun _ => .ite (.bind (.bind (.refl _ _) fun _ => .ite
      (.bind (.refl _ _) fun _ => .bind (.refl _ _) fun _ => .bind (insertNames_guards h) fun _ =>
        .refl _ _) (.refl _ _)) fun _ => .ite (.bind (.refl _ _) fun _ =>
          .ite (insertRow_guards h) (.refl _ _)) (.refl _ _)) (.refl _ _)) (.refl _ _)

theorem parseDelete_guards : Guards .outOfFuel (parseDelete inp n) (parseDelete inp m) :=
  .bind (.refl _ _) fun _ => .bind (.refl _ _) fun _ => .bind (.refl _ _) fun _ => .ite
    (.bind (.refl _ _) fun _ => .ite (.bind (parseWhere_guards h) fun _ => .refl _ _)
      (.refl _ _)) (.refl _ _)

theorem parseAssignment_guards :
    Guards .outOfFuel (parseAssignment inp n) (parseAssignment inp m) := by
  refine .bind (.refl _ _) fun name => ?_
  cases name with
  | none => exact .refl _ _
  | some colName =>
    exact .bind (.refl _ _) fun _ => .ite
      (.bind (requireExpression_guards h _) fun _ => .refl _ _) (.refl _ _)

theorem assignments_guards : ∀ {k l : ℕ}, k ≤ l →
    Guards .outOfFuel (assignments inp n k) (assignments inp m l)
  | 0, _, _ => .fail _ _
  | _ + 1, _ + 1, hkl =>
    .bind (.refl _ _) fun _ => .ite (.bind (.refl _ _) fun _ =>
      .bind (parseAssignment_guards h) fun _ =>
        .ite (assignments_guards (Nat.le_of_succ_le_succ hkl)) (.refl _ _)) (.refl _ _)

theorem parseUpdate_guards : Guards .outOfFuel (parseUpdate inp n) (parseUpdate inp m) :=
  .bind (.refl _ _) fun _ => .bind (.refl _ _) fun _ => .bind (.refl _ _) fun _ => .ite
    (.bind (.refl _ _) fun _ => .ite (.bind (parseAssignment_guards h) fun _ => .ite
      (.bind (assignments_guards h h) fun _ => .ite
        (.bind (parseWhere_guards h) fun _ => .refl _ _) (.refl _ _)) (.refl _ _))
      (.refl _ _)) (.refl _ _)

omit h in
theorem columnConstraints_guards : ∀ {k l : ℕ}, k ≤ l → ∀ column,
    Guards .outOfFuel (columnConstraints inp k column) (columnConstraints inp l column)
  | 0, _, _, _ => .fail _ _
  | _ + 1, _ + 1, hkl, _ =>
    .bind (.refl _ _) fun _ => .ite (.bind (.refl _ _) fun _ => .bind (.refl _ _) fun _ =>
      columnConstraints_guards (Nat.le_of_succ_le_succ hkl) _) (.refl _ _)

theorem columnDefinition_guards :
    Guards .outOfFuel (columnDefinition inp n) (columnDefinition inp m) := by
  refine .bind (.refl _ _) fun name => ?_
  cases name with
  | none => exact .refl _ _
  | some name =>
    refine .bind (.refl _ _) fun type => ?_
    cases type with
    | none => exact .refl _ _
    | some type => exact .bind (columnConstraints_guards h _) fun _ => .refl _ _

theorem columnDefinitions_guards : ∀ {k l : ℕ}, k ≤ l →
    Guards .outOfFuel (columnDefinitions inp n k) (columnDefinitions inp m l)
  | 0, _, _ => .fail _ _
  | _ + 1, _ + 1, hkl =>
    .bind (.refl _ _) fun _ => .ite (.refl _ _) <| .bind (columnDefinition_guards h) fun _ => .ite
      (.bind (.refl _ _) fun _ => columnDefinitions_guards (Nat.le_of_succ_le_succ hkl))
      (.refl _ _)

theorem parseCreate_guards : Guards .outOfFuel (parseCreate inp n) (parseCreate inp m) :=
  .bind (.refl _ _) fun _ => .bind (.refl _ _) fun _ => .ite
    (.bind (.refl _ _) fun _ => .bind (.refl _ _) fun _ => .bind (.refl _ _) fun _ => .ite
      (.bind (.refl _ _) fun _ => .ite (.bind (columnDefinitions_guards h h) fun _ => .refl _ _)
        (.refl _ _)) (.refl _ _)) (.refl _ _)

theorem parseStatement_guards :
    Guards .outOfFuel (parseStatement inp n) (parseStatement inp m) := by
  refine .bind (.refl _ _) fun token => ?_
  cases token.type
  case select => exact parseSelect_guards h
  case insert => exact parseInsert_guards h
  case create => exact parseCreate_guards h
  case update => exact parseUpdate_guards h
  case delete => exact parseDelete_guards h
  all_goals exact .refl _ _

end Statements

end Parser

/-- A query that is parsed with some rounds is parsed so with more. -/
theorem parse_mono {inp : Input} {n m : ℕ} (h : n ≤ m)
    (hn : parse n inp ≠ .error .outOfFuel) : parse m inp = parse n inp := by
  have heq : Parser.parseStatement inp n {} = Parser.parseStatement inp m {} := by
    refine (Parser.parseStatement_guards h).eq fun hout => hn ?_
    show Except.map _ (Parser.parseStatement inp n {}).1 = _
    rw [hout]
    rfl
  unfold parse
  rw [heq]

end MicroSql
