import MicroSql.Parser.Accepts
import MicroSql.Parser.InsertLoop

/-!
# The loops of CREATE TABLE

The loop over the columns passes the name of a column in each round.  The loop over the
constraints of a column is entered at `PRIMARY` or at `NOT`, but it moves only if the next token is
`KEY` or `NULL`; at any other pair it stays where it is.
-/

namespace MicroSql

open Lib Prog

namespace Input

variable (inp : Input)

/-! ### Where the passes begin -/

/-- If a text length follows the type at `p`, its conversion returns. -/
def LengthConverts (p : ℕ) : Prop :=
  (inp.token p).type = .text → (inp.token (p + 1)).type = .leftParen →
    ∃ n, stoi (inp.token (p + 2)).value = .ok n

/-- A pass of the column loop begins at the position. -/
inductive ColumnAt : ℕ → Prop
  | first (htable : (inp.token 2).type = .identifier) (hopen : (inp.token 3).type = .leftParen) :
      ColumnAt 4
  | next {p q : ℕ} (h : ColumnAt p) (hcolumn : inp.Column (fun _ => True) p q)
      (hlength : inp.LengthConverts (p + 1)) : ColumnAt (inp.skipComma q)

/-- The type of a column is expected at the position. -/
def TypeAt (t : ℕ) : Prop :=
  ∃ c, inp.ColumnAt c ∧ (inp.token c).type = .identifier ∧ t = c + 1

/-- A constraint of a column, or its end, is expected at the position. -/
inductive ConstraintAt : ℕ → Prop
  | first {t e : ℕ} (h : inp.TypeAt t) (htyped : inp.Typed (fun _ => True) t e)
      (hlength : inp.LengthConverts t) : ConstraintAt e
  | primaryKey {p : ℕ} (h : ConstraintAt p) (hprimary : (inp.token p).type = .primary)
      (hkey : (inp.token (p + 1)).type = .key) : ConstraintAt (p + 2)
  | notNull {p : ℕ} (h : ConstraintAt p) (hnot : (inp.token p).type = .not)
      (hnull : (inp.token (p + 1)).type = .tknull) : ConstraintAt (p + 2)

/-- Half a constraint, at which a pass moves nowhere. -/
def HalfConstraint (p : ℕ) : Prop :=
  ((inp.token p).type = .primary ∧ (inp.token (p + 1)).type ≠ .key) ∨
    ((inp.token p).type = .not ∧ (inp.token (p + 1)).type ≠ .tknull)

variable {inp} {p : ℕ}

theorem Typed.lt {length : TokenType → Prop} {q : ℕ} (h : inp.Typed length p q) : p < q := by
  rcases h with ⟨-, rfl⟩ | ⟨-, -, rfl⟩ | ⟨-, -, -, -, rfl⟩ <;> omega

theorem Constraints.le {q : ℕ} (h : inp.Constraints p q) : p ≤ q := by
  induction h with
  | nil => exact le_rfl
  | primaryKey _ _ _ ih => omega
  | notNull _ _ _ ih => omega

/-- A column has at least its name. -/
theorem Column.lt {length : TokenType → Prop} {q : ℕ} (h : inp.Column length p q) : p < q := by
  obtain ⟨-, e, htyped, hconstraints⟩ := h
  have := htyped.lt
  have := hconstraints.le
  omega

theorem HalfConstraint.first (h : inp.HalfConstraint p) :
    (inp.token p).type = .primary ∨ (inp.token p).type = .not :=
  h.imp (fun h => h.1) fun h => h.1

end Input

namespace Parser

variable {inp : Input} {fuel : ℕ} {s s' : Parser}

/-! ### The constraints of a column -/

/-- One pass of the loop over the constraints: which of the two have been passed. -/
def constraintsPass (inp : Input) : Prog Parser Halt (Bool × Bool) := do
  let primaryKey ← consumeBoth inp .primary .key
  let notNull ← consumeBoth inp .not .tknull
  return (primaryKey, notNull)

/-- The column after a pass. -/
def constrained (column : ColumnDefinition) (passed : Bool × Bool) : ColumnDefinition :=
  { column with
    primaryKey := column.primaryKey || passed.1, notNull := column.notNull || passed.2 }

theorem columnConstraints_succ (rounds : ℕ) (column : ColumnDefinition) :
    columnConstraints inp (rounds + 1) column = (do
      let token ← current inp
      if token.type = .primary ∨ token.type = .not then do
        let passed ← constraintsPass inp
        columnConstraints inp rounds (constrained column passed)
      else return column) := by
  rw [columnConstraints]
  simp only [constraintsPass, bind_assoc, pure_bind, constrained]

/-- What a pass does: it moves over one constraint or over two, unless it is at half a one. -/
theorem constraintsPass_cases (hat : inp.ConstraintAt s.position)
    (htoken : (inp.token s.position).type = .primary ∨ (inp.token s.position).type = .not) :
    ∃ passed s', constraintsPass inp s = (.ok passed, s') ∧
      ((inp.HalfConstraint s.position ∧ s' = s) ∨
        (¬inp.HalfConstraint s.position ∧ inp.ConstraintAt s'.position ∧
          s.position < s'.position)) := by
  have hnotNull : ∀ {s : Parser}, inp.ConstraintAt s.position →
      ∃ b s', consumeBoth inp .not .tknull s = (.ok b, s') ∧ inp.ConstraintAt s'.position ∧
        s.position ≤ s'.position := by
    intro s hat
    by_cases hboth : (inp.token s.position).type = .not ∧
        (inp.token (s.position + 1)).type = .tknull
    · exact ⟨true, _, consumeBoth_pos hboth.1 hboth.2, .notNull hat hboth.1 hboth.2,
        Nat.le_add_right _ 2⟩
    · exact ⟨false, s, consumeBoth_neg hboth, hat, le_rfl⟩
  unfold constraintsPass
  by_cases hprimary : (inp.token s.position).type = .primary ∧
      (inp.token (s.position + 1)).type = .key
  · -- after `PRIMARY KEY` the same pass looks for `NOT NULL`
    rw [bind_ok (consumeBoth_pos hprimary.1 hprimary.2)]
    obtain ⟨b, s', hrun, hat', hle⟩ :=
      hnotNull (s := { s with position := s.position + 2 }) (.primaryKey hat hprimary.1 hprimary.2)
    rw [bind_ok hrun]
    refine ⟨_, s', rfl, .inr ⟨?_, hat', lt_of_lt_of_le (Nat.lt_add_of_pos_right two_pos) hle⟩⟩
    rintro (⟨-, hkey⟩ | ⟨hnot, -⟩)
    · exact hkey hprimary.2
    · exact absurd (hprimary.1.symm.trans hnot) (by decide)
  rw [bind_ok (consumeBoth_neg hprimary)]
  by_cases hboth : (inp.token s.position).type = .not ∧
      (inp.token (s.position + 1)).type = .tknull
  · rw [bind_ok (consumeBoth_pos hboth.1 hboth.2)]
    refine ⟨_, _, rfl, .inr ⟨?_, .notNull hat hboth.1 hboth.2, Nat.lt_add_of_pos_right two_pos⟩⟩
    rintro (⟨hp, -⟩ | ⟨-, hnull⟩)
    · exact absurd (hboth.1.symm.trans hp) (by decide)
    · exact hnull hboth.2
  · rw [bind_ok (consumeBoth_neg hboth)]
    refine ⟨_, s, rfl, .inl ⟨?_, rfl⟩⟩
    rcases htoken with h | h
    · exact .inl ⟨h, fun hkey => hprimary ⟨h, hkey⟩⟩
    · exact .inr ⟨h, fun hnull => hboth ⟨h, hnull⟩⟩

/-- The loop over the constraints, as a loop over the column and the state. -/
def constraintsRun (inp : Input) (rounds : ℕ) (k : ColumnDefinition × Parser) :
    Except Halt ColumnDefinition × Parser := columnConstraints inp rounds k.1 k.2

/-- The run has used up its rounds. -/
abbrev Out {α : Type} (r : Except Halt α × Parser) : Prop := r.1 = .error .outOfFuel

theorem constraintsRun_goesOn {column : ColumnDefinition} {passed : Bool × Bool}
    (htoken : (inp.token s.position).type = .primary ∨ (inp.token s.position).type = .not)
    (hpass : constraintsPass inp s = (.ok passed, s')) :
    GoesOn (constraintsRun inp) (column, s) (constrained column passed, s') := by
  intro rounds
  unfold constraintsRun
  rw [columnConstraints_succ, current_bind, if_pos htoken, bind_ok hpass]

/-- At half a constraint the loop never ends. -/
theorem columnConstraints_spins {s : Parser} (hat : inp.ConstraintAt s.position)
    (hhalf : inp.HalfConstraint s.position) (column : ColumnDefinition) :
    Spins (constraintsRun inp) Out (column, s) := by
  refine spins_of_invariant (I := fun k => k.2 = s) (fun _ => rfl) ?_ rfl
  rintro ⟨column, s'⟩ rfl
  have htoken := hhalf.first
  obtain ⟨passed, s₁, hpass, hcases⟩ := constraintsPass_cases hat htoken
  obtain ⟨-, rfl⟩ := hcases.resolve_right fun h => h.1 hhalf
  exact ⟨(constrained column passed, _), rfl, constraintsRun_goesOn htoken hpass⟩

/-- Where no pass is at half a constraint, the loop comes to its end. -/
theorem columnConstraints_returns (heof : inp.EofLast)
    (hwhole : ∀ p, inp.ConstraintAt p → ¬inp.HalfConstraint p) :
    ∀ (rounds : ℕ) (column : ColumnDefinition) {s : Parser}, inp.ConstraintAt s.position →
      inp.last - s.position < rounds →
      ∃ column' s', columnConstraints inp rounds column s = (.ok column', s')
  | 0, _, _, _, h => absurd h (Nat.not_lt_zero _)
  | rounds + 1, column, s, hat, hrounds => by
    rw [columnConstraints_succ, current_bind]
    by_cases htoken : (inp.token s.position).type = .primary ∨ (inp.token s.position).type = .not
    swap
    · rw [if_neg htoken]
      exact ⟨column, s, rfl⟩
    have hlt : s.position < inp.last := by
      refine heof.lt_last fun heq => ?_
      rw [heq] at htoken
      exact absurd htoken (by decide)
    obtain ⟨passed, s₁, hpass, hcases⟩ := constraintsPass_cases hat htoken
    obtain ⟨-, hat', hmoved⟩ := hcases.resolve_left fun h => hwhole _ hat h.1
    rw [if_pos htoken, bind_ok hpass]
    exact columnConstraints_returns heof hwhole rounds _ hat' (by omega)

/-! ### One column -/

/-- The type of a column is refused, its length is not converted, or it is read. -/
theorem columnType_cases (s : Parser) :
    (∃ s', columnType inp s = (.ok none, s') ∧ ∀ e, ¬inp.Typed (fun _ => True) s.position e) ∨
    (∃ e s', columnType inp s = (.error e, s') ∧ (inp.token s.position).type = .text ∧
      (inp.token (s.position + 1)).type = .leftParen ∧
      stoi (inp.token (s.position + 2)).value = .error e) ∨
    ∃ t n s', columnType inp s = (.ok (some (t, n)), s') ∧
      inp.Typed (fun _ => True) s.position s'.position ∧ inp.LengthConverts s.position := by
  unfold columnType
  rw [current_bind, gets_bind_apply]
  -- the types that are read without a look at the next token
  have hread : ∀ {type : TokenType}, (inp.token s.position).type = type →
      type ∈ [TokenType.integer, .float, .boolean] → ∀ t n, ∃ t' n' s',
      (do advance; return some (t, n) : Prog Parser Halt (Option (DataType × ℤ))) s =
        (.ok (some (t', n')), s') ∧ inp.Typed (fun _ => True) s.position s'.position ∧
        inp.LengthConverts s.position := by
    intro type htype hmem t n
    refine ⟨t, n, _, rfl, .inl ⟨htype ▸ hmem, rfl⟩, fun htext => ?_⟩
    rw [← htype, htext] at hmem
    exact absurd hmem (by decide)
  -- a token that is no type at all
  have hrefused : (inp.token s.position).type ∉
      [TokenType.integer, .float, .boolean, .text] →
      ∀ e, ¬inp.Typed (fun _ => True) s.position e := by
    rintro hnot e (⟨hmem, -⟩ | ⟨htext, -⟩ | ⟨htext, -⟩)
    · exact hnot (List.mem_append_left [TokenType.text] hmem)
    · exact hnot (by simp [htext])
    · exact hnot (by simp [htext])
  cases htype : (inp.token s.position).type <;> dsimp only
  case integer => exact .inr (.inr (hread htype (by decide) _ _))
  case float => exact .inr (.inr (hread htype (by decide) _ _))
  case boolean => exact .inr (.inr (hread htype (by decide) _ _))
  case text =>
    rw [peekIs_bind]
    by_cases hopen : (inp.token (s.position + 1)).type = .leftParen
    swap
    · rw [if_neg (by simpa using hopen)]
      exact .inr (.inr ⟨_, _, _, rfl, .inr (.inl ⟨htype, hopen, rfl⟩), fun _ h => absurd h hopen⟩)
    -- the token after the parenthesis is converted before the closing one is looked for
    rw [if_pos (by simpa using hopen), advance_bind, advance_bind, current_bind]
    rcases hconv : stoi (inp.token (s.position + 2)).value with e | n
    · exact .inr (.inl ⟨e, _, lift_error_bind_apply e _ _, rfl, hopen, rfl⟩)
    rw [lift_ok_bind_apply, advance_bind]
    by_cases hclose : (inp.token (s.position + 3)).type = .rightParen
    · rw [bind_ok (consume_pos hclose _)]
      exact .inr (.inr ⟨_, _, _, rfl, .inr (.inr ⟨htype, hopen, trivial, hclose, rfl⟩),
        fun _ _ => ⟨n, hconv⟩⟩)
    · obtain ⟨s', hs', -⟩ := consume_neg (s := { s with position := s.position + 3 }) hclose
        (str ")")
      rw [bind_ok hs']
      refine .inl ⟨s', rfl, ?_⟩
      rintro e (⟨hmem, -⟩ | ⟨-, hplain, -⟩ | ⟨-, -, -, hclose', -⟩)
      · rw [htype] at hmem
        exact absurd hmem (by decide)
      · exact hplain hopen
      · exact hclose hclose'
  all_goals
    refine .inl ⟨_, rfl, hrefused ?_⟩
    rw [htype]
    decide

theorem columnConstraints_error : ∀ (rounds : ℕ) (column : ColumnDefinition) {s s' : Parser}
    {e : Halt}, columnConstraints inp rounds column s = (.error e, s') → e = .outOfFuel
  | 0, _, _, _, _, h => by
    cases h
    rfl
  | rounds + 1, column, s, s', e, h => by
    have hboth : ∀ first second (s : Parser), ∃ b s',
        consumeBoth inp first second s = (.ok b, s') := by
      intro first second s
      by_cases hb : (inp.token s.position).type = first ∧
          (inp.token (s.position + 1)).type = second
      · exact ⟨_, _, consumeBoth_pos hb.1 hb.2⟩
      · exact ⟨_, _, consumeBoth_neg hb⟩
    rw [columnConstraints, current_bind] at h
    by_cases htoken : (inp.token s.position).type = .primary ∨ (inp.token s.position).type = .not
    swap
    · rw [if_neg htoken] at h
      cases h
    obtain ⟨b, s₁, hb⟩ := hboth .primary .key s
    obtain ⟨b', s₂, hb'⟩ := hboth .not .tknull s₁
    rw [if_pos htoken, bind_ok hb, bind_ok hb'] at h
    exact columnConstraints_error rounds _ h

/-- A column is refused, its length is not converted, or its constraints are read. -/
theorem columnDefinition_cases (fuel : ℕ) (s : Parser) :
    (∃ s', columnDefinition inp fuel s = (.ok false, s') ∧
      ¬((inp.token s.position).type = .identifier ∧
        ∃ e, inp.Typed (fun _ => True) (s.position + 1) e)) ∨
    (∃ e s', columnDefinition inp fuel s = (.error e, s') ∧
      (inp.token s.position).type = .identifier ∧
      (inp.token (s.position + 1)).type = .text ∧
      (inp.token (s.position + 2)).type = .leftParen ∧
      stoi (inp.token (s.position + 3)).value = .error e) ∨
    ∃ column s₁, (inp.token s.position).type = .identifier ∧
      inp.Typed (fun _ => True) (s.position + 1) s₁.position ∧
      inp.LengthConverts (s.position + 1) ∧
      (∀ e s', columnConstraints inp fuel column s₁ = (.error e, s') →
        columnDefinition inp fuel s = (.error e, s')) ∧
      ∀ c s', columnConstraints inp fuel column s₁ = (.ok c, s') →
        ∃ s'', columnDefinition inp fuel s = (.ok true, s'') ∧ s''.position = s'.position := by
  unfold columnDefinition consumeIdentifier
  rw [bind_assoc, current_bind]
  by_cases hname : (inp.token s.position).type = .identifier
  swap
  · rw [if_neg hname]
    exact .inl ⟨_, rfl, fun h => hname h.1⟩
  rw [if_pos hname, bind_assoc, advance_bind, pure_bind]
  dsimp only
  rcases @columnType_cases inp { s with position := s.position + 1 } with
    ⟨s', hrun, hnone⟩ | ⟨e, s', hrun, htext, hopen, hconv⟩ | ⟨t, n, s', hrun, htyped, hlength⟩
  · exact .inl ⟨s', bind_ok hrun _, fun ⟨_, e, h⟩ => hnone e h⟩
  · exact .inr (.inl ⟨e, s', bind_error hrun _, hname, htext, hopen, hconv⟩)
  · rw [bind_ok hrun]
    exact .inr (.inr ⟨_, s', hname, htyped, hlength, fun e s₂ h => bind_error h _,
      fun c s₂ h => ⟨_, bind_ok h _, rfl⟩⟩)

/-- Past a name, a type and a length that is converted, a column ends as its constraints do. -/
theorem columnDefinition_typed (fuel : ℕ) {e : ℕ}
    (hname : (inp.token s.position).type = .identifier)
    (htyped : inp.Typed (fun _ => True) (s.position + 1) e)
    (hlength : inp.LengthConverts (s.position + 1)) :
    ∃ column s₁, s₁.position = e ∧
      (∀ e s', columnConstraints inp fuel column s₁ = (.error e, s') →
        columnDefinition inp fuel s = (.error e, s')) ∧
      ∀ c s', columnConstraints inp fuel column s₁ = (.ok c, s') →
        ∃ s'', columnDefinition inp fuel s = (.ok true, s'') ∧ s''.position = s'.position := by
  rcases columnDefinition_cases fuel s with ⟨s', -, hnone⟩ | ⟨e', s', -, -, htext, hopen, hconv⟩ |
    ⟨column, s₁, -, htyped', -, herror, hok⟩
  · exact absurd ⟨hname, e, htyped⟩ hnone
  · obtain ⟨n, hn⟩ := hlength htext hopen
    rw [hconv] at hn
    cases hn
  · exact ⟨column, s₁, (htyped.unique htyped').symm, herror, hok⟩

/-! ### The columns -/

theorem columnDefinitions_goesOn (hgoes : listEnds (inp.token s.position).type = false)
    (hcolumn : columnDefinition inp fuel s = (.ok true, s')) :
    GoesOn (columnDefinitions inp fuel) s
      { s' with position := inp.skipComma s'.position } := by
  intro rounds
  rw [columnDefinitions, current_bind, if_neg (by simpa using hgoes), bind_ok hcolumn, if_pos rfl,
    bind_ok skipComma_apply]

/-- A column that never ends is the last thing that the loop comes to. -/
theorem columnDefinitions_spins_of (hgoes : listEnds (inp.token s.position).type = false)
    (hcolumn : columnDefinition inp fuel s = (.error .outOfFuel, s')) :
    Spins (columnDefinitions inp fuel) Out s
  | 0 => rfl
  | rounds + 1 => by
    show (columnDefinitions inp fuel (rounds + 1) s).1 = _
    rw [columnDefinitions, current_bind, if_neg (by simpa using hgoes), bind_error hcolumn]

theorem listEnds_of_identifier {p : ℕ} (h : (inp.token p).type = .identifier) :
    listEnds (inp.token p).type = false := by
  rw [h]
  rfl

theorem parseCreateTable_cases (hs : s.position = 1) :
    (∃ s₁, (inp.token 2).type = .identifier ∧ (inp.token 3).type = .leftParen ∧
      s₁.position = 4 ∧
      (∀ e s', columnDefinitions inp fuel fuel s₁ = (.error e, s') →
        parseCreateTable inp fuel s = (.error e, s')) ∧
      ∀ b s', columnDefinitions inp fuel fuel s₁ = (.ok b, s') →
        ∃ s'', parseCreateTable inp fuel s = (.ok (), s'')) ∨
    (¬((inp.token 2).type = .identifier ∧ (inp.token 3).type = .leftParen) ∧
      ∃ s', parseCreateTable inp fuel s = (.ok (), s')) := by
  unfold parseCreateTable
  rw [advance_bind, setStatement_bind, hs]
  by_cases htable : (inp.token 2).type = .identifier
  swap
  · obtain ⟨s', hs', -⟩ :=
      parseTableName_neg (s := { position := 2, result := _ }) htable (str "table name")
    exact .inr ⟨fun h => htable h.1, s', bind_ok hs' _⟩
  rw [bind_ok (parseTableName_pos (s := { position := 2, result := _ }) htable _), if_pos rfl]
  by_cases hopen : (inp.token 3).type = .leftParen
  swap
  · obtain ⟨s', hs', -⟩ := consume_neg (s := { position := 3, result := _ }) hopen (str "(")
    exact .inr ⟨fun h => hopen h.2, s', bind_ok hs' _⟩
  rw [bind_ok (consume_pos (s := { position := 3, result := _ }) hopen _), if_pos rfl]
  refine .inl ⟨_, htable, hopen, rfl, fun e s' h => bind_error h _, fun b s' h => ?_⟩
  rw [bind_ok h]
  cases b with
  | false => exact ⟨s', rfl⟩
  | true =>
    rw [if_pos rfl, advance_bind]
    by_cases hsemi : (inp.token (s'.position + 1)).type = .semicolon
    · rw [bind_ok (consume_pos (s := { s' with position := s'.position + 1 }) hsemi _)]
      exact ⟨_, rfl⟩
    · obtain ⟨s'', hs'', -⟩ :=
        consume_neg (s := { s' with position := s'.position + 1 }) hsemi (str ";")
      rw [bind_ok hs'']
      exact ⟨s'', rfl⟩

/-! ### Passes that move nowhere -/

/-- A column loop that spins from one of its passes makes the statement spin. -/
theorem parseCreateTable_spins_of_column {p : ℕ} (h : inp.ColumnAt p)
    (hspins : ∀ s : Parser, s.position = p → Spins (columnDefinitions inp fuel) Out s)
    (hs : s.position = 1) : (parseCreateTable inp fuel s).1 = .error .outOfFuel := by
  induction h with
  | first htable hopen =>
    rcases parseCreateTable_cases hs with ⟨s₁, -, -, hpos, herror, -⟩ | ⟨hnone, -⟩
    swap
    · exact absurd ⟨htable, hopen⟩ hnone
    have hout := hspins s₁ hpos fuel
    rcases hrun : columnDefinitions inp fuel fuel s₁ with ⟨e | b, s'⟩ <;> rw [Out, hrun] at hout
    · obtain rfl : e = .outOfFuel := Except.error.inj hout
      rw [herror _ s' hrun]
    · cases hout
  | @next p q _ hcolumn hlength ih =>
    refine ih fun s hs => ?_
    subst hs
    obtain ⟨hname, e, htyped, hconstraints⟩ := hcolumn
    have hgoes := listEnds_of_identifier hname
    obtain ⟨column, s₁, rfl, herror, hok⟩ :=
      columnDefinition_typed fuel hname htyped hlength
    -- the constraints of the column before may already go on for ever
    rcases hrun : columnConstraints inp fuel column s₁ with ⟨e' | c, s'⟩
    · obtain rfl := columnConstraints_error fuel column hrun
      exact columnDefinitions_spins_of hgoes (herror _ _ hrun)
    · obtain ⟨s'', hcolumn, hpos⟩ := hok c s' hrun
      obtain rfl := hconstraints.unique (columnConstraints_eq fuel hrun)
      refine .of_goesOn (fun _ => rfl) (columnDefinitions_goesOn hgoes hcolumn) (hspins _ ?_)
      show inp.skipComma s''.position = _
      rw [hpos]

/-- So does a constraint loop. -/
theorem parseCreateTable_spins {p : ℕ} (h : inp.ConstraintAt p)
    (hspins : ∀ (s : Parser) (column : ColumnDefinition), s.position = p →
      Spins (constraintsRun inp) Out (column, s))
    (hs : s.position = 1) : (parseCreateTable inp fuel s).1 = .error .outOfFuel := by
  induction h with
  | @first t e htype htyped hlength =>
    obtain ⟨c, hc, hname, rfl⟩ := htype
    refine parseCreateTable_spins_of_column hc (fun s hs => ?_) hs
    subst hs
    obtain ⟨column, s₁, hpos, herror, -⟩ :=
      columnDefinition_typed fuel hname htyped hlength
    have hout : Out (columnConstraints inp fuel column s₁) := hspins s₁ column hpos fuel
    rcases hrun : columnConstraints inp fuel column s₁ with ⟨e' | c, s'⟩ <;> rw [Out, hrun] at hout
    · obtain rfl : e' = .outOfFuel := Except.error.inj hout
      exact columnDefinitions_spins_of (listEnds_of_identifier hname) (herror _ _ hrun)
    · cases hout
  | @primaryKey p _ hprimary hkey ih =>
    refine ih fun s column hs => ?_
    subst hs
    have hpass := @consumeBoth_pos inp s _ _ hprimary hkey
    have hmid := hspins { s with position := s.position + 2 } (constrained column (true, false)) rfl
    by_cases hboth : (inp.token (s.position + 2)).type = .not ∧
        (inp.token (s.position + 3)).type = .tknull
    · -- the pass goes on over `NOT NULL`, and so does a loop that is before it
      have hnext := @consumeBoth_pos inp { s with position := s.position + 2 } _ _ hboth.1 hboth.2
      have hnone := @consumeBoth_neg inp { s with position := s.position + 2 } .primary .key
        fun h => absurd (hboth.1.symm.trans h.1) (by decide)
      have hwhole : constraintsPass inp s =
          (.ok (true, true), { s with position := s.position + 2 + 2 }) := by
        rw [constraintsPass, bind_ok hpass, bind_ok hnext]
        rfl
      have hhalf : constraintsPass inp { s with position := s.position + 2 } =
          (.ok (false, true), { s with position := s.position + 2 + 2 }) := by
        rw [constraintsPass, bind_ok hnone, bind_ok hnext]
        rfl
      have hafter := hmid.goesOn (constraintsRun_goesOn (.inr hboth.1) hhalf)
      refine .of_goesOn (fun _ => rfl) (constraintsRun_goesOn (.inl hprimary) hwhole) ?_
      convert hafter using 2
      simp [constrained]
    · have hnext := @consumeBoth_neg inp { s with position := s.position + 2 } .not .tknull hboth
      have hwhole : constraintsPass inp s =
          (.ok (true, false), { s with position := s.position + 2 }) := by
        rw [constraintsPass, bind_ok hpass, bind_ok hnext]
        rfl
      exact .of_goesOn (fun _ => rfl) (constraintsRun_goesOn (.inl hprimary) hwhole) hmid
  | @notNull p _ hnot hnull ih =>
    refine ih fun s column hs => ?_
    subst hs
    have hnone := @consumeBoth_neg inp s .primary .key
      fun h => absurd (hnot.symm.trans h.1) (by decide)
    have hwhole : constraintsPass inp s =
        (.ok (false, true), { s with position := s.position + 2 }) := by
      rw [constraintsPass, bind_ok hnone, bind_ok (consumeBoth_pos hnot hnull)]
      rfl
    exact .of_goesOn (fun _ => rfl) (constraintsRun_goesOn (.inr hnot) hwhole)
      (hspins _ (constrained column (false, true)) rfl)

/-! ### Passes that move -/

section Moves

variable (heof : inp.EofLast) (hwhole : ∀ p, inp.ConstraintAt p → ¬inp.HalfConstraint p)
  (hfuel : inp.tokens.length ≤ fuel)
include heof hwhole hfuel

/-- What a pass of the column loop does where no constraint is half a one. -/
theorem columnDefinition_moves (hat : inp.ColumnAt s.position) :
    (∃ s', columnDefinition inp fuel s = (.ok false, s')) ∨
    (∃ s', columnDefinition inp fuel s = (.error (.fault .uncaughtException), s')) ∨
    ∃ s', columnDefinition inp fuel s = (.ok true, s') ∧
      inp.ColumnAt (inp.skipComma s'.position) ∧ s.position < s'.position := by
  rcases @columnDefinition_cases inp fuel s with ⟨s', hrun, -⟩ |
    ⟨e, s', hrun, -, -, -, hconv⟩ | ⟨column, s₁, hname, htyped, hlength, -, hok⟩
  · exact .inl ⟨s', hrun⟩
  · rw [stoi_error hconv] at hrun
    exact .inr (.inl ⟨s', hrun⟩)
  have htype : inp.TypeAt (s.position + 1) := ⟨_, hat, hname, rfl⟩
  have hlast := Input.last_sub_lt hfuel s₁.position
  obtain ⟨c, s₂, hrun⟩ := columnConstraints_returns heof hwhole fuel column
    (.first htype htyped hlength) hlast
  obtain ⟨s', hcolumn, hpos⟩ := hok c s₂ hrun
  have hitem : inp.Column (fun _ => True) s.position s'.position :=
    ⟨hname, _, htyped, hpos ▸ columnConstraints_eq fuel hrun⟩
  exact .inr (.inr ⟨s', hcolumn, .next hat hitem hlength, hitem.lt⟩)

theorem columnDefinitions_ends {rounds : ℕ} (hat : inp.ColumnAt s.position)
    (hrounds : inp.last - s.position < rounds) :
    (columnDefinitions inp fuel rounds s).1 ≠ .error .outOfFuel := by
  refine @ends_of_measure _ _ (columnDefinitions inp fuel) Out (fun s => inp.ColumnAt s.position)
    (fun s => inp.last - s.position) ?_ _ _ hat hrounds
  intro s hat
  by_cases hends : listEnds (inp.token s.position).type = true
  · refine .inl fun n => ?_
    show ¬(columnDefinitions inp fuel (n + 1) s).1 = _
    rw [columnDefinitions, current_bind, if_pos hends]
    rintro ⟨⟩
  have hgoes : listEnds (inp.token s.position).type = false := by simpa using hends
  have hlt := heof.lt_last_of_goes hgoes rfl
  rcases columnDefinition_moves heof hwhole hfuel hat with ⟨s', hrun⟩ | ⟨s', hrun⟩ |
    ⟨s', hrun, hat', hmoved⟩
  · refine .inl fun n => ?_
    show ¬(columnDefinitions inp fuel (n + 1) s).1 = _
    rw [columnDefinitions, current_bind, if_neg hends, bind_ok hrun]
    rintro ⟨⟩
  · refine .inl fun n => ?_
    show ¬(columnDefinitions inp fuel (n + 1) s).1 = _
    rw [columnDefinitions, current_bind, if_neg hends, bind_error hrun]
    rintro ⟨⟩
  · have hskip := @Input.le_skipComma inp s'.position
    refine .inr ⟨_, hat', ?_, columnDefinitions_goesOn hgoes hrun⟩
    show inp.last - inp.skipComma s'.position < inp.last - s.position
    omega

theorem parseCreateTable_ends (hs : s.position = 1) :
    (parseCreateTable inp fuel s).1 ≠ .error .outOfFuel := by
  rcases parseCreateTable_cases hs with ⟨s₁, htable, hopen, hpos, herror, hok⟩ | ⟨-, s', hrun⟩
  swap
  · rw [hrun]
    exact nofun
  have hlast := Input.last_sub_lt hfuel s₁.position
  have hends := columnDefinitions_ends heof hwhole hfuel (hpos ▸ .first htable hopen) hlast
  rcases hrun : columnDefinitions inp fuel fuel s₁ with ⟨e | b, s'⟩
  · rw [hrun] at hends
    rw [herror e s' hrun]
    simpa using hends
  · obtain ⟨s'', hrun'⟩ := hok b s' hrun
    rw [hrun']
    exact nofun

end Moves

end Parser

/-! ### What is asked of parsing a CREATE TABLE -/

/-- Parsing a `CREATE TABLE` ends: `parseCreateTable`, which is called at the second token,
returns or is left by an exception, and a pass of either loop that does not leave it moves. -/
structure CreateTableEnds (inp : Input) : Prop where
  ends : ∀ fuel (s : Parser), inp.tokens.length ≤ fuel → s.position = 1 →
    (Parser.parseCreateTable inp fuel s).1 ≠ .error .outOfFuel
  columnPass : ∀ fuel (s s' : Parser), Parser.columnDefinition inp fuel s = (.ok true, s') →
    s.position < s'.position
  constraintsPass : ∀ (s s' : Parser) passed, inp.ConstraintAt s.position →
    ((inp.token s.position).type = .primary ∨ (inp.token s.position).type = .not) →
    Parser.constraintsPass inp s = (.ok passed, s') → s.position < s'.position

/-- **Parsing a CREATE TABLE ends** exactly if no constraint that the parser comes to is a
`PRIMARY` without `KEY` or a `NOT` without `NULL`. -/
theorem createTableEnds_iff {inp : Input} (heof : inp.EofLast) :
    CreateTableEnds inp ↔ ∀ p, inp.ConstraintAt p → ¬inp.HalfConstraint p := by
  constructor
  · intro h p hat hhalf
    refine h.ends _ { position := 1 } le_rfl rfl
      (Parser.parseCreateTable_spins hat (fun s column hs => ?_) rfl)
    subst hs
    exact Parser.columnConstraints_spins hat hhalf column
  · intro hwhole
    refine ⟨fun fuel s hfuel hs => Parser.parseCreateTable_ends heof hwhole hfuel hs, ?_, ?_⟩
    · intro fuel s s' hrun
      rcases Parser.columnDefinition_eq hrun with ⟨hfalse, -⟩ | ⟨-, hitem⟩
      · cases hfalse
      · exact hitem.lt
    · intro s s' passed hat htoken hrun
      obtain ⟨passed', s₁, hrun', hcases⟩ := Parser.constraintsPass_cases hat htoken
      obtain rfl : s₁ = s' := congrArg Prod.snd (hrun'.symm.trans hrun)
      exact (hcases.resolve_left fun h => hwhole _ hat h.1).2.2

/-- The tokens of `CREATE TABLE t (a INTEGER` … `);`. -/
def constrainedInput (constraints : List Token) : Input where
  tokens := [⟨.create, str "CREATE", 1⟩, ⟨.table, str "TABLE", 1⟩, ⟨.identifier, str "t", 1⟩,
    ⟨.leftParen, str "(", 1⟩, ⟨.identifier, str "a", 1⟩, ⟨.integer, str "INTEGER", 1⟩] ++
    constraints ++ [⟨.rightParen, str ")", 1⟩, ⟨.semicolon, str ";", 1⟩, ⟨.endOfFile, [], 1⟩]
  nonempty := by simp
  stof _ := .ok ⟨0⟩
  textLength _ := 0

/-- `CREATE TABLE t (a INTEGER NOT NULL);` -/
theorem createTableEnds_iff_sample :
    CreateTableEnds (constrainedInput [⟨.not, str "NOT", 1⟩, ⟨.tknull, str "NULL", 1⟩]) ↔
      ∀ p, (constrainedInput [⟨.not, str "NOT", 1⟩, ⟨.tknull, str "NULL", 1⟩]).ConstraintAt p →
        ¬(constrainedInput [⟨.not, str "NOT", 1⟩, ⟨.tknull, str "NULL", 1⟩]).HalfConstraint p :=
  createTableEnds_iff (by rfl)

/-- Parsing `CREATE TABLE t (a INTEGER PRIMARY);` never ends: the loop over the constraints stays
at `PRIMARY`. -/
theorem createTable_spins_at_primary : ¬ ∀ inp : Input, inp.EofLast → CreateTableEnds inp := by
  intro h
  have hends := h (constrainedInput [⟨.primary, str "PRIMARY", 1⟩]) (by rfl)
  exact hends.ends 10 { position := 1 } (by decide) rfl (by rfl)

end MicroSql
