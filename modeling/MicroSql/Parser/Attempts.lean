import MicroSql.Parser.Grammar

/-!
# Where a call for an expression ends

A call of the expression parser returns an index, returns `-1`, or is left by the exception of a
conversion.  Which of the three, and at which position, the tokens alone decide: `Attempt` has
one rule for each way through the functions of the grammar.
-/

namespace MicroSql

open Lib

namespace Input

variable (inp : Input)

/-! ### The last token -/

/-- The position of the last token. -/
def last : ℕ := inp.tokens.length - 1

/-- The last token is `END_OF_FILE`. -/
def EofLast : Prop := (inp.token inp.last).type = .endOfFile

variable {inp}

theorem token_of_last_le {p : ℕ} (h : inp.last ≤ p) : inp.token p = inp.token inp.last := by
  unfold token
  congr 2
  rw [← last, Nat.min_eq_right h, Nat.min_self]

/-- Only the last token and what is read past it are `END_OF_FILE`. -/
theorem EofLast.lt_last (h : inp.EofLast) {p : ℕ} (hp : (inp.token p).type ≠ .endOfFile) :
    p < inp.last := by
  by_contra hle
  exact hp (by rw [token_of_last_le (not_lt.1 hle), h])

/-- A list that `END_OF_FILE` ends goes on only before the last token. -/
theorem EofLast.lt_last_of_goes (h : inp.EofLast) {ends : TokenType → Bool} {p : ℕ}
    (hgoes : ends (inp.token p).type = false) (hend : ends .endOfFile = true) :
    p < inp.last := by
  refine h.lt_last fun htype => ?_
  rw [htype, hend] at hgoes
  cases hgoes

/-- A fuel of one unit for each token outlasts what is left of them. -/
theorem last_sub_lt {fuel : ℕ} (hfuel : inp.tokens.length ≤ fuel) (p : ℕ) :
    inp.last - p < fuel := by
  have hlength := inp.length_pos
  have hlast : inp.last + 1 = inp.tokens.length := Nat.sub_add_cancel hlength
  omega

theorem token_mem (inp : Input) (p : ℕ) : inp.token p ∈ inp.tokens := List.get_mem _ _

/-! ### Literals -/

/-- The node of a literal, whose number is converted. -/
def literal (inp : Input) (token : Token) : Option (Except Halt Expression) :=
  match token.type with
  | .integerLiteral => some ((stoi token.value).map fun n => .literalInt (Int64.ofInt n))
  | .floatLiteral => some ((inp.stof token.value).map .literalFloat)
  | .stringLiteral => some (.ok (.literalText token.value))
  | .tknull => some (.ok (.literalNull token.value))
  | .true => some (.ok (.literalBool true))
  | .false => some (.ok (.literalBool false))
  | _ => none

/-- The conversions of the literals return. -/
def Converts (inp : Input) : Prop :=
  ∀ token ∈ inp.tokens, ∀ e, inp.literal token ≠ some (.error e)

theorem literal_ne_endOfFile {token : Token} {x : Except Halt Expression}
    (h : inp.literal token = some x) : token.type ≠ .endOfFile := by
  intro htype
  simp [literal, htype] at h

end Input

/-! ### The rules -/

/-- How a call for an expression ends. -/
inductive Ending
  | found | missing
  | thrown (e : Halt)
  deriving DecidableEq, Repr

/-- The beginning of a call for an expression of a level, and its loop over operators. -/
inductive Stage
  | operand | loop

/-- The prefix operators. -/
def Level.prefixOf : Level → Option TokenType
  | .not => some .not
  | .unary => some .minus
  | _ => none

namespace Input

variable (inp : Input)

/-- A binary operator as the loops read it: `IS` with a `NOT` behind it is one operator. -/
def Infix (lvl : Level) (p q : ℕ) : Prop :=
  ∃ op, inp.Operator lvl p q op ∧ (op = .is → (inp.token (p + 1)).type ≠ .not)

/-- A call for an expression of the level that begins at one position ends at the other. -/
inductive Attempt : Stage → Level → ℕ → Ending → ℕ → Prop
  | unary {lvl : Level} {p q : ℕ} {o : Ending} (htype : lvl.prefixOf = some (inp.token p).type)
      (operand : Attempt .operand lvl.next (p + 1) o q) : Attempt .operand lvl p o q
  | first {lvl : Level} {p q r : ℕ} {o : Ending} (hlvl : lvl ≠ .primary)
      (htype : lvl.prefixOf ≠ some (inp.token p).type)
      (operand : Attempt .operand lvl.next p .found q) (rest : Attempt .loop lvl q o r) :
      Attempt .operand lvl p o r
  | noFirst {lvl : Level} {p q : ℕ} {o : Ending} (hlvl : lvl ≠ .primary)
      (htype : lvl.prefixOf ≠ some (inp.token p).type)
      (operand : Attempt .operand lvl.next p o q) (ho : o ≠ .found) : Attempt .operand lvl p o q
  -- the loop of a level, with a left operand
  | stop {lvl : Level} {p : ℕ} (hop : lvl.opOf (inp.token p).type = none) :
      Attempt .loop lvl p .found p
  | round {lvl : Level} {p q r s : ℕ} {o : Ending} (hop : inp.Infix lvl p q)
      (operand : Attempt .operand lvl.next q .found r) (rest : Attempt .loop lvl r o s) :
      Attempt .loop lvl p o s
  | noOperand {lvl : Level} {p q r : ℕ} {o : Ending} (hop : inp.Infix lvl p q)
      (operand : Attempt .operand lvl.next q o r) (ho : o ≠ .found) : Attempt .loop lvl p o r
  -- primary expressions
  | column {p : ℕ} (htype : (inp.token p).type = .identifier)
      (hdot : (inp.token (p + 1)).type ≠ .dot) : Attempt .operand .primary p .found (p + 1)
  | qualified {p : ℕ} (htype : (inp.token p).type = .identifier)
      (hdot : (inp.token (p + 1)).type = .dot)
      (hcolumn : (inp.token (p + 2)).type = .identifier) :
      Attempt .operand .primary p .found (p + 3)
  | noColumn {p : ℕ} (htype : (inp.token p).type = .identifier)
      (hdot : (inp.token (p + 1)).type = .dot)
      (hcolumn : (inp.token (p + 2)).type ≠ .identifier) :
      Attempt .operand .primary p .missing (p + 1)
  | literal {p : ℕ} {expr : Expression} (h : inp.literal (inp.token p) = some (.ok expr)) :
      Attempt .operand .primary p .found (p + 1)
  | thrown {p : ℕ} {e : Halt} (h : inp.literal (inp.token p) = some (.error e)) :
      Attempt .operand .primary p (.thrown e) p
  | paren {p q : ℕ} (hopen : (inp.token p).type = .leftParen)
      (inside : Attempt .operand .or (p + 1) .found q)
      (hclose : (inp.token q).type = .rightParen) : Attempt .operand .primary p .found (q + 1)
  | unclosed {p q : ℕ} (hopen : (inp.token p).type = .leftParen)
      (inside : Attempt .operand .or (p + 1) .found q)
      (hclose : (inp.token q).type ≠ .rightParen) : Attempt .operand .primary p .missing q
  | noInside {p q : ℕ} {o : Ending} (hopen : (inp.token p).type = .leftParen)
      (inside : Attempt .operand .or (p + 1) o q) (ho : o ≠ .found) :
      Attempt .operand .primary p o q
  | nothing {p : ℕ} (hlit : inp.literal (inp.token p) = none)
      (hcolumn : (inp.token p).type ≠ .identifier) (hopen : (inp.token p).type ≠ .leftParen) :
      Attempt .operand .primary p .missing p

variable {inp} {stage : Stage} {lvl : Level} {p q : ℕ} {o : Ending}

/-! ### What the rules say -/

theorem Infix.lt (h : inp.Infix lvl p q) : p < q := by
  obtain ⟨op, hop, -⟩ := h
  exact hop.lt

theorem Infix.opOf_ne (h : inp.Infix lvl p q) : lvl.opOf (inp.token p).type ≠ none := by
  obtain ⟨op, hop, -⟩ := h
  cases hop with
  | single h => simp [h]
  | isNot his => simp [his, Level.opOf, Parser.comparison]

theorem Infix.unique {q' : ℕ} (h : inp.Infix lvl p q) (h' : inp.Infix lvl p q') : q = q' := by
  obtain ⟨op, hop, his⟩ := h
  obtain ⟨op', hop', his'⟩ := h'
  have his_of : ∀ {op}, Level.comparison.opOf (inp.token p).type = some op →
      (inp.token p).type = .is → op = .is := by
    intro op hop htype
    rw [htype] at hop
    exact (Option.some.inj hop).symm
  cases hop with
  | single hsingle =>
    cases hop' with
    | single => rfl
    | isNot htype hnot => exact absurd hnot (his (his_of hsingle htype))
  | isNot htype hnot =>
    cases hop' with
    | single hsingle => exact absurd hnot (his' (his_of hsingle htype))
    | isNot => rfl

/-- An operator begins with a token, not with the end of the tokens. -/
theorem Infix.ne_endOfFile (h : inp.Infix lvl p q) : (inp.token p).type ≠ .endOfFile := by
  intro hend
  refine h.opOf_ne ?_
  rw [hend]
  cases lvl <;> rfl

theorem prefixOf_ne_endOfFile (h : lvl.prefixOf = some (inp.token p).type) :
    (inp.token p).type ≠ .endOfFile := by
  intro hend
  rw [hend] at h
  cases lvl <;> cases h

theorem Infix.le_last (h : inp.Infix lvl p q) (heof : inp.EofLast) : q ≤ inp.last := by
  have hp := heof.lt_last h.ne_endOfFile
  obtain ⟨op, hop, -⟩ := h
  cases hop with
  | single => omega
  | isNot _ hnot =>
    have := heof.lt_last (p := p + 1) (by simp [hnot])
    omega

namespace Attempt

theorem le (h : inp.Attempt stage lvl p o q) : p ≤ q := by
  induction h with
  | unary _ _ ih => omega
  | first _ _ _ _ ih ih' => omega
  | noFirst _ _ _ _ ih => exact ih
  | stop => exact le_rfl
  | round hop _ _ ih ih' =>
    have := hop.lt
    omega
  | noOperand hop _ _ ih =>
    have := hop.lt
    omega
  | paren _ _ _ ih => omega
  | unclosed _ _ _ ih => omega
  | noInside _ _ _ ih => omega
  | thrown => exact le_rfl
  | nothing => exact le_rfl
  | _ => omega

/-- An expression that is found has at least one token. -/
theorem lt (h : inp.Attempt .operand lvl p .found q) : p < q := by
  generalize hstage : Stage.operand = stage at h
  generalize hfound : Ending.found = o at h
  induction h with
  | unary _ h => exact h.le
  | first _ _ _ rest ih =>
    have := ih rfl rfl
    have := rest.le
    omega
  | noFirst _ _ _ ho => exact absurd hfound.symm ho
  | stop => cases hstage
  | round => cases hstage
  | noOperand => cases hstage
  | paren _ h =>
    have := h.le
    omega
  | noInside _ _ ho => exact absurd hfound.symm ho
  | noColumn => cases hfound
  | thrown => cases hfound
  | unclosed => cases hfound
  | nothing => cases hfound
  | _ => omega

/-- No call goes past the last token. -/
theorem le_last (heof : inp.EofLast) (h : inp.Attempt stage lvl p o q) :
    q ≤ max p inp.last := by
  have hident : ∀ {p}, (inp.token p).type = .identifier → p < inp.last :=
    fun htype => heof.lt_last (by simp [htype])
  induction h with
  | unary htype _ ih =>
    have := heof.lt_last (prefixOf_ne_endOfFile htype)
    omega
  | first _ _ _ _ ih ih' => omega
  | noFirst _ _ _ _ ih => exact ih
  | stop => exact le_max_left _ _
  | round hop _ _ ih ih' =>
    have := hop.lt
    have := hop.le_last heof
    omega
  | noOperand hop _ _ ih =>
    have := hop.le_last heof
    omega
  | column htype => have := hident htype; omega
  | qualified _ _ hcolumn => have := hident hcolumn; omega
  | noColumn htype => have := hident htype; omega
  | literal h => have := heof.lt_last (literal_ne_endOfFile h); omega
  | thrown => exact le_max_left _ _
  | paren hopen _ hclose ih =>
    have := heof.lt_last (p := _) (show _ ≠ TokenType.endOfFile by rw [hclose]; decide)
    omega
  | unclosed hopen _ _ ih =>
    have := heof.lt_last (p := _) (show _ ≠ TokenType.endOfFile by rw [hopen]; decide)
    omega
  | noInside hopen _ _ ih =>
    have := heof.lt_last (p := _) (show _ ≠ TokenType.endOfFile by rw [hopen]; decide)
    omega
  | nothing => exact le_max_left _ _

/-- The tokens decide how a call ends. -/
theorem unique (h : inp.Attempt stage lvl p o q) {o' : Ending} {q' : ℕ}
    (h' : inp.Attempt stage lvl p o' q') : o = o' ∧ q = q' := by
  induction h generalizing o' q' with
  | unary htype _ ih =>
    cases h' with
    | unary _ operand => exact ih operand
    | first _ hne => exact absurd htype hne
    | noFirst _ hne => exact absurd htype hne
    | _ => cases htype
  | first hlvl htype _ _ ih ih' =>
    -- the call for the first operand decides whether the loop is entered
    cases h' with
    | unary heq => exact absurd heq htype
    | first _ _ operand rest =>
      obtain ⟨-, rfl⟩ := ih operand
      exact ih' rest
    | noFirst _ _ operand ho => exact absurd (ih operand).1.symm ho
    | _ => exact absurd rfl hlvl
  | noFirst hlvl htype _ ho ih =>
    cases h' with
    | unary heq => exact absurd heq htype
    | first _ _ operand => exact absurd (ih operand).1 ho
    | noFirst _ _ operand => exact ih operand
    | _ => exact absurd rfl hlvl
  | stop hop =>
    cases h' with
    | stop => exact ⟨rfl, rfl⟩
    | round hop' => exact absurd hop hop'.opOf_ne
    | noOperand hop' => exact absurd hop hop'.opOf_ne
  | round hop _ _ ih ih' =>
    -- the operator fixes where the right operand begins, and that call decides the rest
    cases h' with
    | stop hop' => exact absurd hop' hop.opOf_ne
    | round hop' operand rest =>
      obtain rfl := hop.unique hop'
      obtain ⟨-, rfl⟩ := ih operand
      exact ih' rest
    | noOperand hop' operand ho =>
      obtain rfl := hop.unique hop'
      exact absurd (ih operand).1.symm ho
  | noOperand hop _ ho ih =>
    cases h' with
    | stop hop' => exact absurd hop' hop.opOf_ne
    | round hop' operand =>
      obtain rfl := hop.unique hop'
      exact absurd (ih operand).1 ho
    | noOperand hop' operand =>
      obtain rfl := hop.unique hop'
      exact ih operand
  | paren hopen _ hclose ih =>
    -- three rules begin with a parenthesis: the call inside it and the token after decide
    cases h' with
    | paren _ inside =>
      obtain ⟨-, rfl⟩ := ih inside
      exact ⟨rfl, rfl⟩
    | unclosed _ inside hne =>
      obtain ⟨-, rfl⟩ := ih inside
      exact absurd hclose hne
    | noInside _ inside ho => exact absurd (ih inside).1.symm ho
    | _ => simp_all [Level.prefixOf, Input.literal]
  | unclosed hopen _ hclose ih =>
    cases h' with
    | paren _ inside heq =>
      obtain ⟨-, rfl⟩ := ih inside
      exact absurd heq hclose
    | unclosed _ inside =>
      obtain ⟨-, rfl⟩ := ih inside
      exact ⟨rfl, rfl⟩
    | noInside _ inside ho => exact absurd (ih inside).1.symm ho
    | _ => simp_all [Level.prefixOf, Input.literal]
  | noInside hopen _ ho ih =>
    cases h' with
    | paren _ inside => exact absurd (ih inside).1 ho
    | unclosed _ inside => exact absurd (ih inside).1 ho
    | noInside _ inside => exact ih inside
    | _ => simp_all [Level.prefixOf, Input.literal]
  | _ => cases h' <;> simp_all [Level.prefixOf, Input.literal]

/-- Only conversions throw. -/
theorem thrown_of {e : Halt} (h : inp.Attempt stage lvl p (.thrown e) q) :
    ∃ token ∈ inp.tokens, inp.literal token = some (.error e) := by
  generalize ho : Ending.thrown e = o at h
  induction h with
  | thrown h =>
    cases ho
    exact ⟨_, inp.token_mem _, h⟩
  | unary _ _ ih => exact ih ho
  | first _ _ _ _ _ ih => exact ih ho
  | noFirst _ _ _ _ ih => exact ih ho
  | round _ _ _ _ ih => exact ih ho
  | noOperand _ _ _ ih => exact ih ho
  | noInside _ _ _ ih => exact ih ho
  | _ => cases ho

/-! ### Calls that do not move -/

/-- Where no expression begins, none is found and nothing is passed. -/
theorem of_not_mem_starts (h : (inp.token p).type ∉ starts) :
    ∀ lvl, inp.Attempt .operand lvl p .missing p := by
  have hne : ∀ type ∈ starts, (inp.token p).type ≠ type := fun _ hmem heq => h (heq ▸ hmem)
  have hprimary : inp.Attempt .operand .primary p .missing p := by
    refine .nothing ?_ (hne _ (by decide)) (hne _ (by decide))
    unfold Input.literal
    split
    case h_7 => rfl
    all_goals exact absurd ‹_› (hne _ (by decide))
  have hunsigned : ∀ lvl : Level, lvl.prefixOf ≠ some (inp.token p).type := by
    intro lvl heq
    cases lvl <;> first | cases heq | exact hne _ (by decide) (Option.some.inj heq).symm
  have hnext : ∀ lvl : Level, lvl ≠ .primary → inp.Attempt .operand lvl.next p .missing p →
      inp.Attempt .operand lvl p .missing p :=
    fun lvl hlvl h => .noFirst hlvl (hunsigned lvl) h nofun
  have hunary := hnext .unary (by decide) hprimary
  have hmultiplicative := hnext .multiplicative (by decide) hunary
  have hadditive := hnext .additive (by decide) hmultiplicative
  have hcomparison := hnext .comparison (by decide) hadditive
  have hnot := hnext .not (by decide) hcomparison
  have hand := hnext .and (by decide) hnot
  intro lvl
  cases lvl
  · exact hnext .or (by decide) hand
  all_goals assumption

/-- A call that passes nothing and does not throw is at a token that begins no expression of its
level. -/
theorem first_of_unmoved (h : inp.Attempt .operand lvl p o q) (hq : q = p)
    (ho : ∀ e, o ≠ .thrown e) :
    (inp.token p).type ∉ starts ∨ ((inp.token p).type = .minus ∧ lvl = .primary) ∨
      ((inp.token p).type = .not ∧ Level.comparison.rank ≤ lvl.rank) := by
  generalize hstage : Stage.operand = stage at h
  induction h with
  | unary _ h =>
    have := h.le
    omega
  | first _ _ operand rest =>
    have := operand.lt
    have := rest.le
    omega
  | @noFirst lvl p q o hlvl htype _ _ ih =>
    rcases ih hq ho rfl with h | ⟨hminus, hnext⟩ | ⟨hnot, hnext⟩
    · exact .inl h
    · rw [hminus] at htype
      cases lvl <;> first | exact absurd rfl htype | exact absurd rfl hlvl | cases hnext
    · rw [hnot] at htype
      refine .inr (.inr ⟨hnot, ?_⟩)
      revert hnext htype
      cases lvl <;> decide
  | stop => cases hstage
  | round => cases hstage
  | noOperand => cases hstage
  | paren _ inside =>
    have := inside.le
    omega
  | unclosed _ inside =>
    have := inside.le
    omega
  | noInside _ inside =>
    have := inside.le
    omega
  | thrown => exact absurd rfl (ho _)
  | @nothing p hlit hcolumn hopen =>
    revert hlit hcolumn hopen
    unfold Input.literal starts
    cases (inp.token p).type <;> simp [Level.rank]
  | _ => omega

/-- A call at the lowest level moves exactly if the token begins an expression. -/
theorem unmoved_iff (h : inp.Attempt .operand .or p o q) (ho : ∀ e, o ≠ .thrown e) :
    q = p ↔ (inp.token p).type ∉ starts := by
  constructor
  · intro hq
    rcases h.first_of_unmoved hq ho with h | ⟨-, hlvl⟩ | ⟨-, hlvl⟩
    · exact h
    · cases hlvl
    · exact absurd hlvl (by decide)
  · intro hstarts
    exact (h.unique (of_not_mem_starts hstarts .or)).2

end Attempt

end Input

end MicroSql
