import MicroSql.Parser.WellFormed

/-!
# What the parser accepts

The statement parsers check most of the grammar and leave some of it unchecked.  An accepted
statement is well formed exactly if what is not checked holds too.
-/

namespace MicroSql

open Lib Prog

namespace Input

variable {inp : Input} {p q q' : ℕ}

/-! ### One reading -/

theorem Value.unique (h : inp.Value p q) (h' : inp.Value p q') : q = q' := by
  obtain ⟨⟨t, ht⟩, hstops, hdot⟩ := h
  obtain ⟨⟨t', ht'⟩, hstops', hdot'⟩ := h'
  have hlt := ht.lt
  have hlt' := ht'.lt
  have hcomplete : Parser.Returns (Parser.parseExpression inp (q + 1)) { position := p } q t :=
    Parser.parseExpression_complete ht hstops hdot (by omega) rfl
  have hcomplete' : Parser.Returns (Parser.parseExpression inp (q' + 1)) { position := p } q' t' :=
    Parser.parseExpression_complete ht' hstops' hdot' (by omega) rfl
  obtain ⟨i, s, hi, hy⟩ := hcomplete
  obtain ⟨i', s', hi', hy'⟩ := hcomplete'
  obtain ⟨-, rfl⟩ := Parser.parseExpression_unique hi hi'
  exact hy.position.symm.trans hy'.position

theorem Constraints.unique (h : inp.Constraints p q) (h' : inp.Constraints p q') : q = q' := by
  induction h with
  | nil hprimary hnot =>
    cases h' with
    | nil => rfl
    | primaryKey hp => exact absurd hp hprimary
    | notNull hn => exact absurd hn hnot
  | primaryKey hp _ _ ih =>
    cases h' with
    | nil hprimary => exact absurd hp hprimary
    | primaryKey _ _ rest => exact ih rest
    | notNull hn =>
      rw [hp] at hn
      cases hn
  | notNull hn _ _ ih =>
    cases h' with
    | nil _ hnot => exact absurd hn hnot
    | primaryKey hp =>
      rw [hn] at hp
      cases hp
    | notNull _ _ rest => exact ih rest

theorem Typed.unique {length length' : TokenType → Prop} (h : inp.Typed length p q)
    (h' : inp.Typed length' p q') : q = q' := by
  rcases h with ⟨hsimple, rfl⟩ | ⟨htext, hplain, rfl⟩ | ⟨htext, hopen, -, -, rfl⟩ <;>
    rcases h' with ⟨hsimple', rfl⟩ | ⟨htext', hplain', rfl⟩ | ⟨htext', hopen', -, -, rfl⟩
  · rfl
  · rfl
  · rw [htext'] at hsimple
    exact absurd hsimple (by decide)
  · rfl
  · rfl
  · exact absurd hopen' hplain
  · rw [htext] at hsimple'
    exact absurd hsimple' (by decide)
  · exact absurd hopen hplain'
  · rfl

theorem Column.unique {length length' : TokenType → Prop} (h : inp.Column length p q)
    (h' : inp.Column length' p q') : q = q' := by
  obtain ⟨-, e, htyped, hconstraints⟩ := h
  obtain ⟨-, e', htyped', hconstraints'⟩ := h'
  obtain rfl := htyped.unique htyped'
  exact hconstraints.unique hconstraints'

/-! ### Items of the two grammars -/

theorem Expr.first (h : inp.Expr p q) : (inp.token p).type ∈ starts := by
  obtain ⟨t, ht⟩ := h
  exact ht.first

/-- An expression before a comma or at the end of a list. -/
theorem Expr.value (h : inp.Expr p q) (hends : (inp.token q).type ∈
    [TokenType.comma, .from, .semicolon, .endOfFile, .rightParen]) : inp.Value p q := by
  have hstops : ∀ type ∈ [TokenType.comma, .from, .semicolon, .endOfFile, .rightParen],
      Level.or.Stops type ∧ type ≠ .dot := by
    intro type htype
    simp only [List.mem_cons, List.not_mem_nil, or_false] at htype
    rcases htype with rfl | rfl | rfl | rfl | rfl
    all_goals
      refine ⟨fun lvl _ => ?_, by decide⟩
      cases lvl <;> rfl
  exact ⟨h, hstops _ hends⟩

theorem Reads.first_ne_dot {items : List (ℕ × ℕ)}
    (h : inp.Reads Parser.selectEnds inp.Value p q items) : (inp.token p).type ≠ .dot := by
  intro hdot
  cases h with
  | nil hends => simp [hdot, Parser.selectEnds] at hends
  | cons _ item =>
    obtain ⟨⟨t, ht⟩, -⟩ := item
    exact ht.first_ne_dot hdot

theorem Typed.mono {length length' : TokenType → Prop} (h : inp.Typed length p q)
    (hlength : ∀ type, length type → length' type) : inp.Typed length' p q := by
  rcases h with h | h | ⟨htext, hopen, hn, hclose, hq⟩
  · exact .inl h
  · exact .inr (.inl h)
  · exact .inr (.inr ⟨htext, hopen, hlength _ hn, hclose, hq⟩)

theorem Column.mono {length length' : TokenType → Prop} (h : inp.Column length p q)
    (hlength : ∀ type, length type → length' type) : inp.Column length' p q := by
  obtain ⟨hname, e, htyped, hconstraints⟩ := h
  exact ⟨hname, e, htyped.mono hlength, hconstraints⟩

end Input

namespace Parser

variable {inp : Input} {s s' : Parser} {fuel : ℕ}

/-! ### Runs -/

theorem requireExpression_eq {context : Str} {i : ℤ}
    (h : requireExpression inp fuel context s = (.ok i, s')) :
    (i = -1 ∧ s'.result.error ≠ []) ∨ (i ≠ -1 ∧ inp.Expr s.position s'.position ∧
      Level.or.Stops (inp.token s'.position).type) := by
  obtain ⟨j, s₁, hj, h⟩ := bind_eq_ok.1 h
  rw [current_bind, bind_apply, when_apply] at h
  rcases parseExpression_sound fuel _ _ _ hj with ⟨rfl, -⟩ | hfound
  · rw [if_pos rfl, setErrorIfEmpty_apply] at h
    cases h
    refine .inl ⟨rfl, ?_⟩
    split
    · simp
    · assumption
  · rw [if_neg hfound.ne] at h
    cases h
    obtain ⟨t, ht, -⟩ := hfound.derives
    exact .inr ⟨hfound.ne, ⟨t, ht⟩, hfound.stops⟩

theorem parseWhere_eq {b : Bool} (h : parseWhere inp fuel s = (.ok b, s')) :
    (b = true ∧ inp.Where s.position s'.position) ∨ (b = false ∧ s'.result.error ≠ []) := by
  unfold parseWhere at h
  rw [currentIs_bind] at h
  by_cases hwhere : (inp.token s.position).type = .where
  · rw [if_pos (by simpa using hwhere), advance_bind] at h
    obtain ⟨i, s₁, hi, h⟩ := bind_eq_ok.1 h
    rcases requireExpression_eq hi with ⟨rfl, herror⟩ | ⟨hne, hexpr, -⟩
    · cases h
      exact .inr ⟨rfl, herror⟩
    · rw [if_neg hne] at h
      cases h
      exact .inl ⟨rfl, .inr ⟨hwhere, hexpr⟩⟩
  · rw [if_neg (by simpa using hwhere)] at h
    cases h
    exact .inl ⟨rfl, .inl rfl⟩

theorem parseWhere_true (h : parseWhere inp fuel s = (.ok true, s')) :
    inp.Where s.position s'.position := by
  rcases parseWhere_eq h with ⟨-, hwhere⟩ | ⟨hfalse, -⟩
  · exact hwhere
  · cases hfalse

theorem parseWhere_false (h : parseWhere inp fuel s = (.ok false, s')) :
    s'.result.error ≠ [] := by
  rcases parseWhere_eq h with ⟨htrue, -⟩ | ⟨-, herror⟩
  · cases htrue
  · exact herror

/-- The last step of most statements. -/
theorem semicolon_of_accepted {type : TokenType} {name : Str}
    (h : (do let _ ← consume inp type name) s = (.ok (), s')) (herror : s'.result.error = []) :
    (inp.token s.position).type = type := by
  obtain ⟨b, s₁, hb, h⟩ := bind_eq_ok.1 h
  cases h
  cases b with
  | true => exact (consume_true hb).1
  | false => exact absurd herror (consume_false hb)

/-! ### SELECT -/

theorem selectList_eq : ∀ (rounds : ℕ) {b : Bool} {s s' : Parser},
    selectList inp fuel rounds s = (.ok b, s') →
    (b = true ∧ ∃ items, inp.Reads selectEnds inp.Value s.position s'.position items) ∨
      (b = false ∧ s'.result.error ≠ [])
  | 0, _, _, _, h => by cases h
  | rounds + 1, b, s, s', h => by
    rw [selectList, current_bind] at h
    by_cases hends : selectEnds (inp.token s.position).type = true
    · rw [if_pos hends] at h
      cases h
      exact .inl ⟨rfl, [], .nil hends⟩
    rw [if_neg hends] at h
    obtain ⟨i, s₁, hi, h⟩ := bind_eq_ok.1 h
    by_cases hmissing : i = -1
    · rw [if_pos hmissing, current_bind, bind_apply, setErrorIfEmpty_apply] at h
      cases h
      have hstart : str "Unknown expression at line " ≠ [] := by decide
      refine .inr ⟨rfl, ?_⟩
      split
      · simp [hstart]
      · assumption
    rw [if_neg hmissing, setStatement_bind, bind_ok skipComma_apply] at h
    rcases selectList_eq rounds h with ⟨rfl, items, hitems⟩ | hfailed
    · have hdot : (inp.token s₁.position).type ≠ .dot := by
        -- a dot would be left for the next column, and none begins with one
        intro hdot
        refine Input.Reads.first_ne_dot hitems ?_
        change (inp.token (inp.skipComma s₁.position)).type = .dot
        rw [Input.skipComma_of_ne (by simp [hdot]), hdot]
      exact .inl ⟨rfl, _, .cons (by simpa using hends)
        (value_of_parseExpression hi hmissing hdot) hitems⟩
    · exact .inr hfailed

theorem selectColumns_eq {b : Bool} (h : selectColumns inp fuel s = (.ok b, s')) :
    (b = true ∧ (((inp.token s.position).type = .star ∧ s'.position = s.position + 1 ∧
        selectEnds (inp.token s'.position).type = true) ∨
      ((inp.token s.position).type ≠ .star ∧
        ∃ items, inp.Reads selectEnds inp.Value s.position s'.position items))) ∨
      (b = false ∧ s'.result.error ≠ []) := by
  unfold selectColumns at h
  rw [currentIs_bind] at h
  by_cases hstar : (inp.token s.position).type = .star
  · rw [if_pos (by simpa using hstar), advance_bind, current_bind] at h
    by_cases hends : selectEnds (inp.token (s.position + 1)).type = true
    · rw [if_pos hends] at h
      cases h
      exact .inl ⟨rfl, .inl ⟨hstar, rfl, hends⟩⟩
    · rw [if_neg hends] at h
      cases h
      exact .inr ⟨rfl, by simp⟩
  · rw [if_neg (by simpa using hstar)] at h
    rcases selectList_eq fuel h with ⟨rfl, hitems⟩ | hfailed
    · exact .inl ⟨rfl, .inr ⟨hstar, hitems⟩⟩
    · exact .inr hfailed

theorem selectColumns_false (h : selectColumns inp fuel s = (.ok false, s')) :
    s'.result.error ≠ [] := by
  rcases selectColumns_eq h with ⟨htrue, -⟩ | ⟨-, herror⟩
  · cases htrue
  · exact herror

/-! ### UPDATE -/

theorem consumeIdentifier_eq {context : Str} {name : Option Str}
    (h : consumeIdentifier inp context s = (.ok name, s')) :
    (name = none ∧ s'.result.error ≠ []) ∨ ((inp.token s.position).type = .identifier ∧
      name = some (inp.token s.position).value ∧ s' = { s with position := s.position + 1 }) := by
  unfold consumeIdentifier at h
  rw [current_bind] at h
  by_cases htype : (inp.token s.position).type = .identifier
  · rw [if_pos htype] at h
    cases h
    exact .inr ⟨htype, rfl, rfl⟩
  · rw [if_neg htype] at h
    cases h
    exact .inl ⟨rfl, by simp⟩

theorem parseAssignment_eq {b : Bool} (h : parseAssignment inp fuel s = (.ok b, s')) :
    (b = false ∧ s'.result.error ≠ []) ∨
      (b = true ∧ inp.Assignment s.position s'.position) := by
  obtain ⟨name, s₁, hname, h⟩ := bind_eq_ok.1 h
  rcases consumeIdentifier_eq hname with ⟨rfl, herror⟩ | ⟨htype, rfl, rfl⟩
  · cases h
    exact .inl ⟨rfl, herror⟩
  dsimp only at h
  obtain ⟨c, s₂, hc, h⟩ := bind_eq_ok.1 h
  cases c with
  | false =>
    cases h
    exact .inl ⟨rfl, consume_false hc⟩
  | true =>
  obtain ⟨hequal, rfl⟩ := consume_true hc
  rw [if_pos rfl] at h
  obtain ⟨i, s₃, hi, h⟩ := bind_eq_ok.1 h
  rcases requireExpression_eq hi with ⟨rfl, herror⟩ | ⟨hne, hexpr, -⟩
  · cases h
    exact .inl ⟨rfl, herror⟩
  · rw [if_neg hne] at h
    cases h
    exact .inr ⟨rfl, htype, hequal, hexpr⟩

/-- The assignments, from the end of the first one on. -/
theorem assignments_eq : ∀ (rounds : ℕ) {s s' : Parser} {b : Bool},
    assignments inp fuel rounds s = (.ok b, s') → (b = false ∧ s'.result.error ≠ []) ∨
      (b = true ∧ ∀ p, inp.Assignment p s.position → inp.Listed inp.Assignment p s'.position)
  | 0, _, _, _, h => by cases h
  | rounds + 1, s, s', b, h => by
    rw [assignments, currentIs_bind] at h
    by_cases hcomma : (inp.token s.position).type = .comma
    · rw [if_pos (by simpa using hcomma), advance_bind] at h
      obtain ⟨c, s₁, hc, h⟩ := bind_eq_ok.1 h
      rcases parseAssignment_eq hc with ⟨rfl, herror⟩ | ⟨rfl, hitem⟩
      · cases h
        exact .inl ⟨rfl, herror⟩
      · rw [if_pos rfl] at h
        exact (assignments_eq rounds h).imp_right fun ⟨hb, hrest⟩ =>
          ⟨hb, fun p hp => .cons hp hcomma (hrest _ hitem)⟩
    · rw [if_neg (by simpa using hcomma)] at h
      cases h
      exact .inr ⟨rfl, fun p hp => .last hp⟩

/-! ### CREATE TABLE -/

theorem columnType_eq {type : Option (DataType × ℤ)}
    (h : columnType inp s = (.ok type, s')) : (type = none ∧ s'.result.error ≠ []) ∨
      (type ≠ none ∧ inp.Typed (fun _ => True) s.position s'.position) := by
  unfold columnType at h
  rw [current_bind, gets_bind_apply] at h
  cases htype : (inp.token s.position).type <;> rw [htype] at h <;> dsimp only at h
  case integer =>
    cases h
    exact .inr ⟨nofun, .inl ⟨by simp [htype], rfl⟩⟩
  case float =>
    cases h
    exact .inr ⟨nofun, .inl ⟨by simp [htype], rfl⟩⟩
  case boolean =>
    cases h
    exact .inr ⟨nofun, .inl ⟨by simp [htype], rfl⟩⟩
  case text =>
    rw [peekIs_bind] at h
    by_cases hopen : (inp.token (s.position + 1)).type = .leftParen
    · rw [if_pos (by simpa using hopen), advance_bind, advance_bind, current_bind] at h
      obtain ⟨n, -, h⟩ := lift_bind_eq_ok.1 h
      rw [advance_bind] at h
      obtain ⟨b, s₁, hb, h⟩ := bind_eq_ok.1 h
      cases b with
      | false =>
        cases h
        exact .inl ⟨rfl, consume_false hb⟩
      | true =>
        obtain ⟨hclose, rfl⟩ := consume_true hb
        cases h
        exact .inr ⟨nofun, .inr (.inr ⟨htype, hopen, trivial, hclose, rfl⟩)⟩
    · rw [if_neg (by simpa using hopen)] at h
      cases h
      exact .inr ⟨nofun, .inr (.inl ⟨htype, hopen, rfl⟩)⟩
  all_goals
    cases h
    exact .inl ⟨rfl, by simp⟩

section ConsumeBoth

variable {first second : TokenType}

theorem consumeBoth_pos (hfirst : (inp.token s.position).type = first)
    (hsecond : (inp.token (s.position + 1)).type = second) :
    consumeBoth inp first second s = (.ok true, { s with position := s.position + 2 }) := by
  unfold consumeBoth
  rw [currentIs_bind, peekIs_bind, if_pos (by simp [hfirst, hsecond])]
  rfl

theorem consumeBoth_neg (h : ¬((inp.token s.position).type = first ∧
    (inp.token (s.position + 1)).type = second)) :
    consumeBoth inp first second s = (.ok false, s) := by
  unfold consumeBoth
  rw [currentIs_bind, peekIs_bind, if_neg (by simpa using h)]
  rfl

end ConsumeBoth

theorem columnConstraints_eq : ∀ (rounds : ℕ) {s s' : Parser} {column column' : ColumnDefinition},
    columnConstraints inp rounds column s = (.ok column', s') →
    inp.Constraints s.position s'.position
  | 0, _, _, _, _, h => by cases h
  | rounds + 1, s, s', column, column', h => by
    rw [columnConstraints, current_bind] at h
    by_cases htoken : (inp.token s.position).type = .primary ∨ (inp.token s.position).type = .not
    swap
    · rw [if_neg htoken] at h
      cases h
      rw [not_or] at htoken
      exact .nil htoken.1 htoken.2
    rw [if_pos htoken] at h
    -- the second half of a round
    have hnotNull : ∀ {s₁ : Parser} {primaryKey : Bool}, (do
          let notNull ← consumeBoth inp .not .tknull
          columnConstraints inp rounds { column with
            primaryKey := column.primaryKey || primaryKey,
            notNull := column.notNull || notNull }) s₁ = (.ok column', s') →
        inp.Constraints s₁.position s'.position := by
      intro s₁ primaryKey h₁
      by_cases hnot : (inp.token s₁.position).type = .not ∧
          (inp.token (s₁.position + 1)).type = .tknull
      · rw [bind_ok (consumeBoth_pos hnot.1 hnot.2)] at h₁
        exact .notNull hnot.1 hnot.2 (columnConstraints_eq rounds h₁)
      · rw [bind_ok (consumeBoth_neg hnot)] at h₁
        exact columnConstraints_eq rounds h₁
    by_cases hprimary : (inp.token s.position).type = .primary ∧
        (inp.token (s.position + 1)).type = .key
    · rw [bind_ok (consumeBoth_pos hprimary.1 hprimary.2)] at h
      exact .primaryKey hprimary.1 hprimary.2 (hnotNull h)
    · rw [bind_ok (consumeBoth_neg hprimary)] at h
      exact hnotNull h

theorem columnDefinition_eq {b : Bool} (h : columnDefinition inp fuel s = (.ok b, s')) :
    (b = false ∧ s'.result.error ≠ []) ∨
      (b = true ∧ inp.Column (fun _ => True) s.position s'.position) := by
  obtain ⟨name, s₁, hname, h⟩ := bind_eq_ok.1 h
  rcases consumeIdentifier_eq hname with ⟨rfl, herror⟩ | ⟨hident, rfl, rfl⟩
  · cases h
    exact .inl ⟨rfl, herror⟩
  dsimp only at h
  obtain ⟨type, s₂, htype, h⟩ := bind_eq_ok.1 h
  rcases columnType_eq htype with ⟨rfl, herror⟩ | ⟨hne, htyped⟩
  · cases h
    exact .inl ⟨rfl, herror⟩
  rcases type with _ | ⟨type, textLength⟩
  · exact absurd rfl hne
  dsimp only at h
  obtain ⟨column, s₃, hcolumn, h⟩ := bind_eq_ok.1 h
  cases h
  have hconstraints := columnConstraints_eq fuel hcolumn
  exact .inr ⟨rfl, hident, _, htyped, hconstraints⟩

theorem columnDefinitions_eq : ∀ (rounds : ℕ) {s s' : Parser} {b : Bool},
    columnDefinitions inp fuel rounds s = (.ok b, s') → (b = false ∧ s'.result.error ≠ []) ∨
      (b = true ∧ ∃ items,
        inp.Reads listEnds (inp.Column fun _ => True) s.position s'.position items)
  | 0, _, _, _, h => by cases h
  | rounds + 1, s, s', b, h => by
    rw [columnDefinitions, current_bind] at h
    by_cases hends : listEnds (inp.token s.position).type = true
    · rw [if_pos hends] at h
      cases h
      exact .inr ⟨rfl, [], .nil hends⟩
    rw [if_neg hends] at h
    obtain ⟨c, s₁, hc, h⟩ := bind_eq_ok.1 h
    rcases columnDefinition_eq hc with ⟨rfl, herror⟩ | ⟨rfl, hitem⟩
    · cases h
      exact .inl ⟨rfl, herror⟩
    · rw [if_pos rfl, bind_ok skipComma_apply] at h
      exact (columnDefinitions_eq rounds h).imp_right fun ⟨hb, items, hitems⟩ =>
        ⟨hb, _, .cons (by simpa using hends) hitem hitems⟩

/-! ### INSERT -/

/-- The loop over the values of a list in the grammar. -/
theorem insertValues_listed : ∀ (rounds : ℕ) {s s' : Parser} {c : ℕ},
    insertValues inp fuel rounds s = (.ok (), s') → inp.Listed inp.Expr s.position c →
    (inp.token c).type = .rightParen → s'.position = c
  | 0, _, _, _, h, _, _ => by cases h
  | rounds + 1, s, s', c, h, hlisted, hclose => by
    rw [insertValues, current_bind] at h
    -- at the first token of an expression the loop goes on, without a comma to skip
    have hstep : ∀ {q}, inp.Expr s.position q → (inp.token q).type = .comma ∨ q = c →
        ∃ s₁ : Parser, s₁.position = inp.skipComma q ∧
          insertValues inp fuel rounds s₁ = (.ok (), s') := by
      intro q hexpr hq
      have hstart : ∀ type ∈ Input.starts, listEnds type = false ∧ type ≠ .comma := by decide
      obtain ⟨hgoes, hcomma⟩ := hstart _ hexpr.first
      have hvalue : inp.Value s.position q := by
        refine hexpr.value ?_
        rcases hq with hq | rfl
        · simp [hq]
        · simp [hclose]
      rw [hgoes, if_neg Bool.false_ne_true, bind_ok skipComma_apply,
        Input.skipComma_of_ne hcomma] at h
      unfold insertValue at h
      rw [bind_assoc] at h
      obtain ⟨i, s₁, hi, h⟩ := bind_eq_ok.1 h
      rw [setStatement_bind, bind_ok skipComma_apply] at h
      obtain ⟨-, rfl⟩ := parseExpression_value hi hvalue
      exact ⟨_, rfl, h⟩
    cases hlisted with
    | last hexpr =>
      obtain ⟨s₁, hs₁, h⟩ := hstep hexpr (.inr rfl)
      rw [Input.skipComma_of_ne (by simp [hclose])] at hs₁
      cases rounds with
      | zero => cases h
      | succ rounds =>
        rw [insertValues, current_bind, hs₁, hclose] at h
        cases h
        exact hs₁
    | cons hexpr hcomma rest =>
      obtain ⟨s₁, hs₁, h⟩ := hstep hexpr (.inl hcomma)
      rw [Input.skipComma_of_comma hcomma] at hs₁
      exact insertValues_listed rounds h (by rwa [hs₁]) hclose

/-- What follows a list of values in an accepted statement. -/
theorem insertRow_listed {c : ℕ} (h : insertRow inp fuel s = (.ok (), s'))
    (herror : s'.result.error = []) (hopen : (inp.token s.position).type = .leftParen)
    (hlisted : inp.Listed inp.Expr (s.position + 1) c)
    (hclose : (inp.token c).type = .rightParen) : (inp.token (c + 1)).type = .semicolon := by
  unfold insertRow at h
  rw [currentIs_bind, if_pos (by simpa using hopen), advance_bind] at h
  unfold insertValue at h
  rw [bind_assoc] at h
  obtain ⟨i, s₁, hi, h⟩ := bind_eq_ok.1 h
  rw [setStatement_bind, currentIs_bind] at h
  obtain ⟨_, s₂, hloop, h⟩ := bind_eq_ok.1 h
  have hend : s₂.position = c := by
    rw [when_apply] at hloop
    cases hlisted with
    | last hexpr =>
      have hvalue : inp.Value (s.position + 1) c := hexpr.value (by simp [hclose])
      obtain ⟨-, hpos⟩ := parseExpression_value hi hvalue
      rw [if_neg (by simp [hpos, hclose])] at hloop
      cases hloop
      exact hpos
    | @cons _ q _ hexpr hcomma rest =>
      have hvalue : inp.Value (s.position + 1) q := hexpr.value (by simp [hcomma])
      obtain ⟨-, hpos⟩ := parseExpression_value hi hvalue
      rw [if_pos (by simp [hpos, hcomma]), advance_bind] at hloop
      exact insertValues_listed fuel hloop (by simpa only [hpos] using rest) hclose
  obtain ⟨s₃, h₃, hrest⟩ := step_of_accepted h herror consume_false
  obtain ⟨-, rfl⟩ := consume_true h₃
  have hsemi := semicolon_of_accepted hrest herror
  rwa [hend] at hsemi

end Parser

end MicroSql
