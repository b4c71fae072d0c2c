import MicroSql.Parser.Complete
import MicroSql.Parser.Fuel
import MicroSql.Parser.Indices

/-!
# The values of an `INSERT`

`parseInsert` stores the index of each value without looking at it.  All of them are indices of
expressions exactly when there is an expression wherever the parser looks for a value.
-/

namespace MicroSql

open Lib Prog

namespace Input

variable (inp : Input)

/-- The position after a comma, if there is one. -/
def skipComma (p : ℕ) : ℕ := if (inp.token p).type = .comma then p + 1 else p

/-- A list of column names, from the second on, as the parser reads it: any token is a name, and
there may be a comma before it and one after it.  The list has the positions of the names. -/
inductive Names : ℕ → ℕ → List ℕ → Prop
  | nil {p : ℕ} (hends : Parser.listEnds (inp.token p).type = true) : Names p p []
  | cons {p q : ℕ} {js : List ℕ} (hgoes : Parser.listEnds (inp.token p).type = false)
      (rest : Names (inp.skipComma (inp.skipComma p + 1)) q js) :
      Names p q (inp.skipComma p :: js)

/-- An expression stands between the two positions, and what follows does not continue it. -/
def Value (p q : ℕ) : Prop :=
  (∃ t, inp.Derives .or p q t) ∧ Level.or.Stops (inp.token q).type ∧ (inp.token q).type ≠ .dot

/-- A list of expressions, from the second on; there may be a comma before each and one after
it. -/
inductive Values : ℕ → ℕ → Prop
  | nil {p : ℕ} (hends : Parser.listEnds (inp.token p).type = true) : Values p p
  | cons {p q r : ℕ} (hgoes : Parser.listEnds (inp.token p).type = false)
      (hvalue : inp.Value (inp.skipComma p) q) (rest : Values (inp.skipComma q) r) : Values p r

/-- The position after the `VALUES` of an `INSERT`. -/
def AfterValues (v : ℕ) : Prop :=
  ((inp.token 3).type ≠ .leftParen ∧ v = 4) ∨
    ((inp.token 3).type = .leftParen ∧ ∃ q js, inp.Names 5 q js ∧ v = q + 2)

/-- After the parenthesis at `v` there is an expression, and then the parenthesis closes or a
comma comes before more expressions. -/
def ValueList (v : ℕ) : Prop :=
  ∃ q, inp.Value (v + 1) q ∧ ((inp.token q).type = .rightParen ∨
    (inp.token q).type = .comma ∧ ∃ r, inp.Values (q + 1) r)

/-- If the statement is an `INSERT` with a list of values, all of them are expressions. -/
def ValuesGiven : Prop :=
  (inp.token 0).type = .insert → ∀ v, inp.AfterValues v → (inp.token v).type = .leftParen →
    inp.ValueList v

variable {inp}

theorem Names.unique {p q q' : ℕ} {js js' : List ℕ} (h : inp.Names p q js)
    (h' : inp.Names p q' js') : q = q' ∧ js = js' := by
  induction h generalizing js' with
  | nil hends =>
    cases h' with
    | nil => exact ⟨rfl, rfl⟩
    | cons hgoes => exact absurd hends (by simp [hgoes])
  | cons hgoes _ ih =>
    cases h' with
    | nil hends => exact absurd hends (by simp [hgoes])
    | cons _ rest =>
      obtain ⟨rfl, rfl⟩ := ih rest
      exact ⟨rfl, rfl⟩

theorem AfterValues.unique {v v' : ℕ} (h : inp.AfterValues v) (h' : inp.AfterValues v') :
    v = v' := by
  rcases h with ⟨hnot, rfl⟩ | ⟨hopen, q, js, hq, rfl⟩
  · rcases h' with ⟨-, rfl⟩ | ⟨hopen, -⟩
    · rfl
    · exact absurd hopen hnot
  · rcases h' with ⟨hnot, -⟩ | ⟨-, q', js', hq', rfl⟩
    · exact absurd hopen hnot
    · rw [(hq.unique hq').1]

/-- No list of expressions begins with a dot. -/
theorem Values.ne_dot {p r : ℕ} (h : inp.Values p r) : (inp.token p).type ≠ .dot := by
  intro hdot
  cases h with
  | nil hends => simp [hdot, Parser.listEnds] at hends
  | cons _ hvalue =>
    obtain ⟨⟨t, ht⟩, -⟩ := hvalue
    rw [skipComma, if_neg (by simp [hdot])] at ht
    exact ht.first_ne_dot hdot

end Input

namespace Parser

variable {inp : Input} {s s' : Parser} {fuel : ℕ}

/-! ### Runs of the small functions -/

theorem consume_true {type : TokenType} {name : Str}
    (h : consume inp type name s = (.ok true, s')) :
    (inp.token s.position).type = type ∧ s' = { s with position := s.position + 1 } := by
  unfold consume at h
  rw [current_bind] at h
  by_cases htype : (inp.token s.position).type = type
  · rw [if_pos htype] at h
    cases h
    exact ⟨htype, rfl⟩
  · rw [if_neg htype] at h
    cases h

theorem consume_false {type : TokenType} {name : Str}
    (h : consume inp type name s = (.ok false, s')) : s'.result.error ≠ [] := by
  unfold consume at h
  rw [current_bind] at h
  by_cases htype : (inp.token s.position).type = type
  · rw [if_pos htype] at h
    cases h
  · rw [if_neg htype] at h
    cases h
    simp

theorem skipComma_apply :
    skipComma inp s = (.ok (), { s with position := inp.skipComma s.position }) := by
  unfold skipComma Input.skipComma
  rw [currentIs_bind, when_apply]
  by_cases hcomma : (inp.token s.position).type = .comma
  · rw [if_pos (by simp [hcomma]), if_pos hcomma]
    rfl
  · rw [if_neg (by simp [hcomma]), if_neg hcomma]

/-- A run of `parseExpression` where an expression stands. -/
theorem parseExpression_value {i : ℤ} {q : ℕ} (h : parseExpression inp fuel s = (.ok i, s'))
    (hvalue : inp.Value s.position q) : i ≠ -1 ∧ s'.position = q := by
  obtain ⟨⟨t, ht⟩, hstops, hdot⟩ := hvalue
  have hlt := ht.lt
  have hcomplete : Returns (parseExpression inp (q + 1)) s q t :=
    parseExpression_complete ht hstops hdot (by omega) rfl
  obtain ⟨j, s₁, hj, hyields⟩ := hcomplete
  obtain ⟨rfl, rfl⟩ := parseExpression_unique h hj
  exact ⟨hyields.ne, hyields.position⟩

/-- A run of `parseExpression` that returns an index. -/
theorem value_of_parseExpression {i : ℤ} (h : parseExpression inp fuel s = (.ok i, s'))
    (hi : i ≠ -1) (hdot : (inp.token s'.position).type ≠ .dot) :
    inp.Value s.position s'.position := by
  rcases parseExpression_sound fuel _ _ _ h with ⟨hmissing, -⟩ | hfound
  · exact absurd hmissing hi
  · obtain ⟨t, ht, -⟩ := hfound.derives
    exact ⟨⟨t, ht⟩, hfound.stops, hdot⟩

/-! ### The loops -/

theorem insertNames_names : ∀ (rounds : ℕ) {s s' : Parser},
    insertNames inp rounds s = (.ok (), s') →
      ∃ js, inp.Names s.position s'.position js ∧
        s'.result.statement = { s.result.statement with insertColumnNames :=
          s.result.statement.insertColumnNames ++ js.map fun j => (inp.token j).value }
  | 0, _, _, h => by cases h
  | rounds + 1, s, s', h => by
    rw [insertNames, current_bind] at h
    by_cases hends : listEnds (inp.token s.position).type = true
    · rw [if_pos hends] at h
      cases h
      exact ⟨[], .nil hends, by simp⟩
    · rw [if_neg hends, bind_ok skipComma_apply] at h
      unfold insertName at h
      rw [bind_assoc, current_bind, bind_assoc, setStatement_bind, advance_bind,
        bind_ok skipComma_apply] at h
      obtain ⟨js, hnames, hstatement⟩ := insertNames_names rounds h
      refine ⟨_, .cons (by simpa using hends) hnames, ?_⟩
      rw [hstatement]
      simp

/-- The values that the loop stores are those of a list of expressions, unless one is missing. -/
theorem insertValues_values (fuel : ℕ) : ∀ (rounds : ℕ) {s s' : Parser},
    insertValues inp fuel rounds s = (.ok (), s') →
      ∃ vs, s'.result.statement.insertValues = s.result.statement.insertValues ++ vs ∧
        ((∀ i ∈ vs, i ≠ -1) ↔ ∃ r, inp.Values s.position r)
  | 0, _, _, h => by cases h
  | rounds + 1, s, s', h => by
    rw [insertValues, current_bind] at h
    by_cases hends : listEnds (inp.token s.position).type = true
    · rw [if_pos hends] at h
      cases h
      exact ⟨[], (List.append_nil _).symm, fun _ => ⟨_, .nil hends⟩, fun _ => by simp⟩
    rw [if_neg hends, bind_ok skipComma_apply] at h
    have hgoes : listEnds (inp.token s.position).type = false := by simpa using hends
    unfold insertValue at h
    rw [bind_assoc] at h
    obtain ⟨i, s₁, hi, hrest⟩ := bind_eq_ok.1 h
    rw [setStatement_bind, bind_ok skipComma_apply] at hrest
    obtain ⟨vs, hvs, hiff⟩ := insertValues_values fuel rounds hrest
    have hstatement : s₁.result.statement = s.result.statement := by
      rcases parseExpression_sound fuel _ _ _ hi with ⟨-, hmissing⟩ | hfound
      · exact hmissing.statement
      · exact hfound.statement
    refine ⟨i :: vs, ?_, ?_⟩
    · rw [hvs]
      simp [hstatement]
    constructor
    · intro hall
      obtain ⟨r, hr⟩ := hiff.1 fun j hj => hall j (List.mem_cons_of_mem i hj)
      -- a dot would be left for the next value, and no value begins with one
      have hdot : (inp.token s₁.position).type ≠ .dot := by
        intro hdot
        refine hr.ne_dot ?_
        simp [Input.skipComma, hdot]
      exact ⟨r, .cons hgoes
        (value_of_parseExpression hi (hall i List.mem_cons_self) hdot) hr⟩
    · rintro ⟨r, hr⟩
      cases hr with
      | nil hends' => exact absurd hends' hends
      | @cons _ q _ _ hvalue hr =>
        obtain ⟨hne, hq⟩ := parseExpression_value hi hvalue
        intro j hj
        rcases List.mem_cons.1 hj with rfl | hj
        · exact hne
        · exact hiff.2 ⟨r, by rw [← hq] at hr; exact hr⟩ j hj

/-- The values of an accepted `INSERT`, from the parenthesis on. -/
theorem insertRow_values (h : insertRow inp fuel s = (.ok (), s')) (herror : s'.result.error = [])
    (hvalues : s.result.statement.insertValues = []) :
    (∀ i ∈ s'.result.statement.insertValues, i ≠ -1) ↔
      ((inp.token s.position).type = .leftParen → inp.ValueList s.position) := by
  unfold insertRow at h
  rw [currentIs_bind] at h
  by_cases hopen : (inp.token s.position).type = .leftParen
  swap
  · rw [if_neg (by simpa using hopen)] at h
    cases h
    simp [hvalues, hopen]
  rw [if_pos (by simpa using hopen), advance_bind] at h
  unfold insertValue at h
  rw [bind_assoc] at h
  obtain ⟨i, s₁, hi, h⟩ := bind_eq_ok.1 h
  rw [setStatement_bind, currentIs_bind] at h
  have hstatement : s₁.result.statement = s.result.statement := by
    rcases parseExpression_sound fuel _ _ _ hi with ⟨-, hmissing⟩ | hfound
    · exact hmissing.statement
    · exact hfound.statement
  obtain ⟨_, s₂, hloop, h⟩ := bind_eq_ok.1 h
  -- the closing parenthesis and the semicolon are there
  obtain ⟨b, s₃, hclose, h⟩ := bind_eq_ok.1 h
  cases b with
  | false =>
    cases h
    exact absurd herror (consume_false hclose)
  | true =>
  obtain ⟨htype, rfl⟩ := consume_true hclose
  obtain ⟨b, s₄, hsemi, h⟩ := bind_eq_ok.1 h
  cases h
  have hkeep : s'.result.statement = s₂.result.statement := by
    cases b with
    | false => exact absurd herror (consume_false hsemi)
    | true => rw [(consume_true hsemi).2]
  rw [hkeep]
  rw [when_apply] at hloop
  by_cases hcomma : (inp.token s₁.position).type = .comma
  · rw [if_pos (by simpa using hcomma), advance_bind] at hloop
    obtain ⟨vs, hvs, hiff⟩ := insertValues_values fuel fuel hloop
    simp only [hstatement, hvalues, List.nil_append] at hvs
    rw [hvs]
    constructor
    · intro hall _
      obtain ⟨r, hr⟩ := hiff.1 fun j hj => hall j (List.mem_cons_of_mem i hj)
      exact ⟨s₁.position, value_of_parseExpression hi (hall i List.mem_cons_self)
        (by simp [hcomma]), .inr ⟨hcomma, r, hr⟩⟩
    · intro hlist
      obtain ⟨q, hvalue, hrest⟩ := hlist hopen
      obtain ⟨hne, rfl⟩ := parseExpression_value hi hvalue
      obtain ⟨-, hr⟩ := hrest.resolve_left (by simp [hcomma])
      intro j hj
      rcases List.mem_cons.1 hj with rfl | hj
      · exact hne
      · exact hiff.2 hr j hj
  · rw [if_neg (by simpa using hcomma)] at hloop
    cases hloop
    simp only [hstatement, hvalues, List.nil_append, List.mem_singleton, forall_eq]
    constructor
    · intro hne _
      exact ⟨s₁.position, value_of_parseExpression hi hne (by simp [htype]), .inl htype⟩
    · intro hlist
      obtain ⟨q, hvalue, -⟩ := hlist hopen
      exact (parseExpression_value hi hvalue).1

/-- The column names of an accepted `INSERT`. -/
theorem insertColumns_names (h : insertColumns inp fuel s = (.ok true, s')) :
    ((inp.token s.position).type ≠ .leftParen ∧ s' = s) ∨
      ((inp.token s.position).type = .leftParen ∧ ∃ q js, inp.Names (s.position + 2) q js ∧
        (inp.token q).type = .rightParen ∧ s'.position = q + 1 ∧
        s'.result.statement = { s.result.statement with
          insertColumnNames := s.result.statement.insertColumnNames ++
            ((s.position + 1) :: js).map fun j => (inp.token j).value }) := by
  unfold insertColumns at h
  rw [currentIs_bind] at h
  by_cases hopen : (inp.token s.position).type = .leftParen
  swap
  · rw [if_neg (by simpa using hopen)] at h
    cases h
    exact .inl ⟨hopen, rfl⟩
  rw [if_pos (by simpa using hopen), advance_bind] at h
  unfold insertName at h
  rw [bind_assoc, current_bind, bind_assoc, setStatement_bind, advance_bind] at h
  obtain ⟨_, s₁, hnames, h⟩ := bind_eq_ok.1 h
  obtain ⟨js, hnames, hstatement⟩ := insertNames_names fuel hnames
  obtain ⟨hclose, rfl⟩ := consume_true h
  refine .inr ⟨hopen, s₁.position, js, hnames, hclose, rfl, ?_⟩
  rw [hstatement]
  simp

theorem parseTableName_true {context : Str} (h : parseTableName inp context s = (.ok true, s')) :
    (inp.token s.position).type = .identifier ∧
      s' = { s with position := s.position + 1, result := { s.result with
        statement := { s.result.statement with tableName := (inp.token s.position).value } } } := by
  unfold parseTableName consumeIdentifier at h
  rw [bind_assoc, current_bind] at h
  by_cases htype : (inp.token s.position).type = .identifier
  · rw [if_pos htype] at h
    cases h
    exact ⟨htype, rfl⟩
  · rw [if_neg htype] at h
    cases h

theorem parseTableName_false {context : Str} (h : parseTableName inp context s = (.ok false, s')) :
    s'.result.error ≠ [] := by
  unfold parseTableName consumeIdentifier at h
  rw [bind_assoc, current_bind] at h
  by_cases htype : (inp.token s.position).type = .identifier
  · rw [if_pos htype] at h
    cases h
  · rw [if_neg htype] at h
    cases h
    simp

theorem insertColumns_false (h : insertColumns inp fuel s = (.ok false, s')) :
    s'.result.error ≠ [] := by
  unfold insertColumns at h
  rw [currentIs_bind] at h
  by_cases hopen : (inp.token s.position).type = .leftParen
  · rw [if_pos (by simpa using hopen), advance_bind] at h
    obtain ⟨_, s₁, -, h⟩ := bind_eq_ok.1 h
    obtain ⟨_, s₂, -, h⟩ := bind_eq_ok.1 h
    exact consume_false h
  · rw [if_neg (by simpa using hopen)] at h
    cases h

/-- A step that an accepted statement has behind it. -/
theorem step_of_accepted {c : Prog Parser Halt Bool} {d : Prog Parser Halt Unit}
    (h : (do if ← c then d) s = (.ok (), s')) (herror : s'.result.error = [])
    (hfalse : ∀ {s'}, c s = (.ok false, s') → s'.result.error ≠ []) :
    ∃ s₁, c s = (.ok true, s₁) ∧ d s₁ = (.ok (), s') := by
  obtain ⟨b, s₁, hc, hd⟩ := bind_eq_ok.1 h
  cases b with
  | false =>
    cases hd
    exact absurd herror (hfalse hc)
  | true => exact ⟨s₁, hc, hd⟩

theorem parseInsert_values (hposition : s.position = 0)
    (hvalues : s.result.statement.insertValues = []) (h : parseInsert inp fuel s = (.ok (), s'))
    (herror : s'.result.error = []) :
    (∀ i ∈ s'.result.statement.insertValues, i ≠ -1) ↔
      ∀ v, inp.AfterValues v → (inp.token v).type = .leftParen → inp.ValueList v := by
  unfold parseInsert at h
  rw [advance_bind, setStatement_bind, hposition] at h
  obtain ⟨s₁, h₁, h⟩ := step_of_accepted h herror consume_false
  obtain ⟨-, rfl⟩ := consume_true h₁
  obtain ⟨s₂, h₂, h⟩ := step_of_accepted h herror parseTableName_false
  obtain ⟨-, rfl⟩ := parseTableName_true h₂
  obtain ⟨s₃, h₃, h⟩ := step_of_accepted h herror insertColumns_false
  obtain ⟨s₄, h₄, h⟩ := step_of_accepted h herror consume_false
  obtain ⟨-, rfl⟩ := consume_true h₄
  obtain ⟨hv, hnone⟩ : inp.AfterValues (s₃.position + 1) ∧
      s₃.result.statement.insertValues = [] := by
    rcases insertColumns_names h₃ with ⟨hnot, rfl⟩ | ⟨hopen, q, js, hq, -, hpos, hkeep⟩
    · exact ⟨.inl ⟨hnot, rfl⟩, hvalues⟩
    · exact ⟨.inr ⟨hopen, q, js, hq, by rw [hpos]⟩, by rw [hkeep]; exact hvalues⟩
  refine (insertRow_values h herror hnone).trans ⟨fun hlist v hv' => ?_, fun hlist => hlist _ hv⟩
  rw [hv'.unique hv]
  exact hlist

/-- What `parseInsert` stores is known, or missing. -/
theorem insertValue_keeps (fuel : ℕ) : Keeps True (insertValue inp fuel) := by
  refine Spec.bind (parseExpression_index fuel) fun i s hs => ?_
  refine hs.1.grow List.prefix_rfl (fun _ h => .inl h) (fun j hj => ?_) (fun _ h => .inl h)
    (.inl rfl)
  rcases List.mem_append.1 hj with hj | hj
  · exact .inl hj
  · cases List.mem_singleton.1 hj
    exact .inr (hs.2.imp (fun h => ⟨trivial, h⟩) fun h => Known.extends (s := s) List.prefix_rfl h)

theorem insertValues_keeps (fuel : ℕ) : ∀ rounds, Keeps True (insertValues inp fuel rounds)
  | 0 => .fail
  | rounds + 1 =>
    .bind current_keeps fun _ => .ite (.pure _) (.bind skipComma_keeps fun _ =>
      .bind (insertValue_keeps fuel) fun _ => .bind skipComma_keeps fun _ =>
        insertValues_keeps fuel rounds)

theorem insertName_keeps {missing : Prop} : Keeps missing (insertName inp) :=
  .bind current_keeps fun _ => .bind (setName_keeps (fun _ => rfl) (fun _ => rfl) (fun _ => rfl)
    fun _ => rfl) fun _ => advance_keeps

theorem insertNames_keeps {missing : Prop} : ∀ rounds, Keeps missing (insertNames inp rounds)
  | 0 => .fail
  | rounds + 1 =>
    .bind current_keeps fun _ => .ite (.pure _) (.bind skipComma_keeps fun _ =>
      .bind insertName_keeps fun _ => .bind skipComma_keeps fun _ => insertNames_keeps rounds)

theorem parseInsert_keeps (fuel : ℕ) : Keeps True (parseInsert inp fuel) := by
  have hcolumns : Keeps True (insertColumns inp fuel) :=
    .bind (currentIs_keeps _) fun _ => .ite (.bind advance_keeps fun _ =>
      .bind insertName_keeps fun _ => .bind (insertNames_keeps fuel) fun _ => consume_keeps _ _)
      (.pure _)
  have hrow : Keeps True (insertRow inp fuel) :=
    .bind (currentIs_keeps _) fun _ => .ite (.bind advance_keeps fun _ =>
      .bind (insertValue_keeps fuel) fun _ => .bind (currentIs_keeps _) fun _ =>
        .bind (.when (.bind advance_keeps fun _ => insertValues_keeps fuel fuel)) fun _ =>
          .bind (consume_keeps _ _) fun _ =>
            .ite (.bind (consume_keeps _ _) fun _ => .pure _) (.pure _)) (.pure _)
  exact .bind advance_keeps fun _ => .bind (setKind_keeps _) fun _ =>
    .bind (consume_keeps _ _) fun _ => .ite (.bind (parseTableName_keeps _) fun _ =>
      .ite (.bind hcolumns fun _ => .ite (.bind (consume_keeps _ _) fun _ =>
        .ite hrow (.pure _)) (.pure _)) (.pure _)) (.pure _)

theorem indexed_start (missing : Prop) : Indexed missing {} :=
  ⟨nofun, nofun, nofun, .inl rfl⟩

end Parser

/-! ### The indices that are dereferenced -/

/-- The index of the condition, if the statement has one and names a table. -/
def ParseResult.conditions (r : ParseResult) : List ℤ :=
  match r.statement.kind with
  | .select | .update | .delete =>
    if r.statement.tableName ≠ [] ∧ r.statement.whereIndex ≠ -1 then [r.statement.whereIndex]
    else []
  | _ => []

/-- The indices that the executor dereferences. -/
def ParseResult.indices (r : ParseResult) : List ℤ :=
  r.statement.selectColumns ++ r.statement.insertValues ++ r.statement.assignments.map (·.2) ++
    r.conditions

theorem Parser.Indexed.inRange {s : Parser} (h : s.Indexed False) :
    ∀ i ∈ s.result.indices, s.result.InRange i := by
  intro i hi
  simp only [ParseResult.indices, List.mem_append, List.mem_map] at hi
  rcases hi with ((hi | hi) | ⟨a, ha, rfl⟩) | hi
  · exact (h.select i hi).inRange
  · exact ((h.values i hi).resolve_left fun hfalse => hfalse.1).inRange
  · exact (h.assignments a ha).inRange
  · unfold ParseResult.conditions at hi
    split at hi
    case h_4 => cases hi
    all_goals
      split at hi
      next hwhere =>
        cases List.mem_singleton.1 hi
        exact (h.condition.resolve_left hwhere.2).inRange
      next => cases hi

/-- An accepted statement has no dangling index exactly if it is no `INSERT` with a value
missing. -/
theorem indices_inRange_iff {inp : Input} {fuel : ℕ} {r : ParseResult}
    (h : parse fuel inp = .ok r) (herror : r.error = []) :
    (∀ i ∈ r.indices, r.InRange i) ↔ inp.ValuesGiven := by
  unfold parse at h
  rcases hrun : Parser.parseStatement inp fuel {} with ⟨e | ⟨⟩, s⟩
  · rw [hrun] at h
    cases h
  rw [hrun] at h
  cases h
  by_cases hinsert : (inp.token 0).type = .insert
  · unfold Parser.parseStatement at hrun
    rw [Parser.current_bind] at hrun
    simp only [hinsert] at hrun
    have hindexed : s.Indexed True :=
      (Parser.parseInsert_keeps fuel).ok (Parser.indexed_start True) hrun
    rw [Input.ValuesGiven, ← Parser.parseInsert_values rfl rfl hrun herror]
    constructor
    · intro hall _ i hi
      have hrange := hall i (by simp [ParseResult.indices, hi])
      have := hrange.1
      omega
    · intro hgiven
      exact Parser.Indexed.inRange ⟨hindexed.select, fun i hi => .inr ((hindexed.values i
        hi).resolve_left fun hmissing => hgiven hinsert i hi hmissing.2), hindexed.assignments,
        hindexed.condition⟩
  · have hindexed : s.Indexed False := (@Parser.parseStatement_keeps _ False fuel hinsert).ok
      ⟨Parser.indexed_start False, rfl⟩ hrun
    exact ⟨fun _ h => absurd h hinsert, fun _ => hindexed.inRange⟩

/-- The tokens of `INSERT INTO t VALUES (` … `);`. -/
def insertTokens (values : List Token) : List Token :=
  [⟨.insert, str "INSERT", 1⟩, ⟨.into, str "INTO", 1⟩, ⟨.identifier, str "t", 1⟩,
    ⟨.values, str "VALUES", 1⟩, ⟨.leftParen, str "(", 1⟩] ++ values ++
    [⟨.rightParen, str ")", 1⟩, ⟨.semicolon, str ";", 1⟩, ⟨.endOfFile, [], 1⟩]

/-- The input of the parser. -/
def insertInput (values : List Token) : Input where
  tokens := insertTokens values
  nonempty := by simp [insertTokens]
  stof _ := .ok ⟨0⟩
  textLength _ := 0

/-- What `parse` returns for an `INSERT` into `t`. -/
def insertResult (expressions : List Expression) (insertValues : List ℤ) : ParseResult where
  expressions := expressions
  statement := { kind := .insert, tableName := str "t", insertValues := insertValues }

theorem indices_inRange_iff_sample :
    (∀ i ∈ (insertResult [.literalInt 7] [0]).indices,
      (insertResult [.literalInt 7] [0]).InRange i) ↔
      (insertInput [⟨.integerLiteral, str "7", 1⟩]).ValuesGiven :=
  indices_inRange_iff (by rfl : parse 3 _ = .ok _) rfl

/-- `INSERT INTO t VALUES ();` is accepted, and its value has the index `-1`. -/
theorem indices_dangle : ¬ ∀ (inp : Input) (fuel : ℕ) (r : ParseResult), parse fuel inp = .ok r →
    r.error = [] → ∀ i ∈ r.indices, r.InRange i := by
  intro h
  have hrange := h (insertInput []) 3 (insertResult [] [-1]) (by rfl) rfl (-1) (by decide)
  exact absurd hrange.1 (by decide)

end MicroSql
