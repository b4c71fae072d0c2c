import MicroSql.Parser.Accepts
import MicroSql.Parser.Printer
import MicroSql.Relational.Command

/-!
# The lists of a statement

A statement has up to five lists: selected columns, column names, values, assignments and column
definitions.  Each is read by a loop of its own, and they differ in who passes the comma.  What is
common to them: with its comma, every item of a printed list takes one round, which adds to the
statement one thing that stands for the item.
-/

namespace MicroSql

open Lib

/-- The items of a list after the first one, each with the comma before it. -/
def afterFirst {β : Type} (item : β → List (TokenType × Str)) (bs : List β) :
    List (TokenType × Str) :=
  bs.flatMap fun b => (.comma, str ",") :: item b

/-- Items with commas between them. -/
def commas {β : Type} (item : β → List (TokenType × Str)) : List β → List (TokenType × Str)
  | [] => []
  | b :: bs => item b ++ afterFirst item bs

section

variable {β : Type} (item : β → List (TokenType × Str))

theorem afterFirst_cons (b : β) (bs : List β) :
    afterFirst item (b :: bs) = ((.comma, str ",") :: item b) ++ afterFirst item bs :=
  List.flatMap_cons

theorem length_le_afterFirst (bs : List β) : bs.length ≤ (afterFirst item bs).length := by
  induction bs with
  | nil => exact le_rfl
  | cons b bs ih =>
    rw [afterFirst_cons, List.length_append, List.length_cons, List.length_cons]
    omega

theorem length_le_commas (bs : List β) : bs.length ≤ (commas item bs).length + 1 := by
  cases bs with
  | nil => exact Nat.zero_le _
  | cons b bs =>
    have := length_le_afterFirst item bs
    rw [commas, List.length_append, List.length_cons]
    omega

theorem length_item_le_afterFirst {b : β} {bs : List β} (h : b ∈ bs) :
    (item b).length ≤ (afterFirst item bs).length := by
  obtain ⟨before, after, rfl⟩ := List.append_of_mem h
  simp only [afterFirst, List.flatMap_append, List.flatMap_cons, List.length_append,
    List.length_cons]
  omega

theorem length_item_le_commas {b : β} {bs : List β} (h : b ∈ bs) :
    (item b).length ≤ (commas item bs).length := by
  cases bs with
  | nil => exact absurd h List.not_mem_nil
  | cons c bs =>
    rw [commas, List.length_append]
    rcases List.mem_cons.1 h with rfl | h
    · exact Nat.le_add_right _ _
    · have := length_item_le_afterFirst item h
      omega

end

/-- The name of a column. -/
def columnToken (name : Str) : List (TokenType × Str) := [(.identifier, name)]

/-- An assignment of an UPDATE. -/
def assignmentTokens (a : Str × Tree) : List (TokenType × Str) :=
  (.identifier, a.1) :: (.equal, str "=") :: a.2.print

namespace Statement

/-- One more output column. -/
def addSelected (s : Statement) (i : ℤ) : Statement :=
  { s with selectColumns := s.selectColumns ++ [i] }

/-- One more column name of an INSERT. -/
def addName (s : Statement) (name : Str) : Statement :=
  { s with insertColumnNames := s.insertColumnNames ++ [name] }

/-- One more value of an INSERT. -/
def addValue (s : Statement) (i : ℤ) : Statement :=
  { s with insertValues := s.insertValues ++ [i] }

/-- One more assignment. -/
def addAssignment (s : Statement) (a : Str × ℤ) : Statement :=
  { s with assignments := s.assignments ++ [a] }

/-- One more column definition. -/
def addDefinition (s : Statement) (c : ColumnDefinition) : Statement :=
  { s with columnDefinitions := s.columnDefinitions ++ [c] }

variable (s : Statement)

theorem foldl_addSelected (is : List ℤ) :
    is.foldl addSelected s = { s with selectColumns := s.selectColumns ++ is } := by
  induction is generalizing s with
  | nil => simp
  | cons i is ih => simp [ih, addSelected]

theorem foldl_addName (names : List Str) :
    names.foldl addName s = { s with insertColumnNames := s.insertColumnNames ++ names } := by
  induction names generalizing s with
  | nil => simp
  | cons name names ih => simp [ih, addName]

theorem foldl_addValue (is : List ℤ) :
    is.foldl addValue s = { s with insertValues := s.insertValues ++ is } := by
  induction is generalizing s with
  | nil => simp
  | cons i is ih => simp [ih, addValue]

theorem foldl_addAssignment (as : List (Str × ℤ)) :
    as.foldl addAssignment s = { s with assignments := s.assignments ++ as } := by
  induction as generalizing s with
  | nil => simp
  | cons a as ih => simp [ih, addAssignment]

theorem foldl_addDefinition (cs : List ColumnDefinition) :
    cs.foldl addDefinition s = { s with columnDefinitions := s.columnDefinitions ++ cs } := by
  induction cs generalizing s with
  | nil => simp
  | cons c cs ih => simp [ih, addDefinition]

end Statement

namespace Parser

variable {inp : Input} {α β γ : Type} {add : Statement → γ → Statement}
  {Q : ParseResult → γ → β → Prop} {s s' s₁ s₂ : Parser} {fuel : ℕ}

/-! ### What is added to a statement -/

/-- Between the two states one thing has been added to the statement for each element of `bs`,
which it stands for; nothing else has changed but for new nodes of the arena. -/
structure Adds (add : Statement → γ → Statement) (Q : ParseResult → γ → β → Prop) (bs : List β)
    (s s' : Parser) : Prop where
  error : s'.result.error = s.result.error
  expressions : s.result.expressions <+: s'.result.expressions
  added : ∃ cs, s'.result.statement = cs.foldl add s.result.statement ∧
    List.Forall₂ (Q s'.result) cs bs

/-- What stands for something does so in a larger arena. -/
def Persists (Q : ParseResult → γ → β → Prop) : Prop :=
  ∀ ⦃pr pr' : ParseResult⦄ ⦃c b⦄, pr.expressions <+: pr'.expressions → Q pr c b → Q pr' c b

theorem Adds.nil (h : s'.result = s.result) : Adds add Q [] s s' :=
  ⟨by rw [h], by rw [h], [], by rw [h]; rfl, .nil⟩

theorem Adds.append {bs bs' : List β} (hQ : Persists Q) (h : Adds add Q bs s s₁)
    (h' : Adds add Q bs' s₁ s₂) : Adds add Q (bs ++ bs') s s₂ := by
  obtain ⟨cs, hcs, hall⟩ := h.added
  obtain ⟨cs', hcs', hall'⟩ := h'.added
  refine ⟨h'.error.trans h.error, h.expressions.trans h'.expressions, cs ++ cs', ?_, ?_⟩
  · rw [hcs', hcs, List.foldl_append]
  · exact List.rel_append (hall.imp fun c b => hQ h'.expressions) hall'

/-- Passing tokens adds nothing. -/
theorem Adds.congr {bs : List β} (h : Adds add Q bs s s₁) (hs : s₂.result = s₁.result) :
    Adds add Q bs s s₂ := by
  obtain ⟨herror, hexpressions, hadded⟩ := h
  exact ⟨by rw [hs, herror], by rw [hs]; exact hexpressions, by rw [hs]; exact hadded⟩

theorem Adds.of_start {bs : List β} (h : Adds add Q bs s₁ s₂) (hs : s₁.result = s.result) :
    Adds add Q bs s s₂ := by
  obtain ⟨herror, hexpressions, hadded⟩ := h
  exact ⟨by rw [← hs, herror], by rw [← hs]; exact hexpressions, by rw [← hs]; exact hadded⟩

/-- The call returns `a` at position `q`, and adds what stands for `bs`. -/
def Reads (add : Statement → γ → Statement) (Q : ParseResult → γ → β → Prop) (bs : List β)
    (c : Prog Parser Halt α) (a : α) (s : Parser) (q : ℕ) : Prop :=
  ∃ s', c s = (.ok a, s') ∧ s'.position = q ∧ Adds add Q bs s s'

/-! ### A list after its first item -/

/-- The next token is a comma, or one at which the list ends. -/
def Continues (inp : Input) (ends : TokenType → Prop) (p : ℕ) : Prop :=
  (inp.token p).type = .comma ∨ ends (inp.token p).type

section Rest

variable {loop : ℕ → Prog Parser Halt α} {a : α} {item : β → List (TokenType × Str)}
  {ends : TokenType → Prop} {s₀ : Parser} {all : List β}

/-- What follows an item. -/
theorem continues_of_spells {p : ℕ} {bs : List β} (h : inp.Spells p (afterFirst item bs))
    (hends : ends (inp.token (p + (afterFirst item bs).length)).type) :
    Continues inp ends p := by
  cases bs with
  | nil => exact .inr hends
  | cons b bs =>
    rw [afterFirst_cons] at h
    exact .inl (spells_spelling h).1

variable (loop) in
/-- After the first item, a loop that takes one round for each further item, with its comma, reads
the list up to its end. -/
theorem loop_reads_rest (hQ : Persists Q)
    (hstop : ∀ r s, ends (inp.token s.position).type → loop (r + 1) s = (.ok a, s))
    (hround : ∀ done b rest, all = done ++ b :: rest → ∀ s, Adds add Q done s₀ s →
      inp.Spells s.position ((.comma, str ",") :: item b) →
      Continues inp ends (s.position + 1 + (item b).length) →
      ∃ s', s'.position = s.position + 1 + (item b).length ∧ Adds add Q [b] s s' ∧
        ∀ r, loop (r + 1) s = loop r s') :
    ∀ (bs done : List β) (s : Parser) (r : ℕ), all = done ++ bs → Adds add Q done s₀ s →
      inp.Spells s.position (afterFirst item bs) →
      ends (inp.token (s.position + (afterFirst item bs).length)).type → bs.length < r →
      ∃ s', loop r s = (.ok a, s') ∧
        s'.position = s.position + (afterFirst item bs).length ∧ Adds add Q all s₀ s'
  | [], done, s, r, hall, hdone, _, hends, hr => by
    obtain ⟨r, rfl⟩ := Nat.exists_eq_add_of_lt hr
    rw [List.append_nil] at hall
    exact ⟨s, hstop _ s hends, rfl, hall ▸ hdone⟩
  | b :: bs, done, s, r, hall, hdone, hspells, hends, hr => by
    obtain ⟨r, rfl⟩ : ∃ n, r = n + 1 := ⟨r - 1, by omega⟩
    have hlength : s.position + (afterFirst item (b :: bs)).length =
        s.position + 1 + (item b).length + (afterFirst item bs).length := by
      rw [afterFirst_cons, List.length_append, List.length_cons]
      omega
    rw [hlength] at hends ⊢
    rw [afterFirst_cons] at hspells
    obtain ⟨hitem, hrest⟩ := hspells.append
    rw [List.length_cons, Nat.add_comm (item b).length 1, ← Nat.add_assoc] at hrest
    obtain ⟨s₁, hpos, hadds, hloop⟩ := hround done b bs hall s hdone hitem
      (continues_of_spells hrest hends)
    rw [← hpos] at hrest hends ⊢
    obtain ⟨s', hrun, hpos', hall'⟩ := loop_reads_rest hQ hstop hround bs (done ++ [b]) s₁ r
      (by rw [hall, List.append_assoc]; rfl) (hdone.append hQ hadds) hrest hends
      (Nat.lt_of_succ_lt_succ hr)
    exact ⟨s', (hloop r).trans hrun, hpos', hall'⟩

end Rest

/-! ### Small steps -/

section Steps

variable {type : TokenType} {value name context : Str} {xs : List (TokenType × Str)}

theorem consume_spells (h : inp.Spells s.position ((type, value) :: xs)) :
    consume inp type name s = (.ok true, { s with position := s.position + 1 }) := by
  rw [consume, current_bind, if_pos (spells_spelling h).1]
  rfl

theorem consumeIdentifier_spells (h : inp.Spells s.position ((.identifier, value) :: xs)) :
    consumeIdentifier inp context s =
      (.ok (some value), { s with position := s.position + 1 }) := by
  obtain ⟨htype, rfl, -⟩ := spells_spelling h
  rw [consumeIdentifier, current_bind, if_pos htype]
  rfl

theorem currentIs_pos (h : (inp.token s.position).type = type) (k : Bool → Prog Parser Halt α) :
    (currentIs inp type >>= k) s = k true s := by
  rw [currentIs_bind, h, beq_self_eq_true]

theorem currentIs_neg (h : (inp.token s.position).type ≠ type) (k : Bool → Prog Parser Halt α) :
    (currentIs inp type >>= k) s = k false s := by
  rw [currentIs_bind, beq_eq_false_iff_ne.2 h]

theorem skipComma_comma (h : (inp.token s.position).type = .comma) :
    skipComma inp s = (.ok (), { s with position := s.position + 1 }) := by
  rw [skipComma, currentIs_pos h, Prog.when_apply]
  rfl

theorem skipComma_other (h : (inp.token s.position).type ≠ .comma) :
    skipComma inp s = (.ok (), s) := by
  rw [skipComma, currentIs_neg h, Prog.when_apply, if_neg Bool.false_ne_true]

/-- A printed expression is read. -/
theorem parseExpression_spells {t : Tree} (ht : t.Printable) (h : inp.Spells s.position t.print)
    (hfollow : Follows (inp.token (s.position + t.print.length)).type)
    (hfuel : t.print.length < fuel) :
    Returns (parseExpression inp fuel) s (s.position + t.print.length) t := by
  obtain ⟨hstops, hdot⟩ := hfollow.stops
  exact parseExpression_complete ((derives_print ht h).lower (Nat.zero_le _)) hstops hdot
    (by omega) rfl

/-- The first token of a printed expression. -/
theorem print_first {t : Tree} (ht : t.Printable) (h : inp.Spells s.position t.print) :
    (inp.token s.position).type ∈ Input.starts := (derives_print ht h).first

end Steps

/-! ### Loops that skip commas -/

section Skip

variable {loop : ℕ → Prog Parser Halt α} {a : α} {item : β → List (TokenType × Str)}
  {ends : TokenType → Prop} {s₀ : Parser} {all : List β}

/-- From the first token of an item, a round of the loop reads it and skips the comma after it. -/
def TakesRound (inp : Input) (add : Statement → γ → Statement) (Q : ParseResult → γ → β → Prop)
    (item : β → List (TokenType × Str)) (ends : TokenType → Prop)
    (loop : ℕ → Prog Parser Halt α) (all : List β) (s₀ : Parser) : Prop :=
  ∀ done b rest, all = done ++ b :: rest → ∀ s, Adds add Q done s₀ s →
    inp.Spells s.position (item b) → Continues inp ends (s.position + (item b).length) →
    ∃ s', s'.position = s.position + (item b).length ∧ Adds add Q [b] s s' ∧
      ∀ r, loop (r + 1) s = (do
        skipComma inp
        loop r : Prog Parser Halt α) s'

variable (ends) in
/-- The rest of a list whose loop skips the commas. -/
theorem skips_rest (hQ : Persists Q) (hends : ¬ends .comma)
    (hstop : ∀ r s, ends (inp.token s.position).type → loop (r + 1) s = (.ok a, s))
    (hround : TakesRound inp add Q item ends loop all s₀) (done : List β) {bs : List β} {r : ℕ}
    (hall : all = done ++ bs) (hdone : Adds add Q done s₀ s)
    (hspells : inp.Spells s.position (afterFirst item bs))
    (hend : ends (inp.token (s.position + (afterFirst item bs).length)).type)
    (hr : bs.length < r) :
    ∃ s', (do
        skipComma inp
        loop r : Prog Parser Halt α) s = (.ok a, s') ∧
      s'.position = s.position + (afterFirst item bs).length ∧ Adds add Q all s₀ s' := by
  refine loop_reads_rest (fun r => do
    skipComma inp
    loop r) hQ ?_ ?_ bs done s r hall hdone hspells hend hr
  · intro r s hs
    have hne : (inp.token s.position).type ≠ .comma := by
      intro hcomma
      rw [hcomma] at hs
      exact hends hs
    rw [Prog.bind_ok (skipComma_other hne)]
    exact hstop r s hs
  · intro done b rest hall s hdone hspells hnext
    obtain ⟨hcomma, -, hitem⟩ := spells_spelling hspells
    obtain ⟨s', hpos, hadds, hloop⟩ := hround done b rest hall
      { s with position := s.position + 1 } (hdone.congr rfl) hitem hnext
    refine ⟨s', hpos, hadds.of_start rfl, fun r => ?_⟩
    rw [Prog.bind_ok (skipComma_comma hcomma)]
    exact hloop r

variable (ends) in
/-- The whole of such a list. -/
theorem skips_all (hQ : Persists Q) (hends : ¬ends .comma)
    (hstop : ∀ r s, ends (inp.token s.position).type → loop (r + 1) s = (.ok a, s))
    {b : β} {bs : List β} (hround : TakesRound inp add Q item ends loop (b :: bs) s) {r : ℕ}
    (hspells : inp.Spells s.position (commas item (b :: bs)))
    (hend : ends (inp.token (s.position + (commas item (b :: bs)).length)).type)
    (hr : (b :: bs).length < r) :
    Reads add Q (b :: bs) (loop r) a s (s.position + (commas item (b :: bs)).length) := by
  obtain ⟨r, rfl⟩ : ∃ n, r = n + 1 := ⟨r - 1, by omega⟩
  rw [commas] at hspells hend ⊢
  rw [List.length_append, ← Nat.add_assoc] at hend ⊢
  obtain ⟨hitem, hrest⟩ := hspells.append
  obtain ⟨s₁, hpos, hadds, hloop⟩ := hround [] b bs rfl s (.nil rfl) hitem
    (continues_of_spells hrest hend)
  rw [← hpos] at hrest hend ⊢
  obtain ⟨s', hrun, hpos', hall⟩ := skips_rest ends hQ hends hstop hround [b] rfl hadds hrest
    hend (Nat.lt_of_succ_lt_succ hr)
  exact ⟨s', (hloop r).trans hrun, hpos', hall⟩

end Skip

/-! ### What stands for what -/

theorem refers_persists : Persists ParseResult.Refers := fun _ _ _ _ hsub h => h.mono hsub

theorem names_persists : Persists ParseResult.Names := by
  rintro pr pr' index name hsub ⟨expr, hindex, hname⟩
  exact ⟨expr, hindex.mono hsub, hname⟩

theorem assigns_persists : Persists ParseResult.Assigns := fun _ _ _ _ hsub h =>
  ⟨h.1, h.2.mono hsub⟩

theorem eq_persists {γ : Type} : Persists fun (_ : ParseResult) (c b : γ) => c = b :=
  fun _ _ _ _ _ h => h

/-- An expression has been read, and its index added to the statement. -/
theorem Yields.adds {i : ℤ} {t : Tree} {q : ℕ} {b : β} {c : γ} (h : Yields s q t i s')
    (hs : s₁.result = { s'.result with statement := add s'.result.statement c })
    (hQ : Q s₁.result c b) : Adds add Q [b] s s₁ := by
  refine ⟨by rw [hs]; exact h.error, by rw [hs]; exact h.expressions, [c], ?_, .cons hQ .nil⟩
  rw [hs, ← h.statement]
  rfl

theorem Continues.follows {ends : TokenType → Prop} {p : ℕ} (h : Continues inp ends p)
    (hends : ∀ type, ends type → Follows type) : Follows (inp.token p).type := by
  rcases h with h | h
  · rw [h]
    exact .inr (.inr (.inl rfl))
  · exact hends _ h

/-! ### SELECT -/

theorem selectList_round {name : Str} (h : inp.Spells s.position (columnToken name))
    (hnext : Continues inp (· = .from) (s.position + 1)) (hfuel : 1 < fuel) :
    ∃ s', s'.position = s.position + 1 ∧
      Adds Statement.addSelected ParseResult.Names [name] s s' ∧
      ∀ r, selectList inp fuel (r + 1) s = (do
        skipComma inp
        selectList inp fuel r : Prog Parser Halt Bool) s' := by
  have htype : (inp.token s.position).type = .identifier := (spells_spelling h).1
  have hfollow : Follows (inp.token (s.position + 1)).type := hnext.follows (by
    rintro _ rfl
    exact .inr (.inr (.inr (.inl rfl))))
  obtain ⟨i, s₁, hrun, hyields⟩ := parseExpression_spells (t := .leaf (.columnRef [] name)) trivial
    h hfollow hfuel
  refine ⟨{ s₁ with result := { s₁.result with
    statement := s₁.result.statement.addSelected i } }, hyields.position, hyields.adds rfl ?_, ?_⟩
  · obtain ⟨expr, hindex, hunfolds⟩ := hyields.refers
    cases hunfolds
    exact ⟨_, hindex, rfl⟩
  · intro r
    rw [selectList, current_bind, htype]
    change (parseExpression inp fuel >>= _) s = _
    rw [Prog.bind_ok hrun, if_neg hyields.ne]
    rfl

theorem selectList_reads {names : List Str} (hne : names ≠ [])
    (h : inp.Spells s.position (commas columnToken names))
    (hend : (inp.token (s.position + (commas columnToken names).length)).type = .from)
    (hfuel : (commas columnToken names).length + 1 < fuel) :
    Reads Statement.addSelected ParseResult.Names names (selectList inp fuel fuel) true s
      (s.position + (commas columnToken names).length) := by
  obtain ⟨name, names, rfl⟩ := List.exists_cons_of_ne_nil hne
  refine skips_all (· = .from) names_persists (by simp) ?_ ?_ h hend
    ((length_le_commas columnToken _).trans_lt hfuel)
  · intro r s hs
    rw [selectList, current_bind, hs]
    rfl
  · intro done b rest _ s _ hspells hnext
    exact selectList_round hspells hnext (by omega)

/-! ### INSERT -/

/-- The lists of an INSERT end at a closing parenthesis. -/
def closes (type : TokenType) : Prop := type = .rightParen

theorem insertName_reads {name : Str} (h : inp.Spells s.position (columnToken name)) :
    Reads Statement.addName (fun _ c b => c = b) [name] (insertName inp) () s
      (s.position + 1) := by
  obtain ⟨-, rfl, -⟩ := spells_spelling h
  exact ⟨_, rfl, rfl, rfl, List.prefix_refl _, [_], rfl, .cons rfl .nil⟩

theorem insertValue_reads {t : Tree} (ht : t.Printable) (h : inp.Spells s.position t.print)
    (hnext : Continues inp closes (s.position + t.print.length)) (hfuel : t.print.length < fuel) :
    Reads Statement.addValue ParseResult.Refers [t] (insertValue inp fuel) () s
      (s.position + t.print.length) := by
  have hfollow : Follows (inp.token (s.position + t.print.length)).type :=
    hnext.follows fun _ h => .inr (.inl h)
  obtain ⟨i, s₁, hrun, hyields⟩ := parseExpression_spells ht h hfollow hfuel
  refine ⟨{ s₁ with result := { s₁.result with statement := s₁.result.statement.addValue i } },
    ?_, hyields.position, hyields.adds rfl ?_⟩
  · rw [insertValue, Prog.bind_ok hrun]
    rfl
  · refine ParseResult.Refers.mono ?_ hyields.refers
    exact List.prefix_refl s₁.result.expressions

section InsertLoop

variable (loop : ℕ → Prog Parser Halt Unit) (one : Prog Parser Halt Unit)
  (item : β → List (TokenType × Str)) {all : List β} {s₀ : Parser}

/-- Both loops of an INSERT are like this, after the first item. -/
theorem insertLoop_reads (hQ : Persists Q)
    (hsucc : ∀ r, loop (r + 1) = (do
      if listEnds (← current inp).type then return ()
      else do
        skipComma inp
        one
        skipComma inp
        loop r))
    (hone : ∀ b ∈ all, ∀ s : Parser, inp.Spells s.position (item b) →
      Continues inp closes (s.position + (item b).length) →
      Reads add Q [b] one () s (s.position + (item b).length))
    (hfirst : ∀ b ∈ all, ∀ s : Parser, inp.Spells s.position (item b) →
      (inp.token s.position).type ∈ Input.starts)
    (done : List β) {bs : List β} {r : ℕ} (hall : all = done ++ bs) (hdone : Adds add Q done s₀ s)
    (hspells : inp.Spells s.position (afterFirst item bs))
    (hend : closes (inp.token (s.position + (afterFirst item bs).length)).type)
    (hr : bs.length < r) :
    ∃ s', (do
        skipComma inp
        loop r : Prog Parser Halt Unit) s = (.ok (), s') ∧
      s'.position = s.position + (afterFirst item bs).length ∧ Adds add Q all s₀ s' := by
  refine skips_rest closes hQ (by simp [closes]) ?_ ?_ done hall hdone hspells hend hr
  · intro r s hs
    rw [hsucc, current_bind, hs]
    rfl
  · intro done b rest hall s _ hspells hnext
    have hb : b ∈ all := by simp [hall]
    have hstart := hfirst b hb s hspells
    have hends : listEnds (inp.token s.position).type = false ∧
        (inp.token s.position).type ≠ .comma := by
      generalize (inp.token s.position).type = type at hstart
      revert type
      decide
    obtain ⟨s', hrun, hpos, hadds⟩ := hone b hb s hspells hnext
    refine ⟨s', hpos, hadds, fun r => ?_⟩
    rw [hsucc, current_bind, hends.1]
    change (skipComma inp >>= _) s = _
    rw [Prog.bind_ok (skipComma_other hends.2), Prog.bind_ok hrun]

end InsertLoop

/-- Where there is no item at the next token, or it is after a comma, a loop of INSERT may as well
skip a comma first. -/
theorem insertNames_enter {names : List Str} {r : ℕ}
    (h : inp.Spells s.position (afterFirst columnToken names))
    (hend : closes (inp.token (s.position + (afterFirst columnToken names).length)).type) :
    insertNames inp (r + 1) s = (do
      skipComma inp
      insertNames inp (r + 1) : Prog Parser Halt Unit) s := by
  cases names with
  | nil =>
    have hclose : (inp.token s.position).type = .rightParen := hend
    rw [Prog.bind_ok (skipComma_other (by simp [hclose]))]
  | cons name names =>
    rw [afterFirst_cons] at h
    obtain ⟨hcomma, -, hname⟩ := spells_spelling h.append.1
    have htype : (inp.token (s.position + 1)).type = .identifier := (spells_spelling hname).1
    have hother : skipComma inp { s with position := s.position + 1 } =
        (.ok (), { s with position := s.position + 1 }) := skipComma_other (by simp [htype])
    rw [Prog.bind_ok (skipComma_comma hcomma), insertNames, current_bind, hcomma]
    change (skipComma inp >>= _) s = _
    rw [Prog.bind_ok (skipComma_comma hcomma), current_bind, htype]
    change _ = (skipComma inp >>= _) _
    rw [Prog.bind_ok hother]

/-- The column names of an INSERT. -/
theorem insertColumns_reads {names : List Str} {xs : List (TokenType × Str)} (hne : names ≠ [])
    (h : inp.Spells s.position
      ((.leftParen, str "(") :: commas columnToken names ++ (.rightParen, str ")") :: xs))
    (hfuel : (commas columnToken names).length + 1 < fuel) :
    Reads Statement.addName (fun _ c b => c = b) names (insertColumns inp fuel) true s
      (s.position + (commas columnToken names).length + 2) := by
  obtain ⟨name, names, rfl⟩ := List.exists_cons_of_ne_nil hne
  obtain ⟨fuel, rfl⟩ : ∃ n, fuel = n + 1 := ⟨fuel - 1, by omega⟩
  have hrounds := (length_le_commas columnToken _).trans_lt hfuel
  obtain ⟨hlist, hclose⟩ := h.append
  obtain ⟨hopen, -, hlist⟩ := spells_spelling hlist
  rw [commas] at hlist hclose ⊢
  obtain ⟨hname, hrest⟩ := hlist.append
  obtain ⟨s₁, hrun₁, hpos₁, hadds₁⟩ :=
    insertName_reads (s := { s with position := s.position + 1 }) hname
  have hlast : s.position + ((.leftParen, str "(") ::
      (columnToken name ++ afterFirst columnToken names)).length =
      s₁.position + (afterFirst columnToken names).length := by
    simp only [hpos₁, columnToken, List.length_cons, List.length_append, List.length_nil]
    omega
  rw [hlast] at hclose
  rw [columnToken, List.length_singleton, ← hpos₁] at hrest
  have hend : closes (inp.token (s₁.position + (afterFirst columnToken names).length)).type :=
    (spells_spelling hclose).1
  obtain ⟨s', hrun', hpos', hall⟩ := insertLoop_reads (insertNames inp) (insertName inp) columnToken
    eq_persists (fun _ => rfl)
    (fun b _ s hb _ => insertName_reads hb)
    (fun b _ s hb => by rw [(spells_spelling hb).1]; decide) [name] rfl
    (hadds₁.of_start rfl : Adds Statement.addName (fun _ c b => c = b) [name] s s₁) hrest hend
    (Nat.lt_of_succ_lt hrounds)
  rw [← hpos'] at hclose
  refine ⟨{ s' with position := s'.position + 1 }, ?_, ?_, hall.congr rfl⟩
  · rw [insertColumns, currentIs_pos hopen, if_pos rfl, advance_bind, Prog.bind_ok hrun₁,
      Prog.bind_ok ((insertNames_enter hrest hend).trans hrun')]
    exact consume_spells hclose
  · simp only [hpos', hpos₁, columnToken, List.length_append, List.length_cons, List.length_nil]
    omega

/-- The values of an INSERT, and the end of the statement. -/
theorem insertRow_reads {values : List Tree} (hne : values ≠ [])
    (hprintable : ∀ t ∈ values, t.Printable)
    (h : inp.Spells s.position ((.leftParen, str "(") :: commas Tree.print values ++
      [(.rightParen, str ")"), (.semicolon, str ";")]))
    (hfuel : (commas Tree.print values).length + 1 < fuel) :
    ∃ s', insertRow inp fuel s = (.ok (), s') ∧
      Adds Statement.addValue ParseResult.Refers values s s' := by
  obtain ⟨t, ts, rfl⟩ := List.exists_cons_of_ne_nil hne
  obtain ⟨n, rfl⟩ : ∃ n, fuel = n + 1 := ⟨fuel - 1, by omega⟩
  have hrounds := (length_le_commas Tree.print _).trans_lt hfuel
  have hlong : ∀ u ∈ t :: ts, u.print.length < n + 1 := fun u hu => by
    have := length_item_le_commas Tree.print hu
    omega
  obtain ⟨hlist, hclose⟩ := h.append
  obtain ⟨hopen, -, hlist⟩ := spells_spelling hlist
  rw [commas] at hlist hclose
  obtain ⟨hfirst, hrest⟩ := hlist.append
  have hclose₁ : inp.Spells (s.position + 1 + t.print.length + (afterFirst Tree.print ts).length)
      [(.rightParen, str ")"), (.semicolon, str ";")] := by
    simpa only [List.length_cons, List.length_append, Nat.add_assoc, Nat.add_comm 1,
      Nat.add_left_comm 1] using hclose
  have hnext : Continues inp closes (s.position + 1 + t.print.length) :=
    continues_of_spells hrest (spells_spelling hclose₁).1
  obtain ⟨s₁, hrun₁, hpos₁, hadds₁⟩ := insertValue_reads
    (s := { s with position := s.position + 1 }) (hprintable t List.mem_cons_self) hfirst hnext
    (hlong t List.mem_cons_self)
  rw [← hpos₁] at hrest hclose₁ hnext
  obtain ⟨s', hrun', hpos', hall⟩ := insertLoop_reads (insertValues inp (n + 1))
    (insertValue inp (n + 1)) Tree.print refers_persists (fun _ => rfl)
    (fun u hu s hspells hcont => insertValue_reads (hprintable u hu) hspells hcont (hlong u hu))
    (fun u hu s hspells => print_first (hprintable u hu) hspells) [t] rfl
    (hadds₁.of_start rfl : Adds Statement.addValue ParseResult.Refers [t] s s₁) hrest
    (spells_spelling hclose₁).1 (Nat.lt_of_succ_lt hrounds)
  rw [← hpos'] at hclose₁
  -- the loop is entered after a comma, and not at all without one
  have henter : (do
      .when (← currentIs inp .comma) do
        advance
        insertValues inp (n + 1) (n + 1) : Prog Parser Halt Unit) s₁ = (.ok (), s') := by
    rw [← hrun']
    rcases hnext with hcomma | hend
    · rw [currentIs_pos hcomma, Prog.when_apply, if_pos rfl,
        Prog.bind_ok (skipComma_comma hcomma)]
      rfl
    · have hother : (inp.token s₁.position).type ≠ .comma := by
        rw [show _ = _ from hend]
        decide
      rw [currentIs_neg hother, Prog.when_apply, if_neg Bool.false_ne_true,
        Prog.bind_ok (skipComma_other hother), insertValues, current_bind, show _ = _ from hend]
      rfl
  refine ⟨{ s' with position := s'.position + 1 + 1 }, ?_, hall.congr rfl⟩
  have hsemicolon : inp.Spells (s'.position + 1) [(.semicolon, str ";")] :=
    (spells_spelling hclose₁).2.2
  have hlast : consume inp .semicolon (str ";") { s' with position := s'.position + 1 } =
      (.ok true, { s' with position := s'.position + 1 + 1 }) := consume_spells hsemicolon
  rw [insertRow, currentIs_pos hopen, if_pos rfl, advance_bind, Prog.bind_ok hrun₁, ← bind_assoc,
    Prog.bind_ok henter, Prog.bind_ok (consume_spells hclose₁), if_pos rfl, Prog.bind_ok hlast]
  rfl

/-! ### UPDATE -/

/-- The assignments end at the condition or with the statement. -/
def endsAssignments (type : TokenType) : Prop := type = .where ∨ type = .semicolon

theorem requireExpression_spells {t : Tree} {context : Str} (ht : t.Printable)
    (h : inp.Spells s.position t.print)
    (hfollow : Follows (inp.token (s.position + t.print.length)).type)
    (hfuel : t.print.length < fuel) :
    Returns (requireExpression inp fuel context) s (s.position + t.print.length) t := by
  obtain ⟨i, s', hrun, hyields⟩ := parseExpression_spells ht h hfollow hfuel
  refine ⟨i, s', ?_, hyields⟩
  rw [requireExpression, Prog.bind_ok hrun, current_bind, Prog.bind_apply, Prog.when_apply,
    if_neg hyields.ne]
  rfl

theorem parseAssignment_reads {a : Str × Tree} (ha : a.2.Printable)
    (h : inp.Spells s.position (assignmentTokens a))
    (hnext : Continues inp endsAssignments (s.position + (assignmentTokens a).length))
    (hfuel : (assignmentTokens a).length < fuel) :
    Reads Statement.addAssignment ParseResult.Assigns [a] (parseAssignment inp fuel) true s
      (s.position + (assignmentTokens a).length) := by
  obtain ⟨name, t⟩ := a
  have hlength : s.position + (assignmentTokens (name, t)).length =
      s.position + 1 + 1 + t.print.length := by
    simp only [assignmentTokens, List.length_cons]
    omega
  rw [hlength] at hnext ⊢
  have hequal : inp.Spells (s.position + 1) ((.equal, str "=") :: t.print) := h.2
  have hfollow : Follows (inp.token (s.position + 1 + 1 + t.print.length)).type := by
    refine hnext.follows fun type htype => ?_
    rcases htype with rfl | rfl
    · exact .inr (.inr (.inr (.inr (.inl rfl))))
    · exact .inl rfl
  have hright : Returns (requireExpression inp fuel (str "expected expression after '='"))
      { s with position := s.position + 1 + 1 } (s.position + 1 + 1 + t.print.length) t :=
    requireExpression_spells (t := t) ha hequal.2 hfollow (by omega)
  obtain ⟨i, s', hrun, hyields⟩ := hright
  have hconsume : consume inp .equal (str "=") { s with position := s.position + 1 } =
      (.ok true, { s with position := s.position + 1 + 1 }) := consume_spells hequal
  have hadds : Adds Statement.addAssignment ParseResult.Assigns [(name, t)]
      { s with position := s.position + 1 + 1 } { s' with result := { s'.result with
        statement := s'.result.statement.addAssignment (name, i) } } := by
    refine hyields.adds rfl ⟨rfl, ParseResult.Refers.mono ?_ hyields.refers⟩
    exact List.prefix_refl s'.result.expressions
  refine ⟨{ s' with result := { s'.result with
    statement := s'.result.statement.addAssignment (name, i) } }, ?_, hyields.position,
    hadds.of_start rfl⟩
  rw [parseAssignment, Prog.bind_ok (consumeIdentifier_spells h)]
  dsimp only
  rw [Prog.bind_ok hconsume, if_pos rfl, Prog.bind_ok hrun, if_neg hyields.ne]
  rfl

theorem assignments_reads {a : Str × Tree} {as : List (Str × Tree)}
    (hprintable : ∀ b ∈ a :: as, b.2.Printable)
    (h : inp.Spells s.position (commas assignmentTokens (a :: as)))
    (hend : endsAssignments
      (inp.token (s.position + (commas assignmentTokens (a :: as)).length)).type)
    (hfuel : (commas assignmentTokens (a :: as)).length + 1 < fuel) :
    ∃ s₁, parseAssignment inp fuel s = (.ok true, s₁) ∧
      ∃ s', assignments inp fuel fuel s₁ = (.ok true, s') ∧
        s'.position = s.position + (commas assignmentTokens (a :: as)).length ∧
        Adds Statement.addAssignment ParseResult.Assigns (a :: as) s s' := by
  have hlong : ∀ b ∈ a :: as, (assignmentTokens b).length < fuel := fun b hb => by
    have := length_item_le_commas assignmentTokens hb
    omega
  have hrounds := (length_le_commas assignmentTokens _).trans_lt hfuel
  rw [commas] at h hend ⊢
  rw [List.length_append, ← Nat.add_assoc] at hend ⊢
  obtain ⟨hfirst, hrest⟩ := h.append
  obtain ⟨s₁, hrun₁, hpos₁, hadds₁⟩ := parseAssignment_reads (hprintable a List.mem_cons_self)
    hfirst (continues_of_spells hrest hend) (hlong a List.mem_cons_self)
  rw [← hpos₁] at hrest hend ⊢
  refine ⟨s₁, hrun₁, loop_reads_rest _ assigns_persists ?_ ?_ as [a] s₁ fuel rfl hadds₁ hrest hend
    (Nat.lt_of_succ_lt hrounds)⟩
  · intro r s hs
    have hother : (inp.token s.position).type ≠ .comma := by
      intro hcomma
      rw [hcomma] at hs
      rcases hs with hs | hs <;> cases hs
    rw [assignments, currentIs_neg hother]
    rfl
  · intro done b rest hall s _ hspells hnext
    have hb : b ∈ a :: as := by simp [hall]
    obtain ⟨hcomma, -, hitem⟩ := spells_spelling hspells
    obtain ⟨s', hrun, hpos, hadds⟩ := parseAssignment_reads
      (s := { s with position := s.position + 1 }) (hprintable b hb) hitem hnext (hlong b hb)
    refine ⟨s', hpos, hadds.of_start rfl, fun r => ?_⟩
    rw [assignments, currentIs_pos hcomma, if_pos rfl, advance_bind, Prog.bind_ok hrun, if_pos rfl]

end Parser

/-! ### CREATE TABLE -/

/-- The type of a column. -/
def ColumnDefinition.typeTokens (c : ColumnDefinition) : List (TokenType × Str) :=
  match c.type with
  | .integer => [(.integer, str "INTEGER")]
  | .float => [(.float, str "FLOAT")]
  | .text => [(.text, str "TEXT"), (.leftParen, str "("),
      (.integerLiteral, str (toString c.textLength)), (.rightParen, str ")")]
  | .boolean => [(.boolean, str "BOOLEAN")]

/-- Two tokens, if the flag is set. -/
def flagTokens (flag : Bool) (x y : TokenType × Str) : List (TokenType × Str) :=
  if flag then [x, y] else []

/-- The constraints of a column. -/
def ColumnDefinition.constraintTokens (c : ColumnDefinition) : List (TokenType × Str) :=
  flagTokens c.primaryKey (.primary, str "PRIMARY") (.key, str "KEY") ++
    flagTokens c.notNull (.not, str "NOT") (.tknull, str "NULL")

/-- A column definition. -/
def ColumnDefinition.print (c : ColumnDefinition) : List (TokenType × Str) :=
  (.identifier, c.name) :: c.typeTokens ++ c.constraintTokens

/-- The column can be the one at that place of a list: the length of a text is no more than a
number of the lexer, and where there is no text the source leaves the length as it finds it. -/
def ColumnDefinition.Printable (textLength : ℕ → Int32) (k : ℕ) (c : ColumnDefinition) : Prop :=
  if c.type = .text then 0 ≤ c.textLength ∧ c.textLength < 2 ^ 31
  else c.textLength = (textLength k).toInt

namespace Parser

theorem columnType_spells {c : ColumnDefinition} {xs : List (TokenType × Str)}
    (hc : c.Printable inp.textLength s.result.statement.columnDefinitions.length)
    (h : inp.Spells s.position (c.typeTokens ++ xs)) :
    columnType inp s = (.ok (some (c.type, c.textLength)),
      { s with position := s.position + c.typeTokens.length }) := by
  rw [columnType, current_bind, Prog.gets_bind_apply]
  unfold ColumnDefinition.Printable at hc
  unfold ColumnDefinition.typeTokens at h ⊢
  cases htype : c.type with
  | text =>
    rw [htype] at h hc
    rw [if_pos rfl] at hc
    obtain ⟨htext, -, h⟩ := spells_spelling h
    obtain ⟨hopen, -, h⟩ := spells_spelling h
    obtain ⟨-, hlength, h⟩ := spells_spelling h
    have hstoi : stoi (inp.token (s.position + 1 + 1)).value = .ok c.textLength := by
      rw [hlength]
      exact stoi_toString (by omega) hc.2
    have hclose : consume inp .rightParen (str ")") { s with position := s.position + 1 + 1 + 1 } =
        (.ok true, { s with position := s.position + 1 + 1 + 1 + 1 }) := consume_spells h
    rw [htext]
    dsimp only
    rw [peekIs_bind, hopen, beq_self_eq_true, if_pos rfl, advance_bind, advance_bind, current_bind,
      hstoi, Prog.lift_ok_bind_apply, advance_bind, Prog.bind_ok hclose, if_pos rfl]
    rfl
  | _ =>
    rw [htype] at h hc
    rw [if_neg (by decide)] at hc
    rw [(spells_spelling h).1, ← hc]
    rfl

/-- Two tokens that are there or not. -/
theorem consumeBoth_spells {b : Bool} {first second : TokenType} {v w : Str}
    {xs : List (TokenType × Str)}
    (h : inp.Spells s.position (flagTokens b (first, v) (second, w) ++ xs))
    (hother : b = false → (inp.token s.position).type ≠ first) :
    consumeBoth inp first second s = (.ok b, { s with
      position := s.position + (flagTokens b (first, v) (second, w)).length }) := by
  cases b with
  | true =>
    obtain ⟨hfirst, -, h⟩ := spells_spelling h
    exact consumeBoth_pos hfirst (spells_spelling h).1
  | false => exact consumeBoth_neg fun hboth => hother rfl hboth.1

theorem columnConstraints_spells {c : ColumnDefinition} {r : ℕ}
    (h : inp.Spells s.position c.constraintTokens)
    (hnext : Continues inp closes (s.position + c.constraintTokens.length)) :
    columnConstraints inp (r + 2) { c with primaryKey := false, notNull := false } s =
      (.ok c, { s with position := s.position + c.constraintTokens.length }) := by
  obtain ⟨name, type, textLength, notNull, primaryKey⟩ := c
  -- neither a comma nor a parenthesis is a constraint
  have hend : ∀ p, Continues inp closes p →
      (inp.token p).type ≠ .primary ∧ (inp.token p).type ≠ .not := by
    rintro p (hp | hp)
    · simp [hp]
    · simp [show _ = _ from hp]
  have hstop : ∀ (r : ℕ) (column : ColumnDefinition) (s : Parser),
      Continues inp closes s.position →
        columnConstraints inp (r + 1) column s = (.ok column, s) := by
    intro r column s hs
    rw [columnConstraints, current_bind, if_neg (not_or.2 (hend _ hs))]
    rfl
  by_cases hnone : primaryKey = false ∧ notNull = false
  · obtain ⟨rfl, rfl⟩ := hnone
    exact hstop (r + 1) _ s hnext
  · unfold ColumnDefinition.constraintTokens at *
    dsimp only at h hnext ⊢
    obtain ⟨-, hnot⟩ := h.append
    rw [List.length_append, ← Nat.add_assoc] at hnext ⊢
    have hfirst : primaryKey = false → (inp.token s.position).type = .not := by
      rintro rfl
      cases notNull with
      | true => exact (spells_spelling h).1
      | false => exact absurd ⟨rfl, rfl⟩ hnone
    have henter : (inp.token s.position).type = .primary ∨ (inp.token s.position).type = .not := by
      cases primaryKey with
      | true => exact .inl (spells_spelling h).1
      | false => exact .inr (hfirst rfl)
    have hprimary := consumeBoth_spells h fun hp => by simp [hfirst hp]
    generalize s.position + (flagTokens primaryKey _ _).length = q at hnot hnext hprimary ⊢
    have hnotNull := consumeBoth_spells (s := { s with position := q })
      (by rwa [List.append_nil] : inp.Spells q (flagTokens notNull _ _ ++ [])) (by
        rintro rfl
        exact (hend _ hnext).2)
    rw [columnConstraints, current_bind, if_pos henter, Prog.bind_ok hprimary,
      Prog.bind_ok hnotNull]
    exact hstop r _ _ hnext

/-- A column definition is read. -/
theorem columnDefinition_reads {c : ColumnDefinition}
    (hc : c.Printable inp.textLength s.result.statement.columnDefinitions.length)
    (h : inp.Spells s.position c.print)
    (hnext : Continues inp closes (s.position + c.print.length)) (hfuel : 2 ≤ fuel) :
    Reads Statement.addDefinition (fun _ c b => c = b) [c] (columnDefinition inp fuel) true s
      (s.position + c.print.length) := by
  obtain ⟨r, rfl⟩ : ∃ r, fuel = r + 2 := ⟨fuel - 2, by omega⟩
  have hlength : s.position + c.print.length =
      s.position + 1 + c.typeTokens.length + c.constraintTokens.length := by
    simp only [ColumnDefinition.print, List.length_append, List.length_cons]
    omega
  rw [hlength] at hnext ⊢
  rw [ColumnDefinition.print, List.cons_append] at h
  obtain ⟨-, -, hrest⟩ := spells_spelling h
  obtain ⟨-, hconstraints⟩ := hrest.append
  have hname : consumeIdentifier inp (str "column name") s =
      (.ok (some c.name), { s with position := s.position + 1 }) := consumeIdentifier_spells h
  have htype : columnType inp { s with position := s.position + 1 } =
      (.ok (some (c.type, c.textLength)),
        { s with position := s.position + 1 + c.typeTokens.length }) := columnType_spells hc hrest
  have hrun : columnConstraints inp (r + 2)
      { name := c.name, type := c.type, textLength := c.textLength }
      { s with position := s.position + 1 + c.typeTokens.length } = (.ok c, _) :=
    columnConstraints_spells hconstraints hnext
  refine ⟨{ position := s.position + 1 + c.typeTokens.length + c.constraintTokens.length,
            result := { s.result with statement := s.result.statement.addDefinition c } },
    ?_, rfl, rfl, List.prefix_refl _, [c], rfl, .cons rfl .nil⟩
  rw [columnDefinition, Prog.bind_ok hname]
  dsimp only
  rw [Prog.bind_ok htype]
  dsimp only
  rw [Prog.bind_ok hrun]
  rfl

/-- The columns of a table. -/
theorem columnDefinitions_reads {columns : Schema}
    (hstart : s.result.statement.columnDefinitions = [])
    (hprintable : ∀ (k : ℕ) c, columns[k]? = some c → c.Printable inp.textLength k)
    (h : inp.Spells s.position (commas ColumnDefinition.print columns))
    (hend : closes
      (inp.token (s.position + (commas ColumnDefinition.print columns).length)).type)
    (hfuel : (commas ColumnDefinition.print columns).length + 1 < fuel) :
    Reads Statement.addDefinition (fun _ c b => c = b) columns
      (columnDefinitions inp fuel fuel) true s
      (s.position + (commas ColumnDefinition.print columns).length) := by
  have hstop : ∀ (r : ℕ) (s : Parser), closes (inp.token s.position).type →
      columnDefinitions inp fuel (r + 1) s = (.ok true, s) := by
    intro r s hs
    rw [columnDefinitions, current_bind, hs]
    rfl
  cases columns with
  | nil =>
    obtain ⟨r, rfl⟩ : ∃ r, fuel = r + 1 := ⟨fuel - 1, by omega⟩
    exact ⟨s, hstop r s hend, rfl, .nil rfl⟩
  | cons c columns =>
    refine skips_all closes eq_persists (by simp [closes]) hstop ?_ h hend
      ((length_le_commas ColumnDefinition.print _).trans_lt hfuel)
    intro done b rest hall s' hdone hspells hnext
    -- the place of the column is the number of those before it
    have hplace : s'.result.statement.columnDefinitions.length = done.length := by
      obtain ⟨cs, hcs, heq⟩ := hdone.added
      rw [hcs, Statement.foldl_addDefinition, hstart, List.nil_append]
      exact heq.length_eq
    have hb : b.Printable inp.textLength s'.result.statement.columnDefinitions.length := by
      rw [hplace]
      exact hprintable _ b (by simp [hall])
    obtain ⟨s₂, hrun, hpos, hadds⟩ := columnDefinition_reads hb hspells hnext
      (by omega : 2 ≤ fuel)
    have htype : listEnds (inp.token s'.position).type = false := by
      rw [ColumnDefinition.print, List.cons_append] at hspells
      rw [(spells_spelling hspells).1]
      rfl
    refine ⟨s₂, hpos, hadds, fun r => ?_⟩
    rw [columnDefinitions, current_bind, htype]
    change (columnDefinition inp fuel >>= _) s' = _
    rw [Prog.bind_ok hrun, if_pos rfl]

end Parser

end MicroSql
