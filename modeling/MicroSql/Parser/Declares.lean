import MicroSql.Catalog.Text
import MicroSql.Lexer.Ends
import MicroSql.Parser.Accepts
import MicroSql.Parser.Walk
import MicroSql.Engine.Step

/-!
# What CREATE TABLE declares

The names of a table that the parser accepts are identifiers, which the lexer takes from
letters, digits and underscores, and the text lengths are values of an `int`.  Such a table
can be read back from the catalog.
-/

namespace MicroSql

open Lib Prog

/-! ### Identifiers -/

namespace Lexer

/-- The characters that a loop has passed make up a word. -/
theorem isWord_of_passes {l m : Lexer} (h : Passes isWordChar l m) (hlt : l.position < m.position)
    (hlength : l.position < l.query.length) :
    Catalog.IsWord ((l.query.drop l.position).take (m.position - l.position)) where
  ne_nil := by
    rw [ne_eq, ← List.length_eq_zero_iff, List.length_take, List.length_drop]
    omega
  noSpace := by
    intro b hb
    obtain ⟨k, hk, rfl⟩ := List.mem_iff_getElem.1 hb
    rw [List.length_take, List.length_drop] at hk
    have hpass := h.pass (l.position + k) (by omega) (by omega)
    rw [List.getElem_take, List.getElem_drop]
    rw [List.getD_eq_getElem _ _ (by omega)] at hpass
    exact isSpace_of_isWordChar hpass

/-- The value of an identifier is a word. -/
def NamesWords (tokens : List Token) : Prop :=
  ∀ t ∈ tokens, t.type = .identifier → Catalog.IsWord t.value

theorem NamesWords.nil : NamesWords [] := fun _ ht => by cases ht

theorem NamesWords.single {t : Token} (h : t.type = .identifier → Catalog.IsWord t.value) :
    NamesWords [t] := by
  intro t' ht'
  rw [List.mem_singleton.1 ht']
  exact h

theorem NamesWords.append {ts us : List Token} (ht : NamesWords ts) (hu : NamesWords us) :
    NamesWords (ts ++ us) := fun t h => (List.mem_append.1 h).elim (ht t) (hu t)

theorem literal_namesWords {fuel : ℕ} {l l' : Lexer} {line : ℤ} {tokens : List Token}
    (h : literal fuel l line = .ok (l', tokens)) : NamesWords tokens := by
  obtain ⟨m, -, h⟩ := bind_eq_ok.1 h
  split at h
  · cases h
    exact .single nofun
  · obtain ⟨value, -, h⟩ := bind_eq_ok.1 h
    cases h
    exact .single nofun

theorem scan_namesWords {fuel : ℕ} {l l' : Lexer} {line line' : ℤ} {tokens : List Token}
    (hcur : l.current ≠ 0) (h : scan fuel l line = .ok (l', line', tokens)) :
    NamesWords tokens := by
  cases scan_cases h with
  | skip => exact .nil
  | single type hmem =>
    have hsymbols : ∀ e ∈ singles, e.2 ≠ .identifier := by decide
    exact .single fun htype => absurd htype (hsymbols _ hmem)
  | double type hmem =>
    have hsymbols : ∀ e ∈ doubles, e.2.2 ≠ .identifier := by decide
    exact .single fun htype => absurd htype (hsymbols _ hmem)
  | minus => exact .single nofun
  | comment => exact .nil
  | literal m _ _ hm => exact literal_namesWords hm
  | word m _ hword hm hvalue =>
    -- the only branch that returns identifiers
    subst hvalue
    exact .single fun _ => isWord_of_passes (advanceWhile_eq_ok hm).1
      (advanceWhile_lt (isWordChar_of_isWordStart hword) hm) (lt_of_current hcur)
  | number m num =>
    refine .single fun htype => ?_
    have hmem := getTokenTypeDigit_mem num
    have htype : getTokenTypeDigit num = .identifier := htype
    rw [htype] at hmem
    exact absurd hmem (by decide)

theorem tokenize_namesWords {fuel : ℕ} {l : Lexer} {tokens : List Token}
    (h : tokenize fuel l = .ok tokens) : NamesWords tokens := by
  obtain ⟨ts, line, rfl, hall⟩ := tokenize_rounds scan_namesWords h
  exact NamesWords.append hall (.single nofun)

end Lexer

/-! ### Statements -/

namespace Parser

/-- The function keeps `I` true of the statement. -/
def Maintains {α : Type} (I : Statement → Prop) (c : Prog Parser Halt α) : Prop :=
  Spec (fun s => I s.result.statement) c (fun _ s => I s.result.statement) fun _ _ => True

variable {inp : Input} {I : Statement → Prop}

namespace Maintains

variable {α β : Type} {c d : Prog Parser Halt α}

theorem pure (a : α) : Maintains I (pure a) := Preserves.pure a

theorem fail (e : Halt) : Maintains I (.fail e : Prog Parser Halt α) := Preserves.fail e

theorem bind {k : α → Prog Parser Halt β} (hc : Maintains I c) (hk : ∀ a, Maintains I (k a)) :
    Maintains I (c >>= k) := Preserves.bind hc hk

theorem ite {p : Prop} [Decidable p] (hc : Maintains I c) (hd : Maintains I d) :
    Maintains I (if p then c else d) := Preserves.ite hc hd

theorem setStatement {f : Statement → Statement} (h : ∀ st, I st → I (f st)) :
    Maintains I (setStatement f) := fun _ hs => h _ hs

/-- An early return. -/
theorem guard {c : Prog Parser Halt Bool} {d : Prog Parser Halt Unit} (hc : Maintains I c)
    (hd : Maintains I d) : Maintains I (do if ← c then d) := Preserves.guard hc hd

end Maintains

theorem maintains_stable (I : Statement → Prop) :
    Stable fun s => I s.result.statement := ⟨fun _ _ h => h, fun _ _ h => h⟩

theorem current_maintains : Maintains I (current inp) := current_preserves

theorem advance_maintains : Maintains I advance := (maintains_stable I).advance

theorem setError_maintains (text : Str) : Maintains I (setError text) :=
  (maintains_stable I).setError text

theorem consume_maintains (type : TokenType) (name : Str) : Maintains I (consume inp type name) :=
  (maintains_stable I).consume type name

theorem consumeIdentifier_maintains (context : Str) :
    Maintains I (consumeIdentifier inp context) := (maintains_stable I).consumeIdentifier context

theorem skipComma_maintains : Maintains I (skipComma inp) := (maintains_stable I).skipComma

theorem parseExpression_maintains (fuel : ℕ) : Maintains I (parseExpression inp fuel) := by
  refine Spec.intro (fun s i s' hs h => ?_) fun _ _ _ _ _ => trivial
  rcases parseExpression_sound fuel _ _ _ h with ⟨-, hmissing⟩ | hfound
  · rw [hmissing.toExtends.statement]
    exact hs
  · rw [hfound.toExtends.statement]
    exact hs

/-! ### The kind of a statement -/

section Kind

variable {kind : StatementKind}

/-- The function keeps the kind of the statement. -/
abbrev KeepsKind {α : Type} (kind : StatementKind) (c : Prog Parser Halt α) : Prop :=
  Maintains (fun st => st.kind = kind) c

theorem kind_stable : StableFields fun s => s.result.statement.kind = kind where
  position := fun _ _ h => h
  error := fun _ _ h => h
  statement := fun s _ hf h => (hf s.result.statement).trans h

theorem parseExpression_keepsKind (fuel : ℕ) : KeepsKind kind (parseExpression inp fuel) :=
  parseExpression_maintains fuel

/-- The function gives the statement its kind. -/
def Sets (kind : StatementKind) (c : Prog Parser Halt Unit) : Prop :=
  Spec (fun _ => True) c (fun _ s => s.result.statement.kind = kind) fun _ _ => True

theorem Begins.sets {c : Prog Parser Halt Unit}
    (h : Begins (fun s => s.result.statement.kind = kind) kind c) : Sets kind c :=
  h.spec fun _ _ => rfl

theorem parseSelect_sets (fuel : ℕ) : Sets .select (parseSelect inp fuel) :=
  (kind_stable.parseSelect (parseExpression_keepsKind fuel)).sets

theorem parseInsert_sets (fuel : ℕ) : Sets .insert (parseInsert inp fuel) :=
  (kind_stable.parseInsert (parseExpression_keepsKind fuel)).sets

theorem parseDelete_sets (fuel : ℕ) : Sets .delete (parseDelete inp fuel) :=
  (kind_stable.parseDelete (parseExpression_keepsKind fuel)).sets

theorem parseUpdate_sets (fuel : ℕ) : Sets .update (parseUpdate inp fuel) :=
  (kind_stable.parseUpdate (parseExpression_keepsKind fuel)).sets

theorem parseDrop_sets : Sets .dropTable (parseDrop inp) := kind_stable.parseDrop.sets

theorem parseCreateIndex_sets : Sets .createIndex (parseCreateIndex inp) :=
  kind_stable.parseCreateIndex.sets

end Kind

/-! ### The names and text lengths of CREATE TABLE -/

/-- The number is a value of an `int`. -/
def IsInt (n : ℤ) : Prop := -2 ^ 31 ≤ n ∧ n < 2 ^ 31

/-- The columns of the statement can be read back from the catalog. -/
structure DeclaresColumns (st : Statement) : Prop where
  name : ∀ c ∈ st.columnDefinitions, Catalog.IsWord c.name
  textLength : ∀ c ∈ st.columnDefinitions, IsInt c.textLength

/-- The statement declares a table that can be read back from the catalog. -/
structure Declares (st : Statement) : Prop extends DeclaresColumns st where
  tableName : Catalog.IsWord st.tableName

theorem Declares.loadable {pr : ParseResult} (h : Declares pr.statement) :
    Catalog.Loadable (Engine.newTable pr) where
  tableName := h.tableName
  filePath := h.tableName.append (by decide)
  name := h.name
  textLength := h.textLength

theorem isInt_stoi {s : Str} {n : ℤ} (h : stoi s = .ok n) : IsInt n := by
  have hchecked : ∀ {m k : ℤ} {ds : Str},
      (if ds = [] ∨ m < -2 ^ 31 ∨ 2 ^ 31 ≤ m then .error (.fault .uncaughtException)
        else .ok m : Expected CatalogError ℤ) = .ok k → IsInt k := by
    intro m k ds hk
    split at hk
    · cases hk
    · next hbounds =>
      cases hk
      rw [not_or, not_or] at hbounds
      exact ⟨not_lt.1 hbounds.2.1, not_le.1 hbounds.2.2⟩
  unfold stoi at h
  split at h
  · next m hm =>
    cases h
    unfold Catalog.stoi at hm
    split at hm
    all_goals exact hchecked hm
  · cases h

theorem isInt_toInt (n : Int32) : IsInt n.toInt := ⟨n.le_toInt, n.toInt_lt⟩

variable (hwords : Lexer.NamesWords inp.tokens)

include hwords in
theorem consumeIdentifier_isWord (context : Str) :
    Spec (fun s => I s.result.statement) (consumeIdentifier inp context)
      (fun name s => I s.result.statement ∧ (∀ v, name = some v → Catalog.IsWord v) ∧
        (name = none → s.result.error ≠ [])) fun _ _ => True := by
  refine Spec.intro (fun s name s' hs h => ?_) fun _ _ _ _ _ => trivial
  have hmaintains := (@consumeIdentifier_maintains inp I context).ok hs h
  refine ⟨hmaintains, ?_, ?_⟩
  · rintro v rfl
    rcases consumeIdentifier_eq h with ⟨hnone, -⟩ | ⟨htype, hv, -⟩
    · cases hnone
    · cases hv
      exact hwords _ (List.get_mem _ _) htype
  · rintro rfl
    rcases consumeIdentifier_eq h with ⟨-, herror⟩ | ⟨-, hv, -⟩
    · exact herror
    · cases hv

/-- The type of a column comes with a text length that an `int` has. -/
def Measures (I : Statement → Prop) (c : Prog Parser Halt (Option (DataType × ℤ))) : Prop :=
  Spec (fun s => I s.result.statement) c
    (fun type s => I s.result.statement ∧ ∀ t n, type = some (t, n) → IsInt n) fun _ _ => True

theorem measures_none : Measures I (pure none) := Spec.pure fun _ hs => ⟨hs, nofun⟩

theorem measures_some (t : DataType) {n : ℤ} (hn : IsInt n) : Measures I (pure (some (t, n))) := by
  refine Spec.pure fun s hs => ⟨hs, ?_⟩
  rintro t' n' ⟨⟩
  exact hn

theorem columnType_measures : Measures I (columnType inp) := by
  have hgets : Spec (fun s : Parser => I s.result.statement) (gets fun p : Parser =>
      (inp.textLength p.result.statement.columnDefinitions.length).toInt)
      (fun n s => I s.result.statement ∧ IsInt n) fun (_ : Halt) _ => True :=
    fun s hs => ⟨hs, isInt_toInt _⟩
  refine Spec.bind current_maintains fun token => Spec.bind hgets fun undefined => ?_
  rintro s ⟨hs, hundefined⟩
  cases token.type
  case integer =>
    exact Spec.bind advance_maintains (fun _ => measures_some _ hundefined) s hs
  case float =>
    exact Spec.bind advance_maintains (fun _ => measures_some _ hundefined) s hs
  case boolean =>
    exact Spec.bind advance_maintains (fun _ => measures_some _ hundefined) s hs
  case text =>
    have hpeek : Maintains I (peekIs inp .leftParen) := peekIs_preserves _
    refine Spec.bind hpeek (fun _ => Spec.ite (fun _ => ?_) fun _ => ?_) s hs
    · refine Spec.bind advance_maintains fun _ => Spec.bind advance_maintains fun _ =>
        Spec.bind current_maintains fun length => ?_
      have hstoi : Spec (fun s : Parser => I s.result.statement) (lift (stoi length.value))
          (fun n s => I s.result.statement ∧ IsInt n) fun _ _ => True :=
        Spec.lift (fun n s hn hs => ⟨hs, isInt_stoi hn⟩) fun _ _ _ _ => trivial
      refine Spec.bind hstoi fun n => ?_
      rintro s ⟨hs, hn⟩
      refine Spec.bind advance_maintains (fun _ => Spec.bind (consume_maintains _ _) fun _ =>
        Spec.ite (fun _ => ?_) fun _ => ?_) s hs
      · exact measures_some _ hn
      · exact measures_none
    · exact Spec.bind advance_maintains fun _ => measures_some _ ⟨by decide, by decide⟩
  all_goals exact Spec.bind (setError_maintains _) (fun _ => measures_none) s hs

theorem columnConstraints_keeps_name : ∀ (rounds : ℕ) (column : ColumnDefinition),
    Spec (fun s => I s.result.statement) (columnConstraints inp rounds column)
      (fun c s => I s.result.statement ∧ c.name = column.name ∧ c.textLength = column.textLength)
      fun _ _ => True
  | 0, _ => Spec.fail fun _ _ => trivial
  | rounds + 1, column => by
    have hboth : ∀ first second, Maintains I (consumeBoth inp first second) :=
      (maintains_stable I).consumeBoth
    refine Spec.bind current_maintains fun _ => Spec.ite (fun _ => ?_) fun _ => ?_
    · exact Spec.bind (hboth _ _) fun _ => Spec.bind (hboth _ _) fun _ =>
        columnConstraints_keeps_name rounds _
    · exact Spec.pure fun _ hs => ⟨hs, rfl, rfl⟩

/-- A column that is added can be read back too. -/
theorem Declares.add {st : Statement} (h : Declares st) {c : ColumnDefinition}
    (hname : Catalog.IsWord c.name) (hlength : IsInt c.textLength) :
    Declares { st with columnDefinitions := st.columnDefinitions ++ [c] } where
  tableName := h.tableName
  name := by
    intro d hd
    rcases List.mem_append.1 hd with hd | hd
    · exact h.name d hd
    · rw [List.mem_singleton.1 hd]
      exact hname
  textLength := by
    intro d hd
    rcases List.mem_append.1 hd with hd | hd
    · exact h.textLength d hd
    · rw [List.mem_singleton.1 hd]
      exact hlength

include hwords in
theorem columnDefinition_declares (fuel : ℕ) :
    Maintains Declares (columnDefinition inp fuel) := by
  refine Spec.bind (consumeIdentifier_isWord hwords _) fun name => ?_
  rintro s ⟨hs, hname, -⟩
  cases name with
  | none => exact hs
  | some name =>
    refine Spec.bind columnType_measures (fun type => ?_) s hs
    rintro s ⟨hs, hlength⟩
    cases type with
    | none => exact hs
    | some type =>
      refine Spec.bind (columnConstraints_keeps_name fuel _) (fun column => ?_) s hs
      rintro s ⟨hs, hn, hl⟩
      exact hs.add (hn ▸ hname _ rfl) (hl ▸ hlength _ _ rfl)

include hwords in
theorem columnDefinitions_declares (fuel : ℕ) :
    ∀ rounds, Maintains Declares (columnDefinitions inp fuel rounds)
  | 0 => .fail _
  | rounds + 1 =>
    .bind current_maintains fun _ => .ite (.pure _) <|
      .bind (columnDefinition_declares hwords fuel) fun _ =>
        .ite (.bind skipComma_maintains fun _ => columnDefinitions_declares fuel rounds) (.pure _)

include hwords in
/-- The table that an accepted CREATE TABLE declares can be read back. -/
theorem parseCreateTable_declares (fuel : ℕ) :
    Spec (fun s => s.result.statement.columnDefinitions = []) (parseCreateTable inp fuel)
      (fun _ s => s.result.error = [] → Declares s.result.statement) fun _ _ => True := by
  have hname : Spec (fun s => s.result.statement.columnDefinitions = [])
      (parseTableName inp (str "table name"))
      (fun b s => (b = true → Declares s.result.statement) ∧ (b = false → s.result.error ≠ []))
      fun _ _ => True := by
    refine Spec.bind (consumeIdentifier_isWord (I := fun st => st.columnDefinitions = []) hwords _)
      fun name => ?_
    rintro s ⟨hs, hword, herror⟩
    cases name with
    | none => exact ⟨nofun, fun _ => herror rfl⟩
    | some name =>
      refine ⟨fun _ => ⟨⟨?_, ?_⟩, hword _ rfl⟩, nofun⟩
      · intro c hc
        exact absurd (hs ▸ hc) List.not_mem_nil
      · intro c hc
        exact absurd (hs ▸ hc) List.not_mem_nil
  have hrest : Maintains Declares (do
      if ← consume inp .leftParen (str "(") then
        if ← columnDefinitions inp fuel fuel then do
          advance
          let _ ← consume inp .semicolon (str ";")) :=
    .guard (consume_maintains _ _) <| .guard (columnDefinitions_declares hwords fuel fuel) <|
      .bind advance_maintains fun _ => .bind (consume_maintains _ _) fun _ => .pure _
  refine Spec.bind (advance_maintains (I := fun st => st.columnDefinitions = [])) fun _ => ?_
  refine Spec.bind (Maintains.setStatement (I := fun st => st.columnDefinitions = [])
    fun _ hst => hst) fun _ => Spec.bind hname fun b => ?_
  rintro s ⟨hdeclares, herror⟩
  cases b with
  | false => exact fun hnone => absurd hnone (herror rfl)
  | true =>
    have hpost : Spec _ _ (fun _ (s : Parser) => s.result.error = [] →
        Declares s.result.statement) _ :=
      hrest.conseq (fun _ h => h) (fun _ _ h _ => h) fun _ _ h => h
    exact hpost s (hdeclares rfl)

include hwords in
theorem parseStatement_declares (fuel : ℕ) :
    Spec (fun s => s.result.statement.columnDefinitions = []) (parseStatement inp fuel)
      (fun _ s => s.result.error = [] → s.result.statement.kind = .createTable →
        Declares s.result.statement) fun _ _ => True := by
  have hother : ∀ {kind : StatementKind} {c : Prog Parser Halt Unit}, Sets kind c →
      kind ≠ .createTable → Spec (fun s => s.result.statement.columnDefinitions = []) c
        (fun _ s => s.result.error = [] → s.result.statement.kind = .createTable →
          Declares s.result.statement) fun _ _ => True := fun hc hne =>
    hc.conseq (fun _ _ => trivial)
      (fun _ _ hkind _ hcreate => absurd (hkind.symm.trans hcreate) hne)
      fun _ _ h => h
  have hsetError : ∀ {text : Str}, text ≠ [] →
      Spec (fun s => s.result.statement.columnDefinitions = []) (setError text)
        (fun _ s => s.result.error = [] → s.result.statement.kind = .createTable →
          Declares s.result.statement) fun _ _ => True :=
    fun hne _ _ herror => absurd herror hne
  have hcurrent : Maintains (fun st => st.columnDefinitions = []) (current inp) := current_maintains
  refine Spec.bind hcurrent fun token => ?_
  cases token.type
  case select => exact hother (parseSelect_sets fuel) (by decide)
  case insert => exact hother (parseInsert_sets fuel) (by decide)
  case update => exact hother (parseUpdate_sets fuel) (by decide)
  case delete => exact hother (parseDelete_sets fuel) (by decide)
  case drop => exact hother parseDrop_sets (by decide)
  case create =>
    refine Spec.bind (advance_maintains (I := fun st => st.columnDefinitions = [])) fun _ =>
      Spec.bind hcurrent fun token => Spec.ite (fun _ => ?_) fun _ => Spec.ite (fun _ => ?_)
        fun _ => ?_
    · exact (parseCreateTable_declares hwords fuel).conseq (fun _ h => h)
        (fun _ _ h herror _ => h herror) fun _ _ h => h
    · exact hother parseCreateIndex_sets (by decide)
    · exact hsetError (by simp)
  all_goals exact hsetError (by simp)

end Parser

/-- A statement that the parser returns without an error, for some text. -/
def Parsed (pr : ParseResult) : Prop :=
  ∃ (query : Str) (n fuel : ℕ) (inp : Input), Lexer.tokenize n { query := query } = .ok inp.tokens ∧
    parse fuel inp = .ok pr ∧ pr.error = []

/-- **The tables of accepted statements can be read back.** -/
theorem Parsed.loadable {pr : ParseResult} (h : Parsed pr)
    (hkind : pr.statement.kind = .createTable) : Catalog.Loadable (Engine.newTable pr) := by
  obtain ⟨query, n, fuel, inp, htokens, hparse, herror⟩ := h
  have hspec := Parser.parseStatement_declares (Lexer.tokenize_namesWords htokens) fuel {} rfl
  unfold parse at hparse
  rcases hrun : Parser.parseStatement inp fuel {} with ⟨e | u, s⟩
  · rw [hrun] at hparse
    cases hparse
  · rw [hrun] at hparse hspec
    cases hparse
    exact (hspec herror hkind).loadable

end MicroSql
