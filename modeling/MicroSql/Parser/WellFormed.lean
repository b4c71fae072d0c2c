import MicroSql.Parser.InsertValues

/-!
# Well-formed statements

The grammar of the statements, between positions of the input like that of the expressions: lists
are not empty and have single commas between their items, names are identifiers, the length of
a `TEXT` is an integer literal, and a statement goes up to a semicolon or the end of the tokens.
-/

namespace MicroSql

open Lib

namespace Input

variable (inp : Input)

/-- An expression stands between the two positions. -/
def Expr (p q : ℕ) : Prop := ∃ t, inp.Derives .or p q t

/-- One or more items, with single commas between them. -/
inductive Listed (Item : ℕ → ℕ → Prop) : ℕ → ℕ → Prop
  | last {p q : ℕ} (item : Item p q) : Listed Item p q
  | cons {p q r : ℕ} (item : Item p q) (hcomma : (inp.token q).type = .comma)
      (rest : Listed Item (q + 1) r) : Listed Item p r

/-- The tokens that a statement ends at. -/
def isEnd (type : TokenType) : Bool := type == .semicolon || type == .endOfFile

/-- A `WHERE` with its condition, or nothing. -/
def Where (p q : ℕ) : Prop := q = p ∨ (inp.token p).type = .where ∧ inp.Expr (p + 1) q

/-- A name. -/
def Name (p q : ℕ) : Prop := (inp.token p).type = .identifier ∧ q = p + 1

/-- A column name, `=` and an expression. -/
def Assignment (p q : ℕ) : Prop :=
  (inp.token p).type = .identifier ∧ (inp.token (p + 1)).type = .equal ∧ inp.Expr (p + 2) q

/-- The type of a column; `length` says which tokens may be the length of a `TEXT`. -/
def Typed (length : TokenType → Prop) (p q : ℕ) : Prop :=
  ((inp.token p).type ∈ [TokenType.integer, .float, .boolean] ∧ q = p + 1) ∨
    ((inp.token p).type = .text ∧ (inp.token (p + 1)).type ≠ .leftParen ∧ q = p + 1) ∨
    ((inp.token p).type = .text ∧ (inp.token (p + 1)).type = .leftParen ∧
      length (inp.token (p + 2)).type ∧ (inp.token (p + 3)).type = .rightParen ∧ q = p + 4)

/-- Constraints of a column, in any order. -/
inductive Constraints : ℕ → ℕ → Prop
  | nil {p : ℕ} (hprimary : (inp.token p).type ≠ .primary) (hnot : (inp.token p).type ≠ .not) :
      Constraints p p
  | primaryKey {p q : ℕ} (hprimary : (inp.token p).type = .primary)
      (hkey : (inp.token (p + 1)).type = .key) (rest : Constraints (p + 2) q) : Constraints p q
  | notNull {p q : ℕ} (hnot : (inp.token p).type = .not)
      (hnull : (inp.token (p + 1)).type = .tknull) (rest : Constraints (p + 2) q) :
      Constraints p q

/-- A column definition: a name, a type and constraints. -/
def Column (length : TokenType → Prop) (p q : ℕ) : Prop :=
  (inp.token p).type = .identifier ∧ ∃ e, inp.Typed length (p + 1) e ∧ inp.Constraints e q

/-! ### The statements -/

/-- The columns of a `SELECT`. -/
def SelectColumns (e : ℕ) : Prop :=
  ((inp.token 1).type = .star ∧ e = 2) ∨
    ((inp.token 1).type ≠ .star ∧ inp.Listed inp.Expr 1 e)

/-- A SELECT, with or without a table. -/
def Select (q : ℕ) : Prop :=
  ∃ e, inp.SelectColumns e ∧ (q = e ∨ (inp.token e).type = .from ∧
    (inp.token (e + 1)).type = .identifier ∧ inp.Where (e + 2) q)

/-- An INSERT, with or without a list of columns. -/
def Insert (q : ℕ) : Prop :=
  (inp.token 1).type = .into ∧ (inp.token 2).type = .identifier ∧ ∃ v c,
    ((inp.token 3).type = .values ∧ v = 4 ∨ (inp.token 3).type = .leftParen ∧ ∃ k,
      inp.Listed inp.Name 4 k ∧ (inp.token k).type = .rightParen ∧
      (inp.token (k + 1)).type = .values ∧ v = k + 2) ∧
    (inp.token v).type = .leftParen ∧ inp.Listed inp.Expr (v + 1) c ∧
    (inp.token c).type = .rightParen ∧ q = c + 1

/-- An UPDATE. -/
def Update (q : ℕ) : Prop :=
  (inp.token 1).type = .identifier ∧ (inp.token 2).type = .set ∧
    ∃ e, inp.Listed inp.Assignment 3 e ∧ inp.Where e q

/-- A DELETE. -/
def Delete (q : ℕ) : Prop :=
  (inp.token 1).type = .from ∧ (inp.token 2).type = .identifier ∧ inp.Where 3 q

/-- A CREATE TABLE. -/
def CreateTable (q : ℕ) : Prop :=
  (inp.token 1).type = .table ∧ (inp.token 2).type = .identifier ∧
    (inp.token 3).type = .leftParen ∧ ∃ e, inp.Listed (inp.Column (· = .integerLiteral)) 4 e ∧
    (inp.token e).type = .rightParen ∧ q = e + 1

/-- A CREATE INDEX. -/
def CreateIndex (q : ℕ) : Prop :=
  (inp.token 1).type = .index ∧ (inp.token 2).type = .on ∧ (inp.token 3).type = .identifier ∧
    (inp.token 4).type = .leftParen ∧ (inp.token 5).type = .identifier ∧
    (inp.token 6).type = .rightParen ∧ q = 7

/-- A DROP TABLE. -/
def Drop (q : ℕ) : Prop :=
  (inp.token 1).type = .table ∧ (inp.token 2).type = .identifier ∧ q = 3

/-- The tokens before position `q` are a statement. -/
def StatementTo (q : ℕ) : Prop :=
  match (inp.token 0).type with
  | .select => inp.Select q
  | .insert => inp.Insert q
  | .update => inp.Update q
  | .delete => inp.Delete q
  | .create => inp.CreateTable q ∨ inp.CreateIndex q
  | .drop => inp.Drop q
  | _ => False

/-- The tokens are a statement, up to a semicolon or the end. -/
def WellFormed : Prop := ∃ q, inp.StatementTo q ∧ isEnd (inp.token q).type = true

/-! ### Lists as the parser reads them -/

/-- Items with a comma after each of them or not, up to a token where the list ends.  The list
has the positions where each item begins and where it ends. -/
inductive Reads (ends : TokenType → Bool) (Item : ℕ → ℕ → Prop) : ℕ → ℕ → List (ℕ × ℕ) → Prop
  | nil {p : ℕ} (hends : ends (inp.token p).type = true) : Reads ends Item p p []
  | cons {p q r : ℕ} {items : List (ℕ × ℕ)} (hgoes : ends (inp.token p).type = false)
      (item : Item p q) (rest : Reads ends Item (inp.skipComma q) r items) :
      Reads ends Item p r ((p, q) :: items)

/-- There is an item, and a comma after each but the last, which the list ends with. -/
def Separated (r : ℕ) : List (ℕ × ℕ) → Prop
  | [] => False
  | [item] => item.2 = r
  | item :: items => (inp.token item.2).type = .comma ∧ Separated r items

variable {inp} {ends : TokenType → Bool} {Item Item' : ℕ → ℕ → Prop} {p q r : ℕ}

theorem skipComma_of_comma (h : (inp.token p).type = .comma) : inp.skipComma p = p + 1 := if_pos h

theorem skipComma_of_ne (h : (inp.token p).type ≠ .comma) : inp.skipComma p = p := if_neg h

/-- There is one reading, if the items have one. -/
theorem Reads.unique {items : List (ℕ × ℕ)} (h : inp.Reads ends Item p r items) {r' : ℕ}
    {items' : List (ℕ × ℕ)} (h' : inp.Reads ends Item p r' items')
    (hitem : ∀ p q q', Item p q → Item p q' → q = q') : r = r' ∧ items = items' := by
  induction h generalizing r' items' with
  | nil hends =>
    cases h' with
    | nil => exact ⟨rfl, rfl⟩
    | cons hgoes => exact absurd hends (by simp [hgoes])
  | cons hgoes item _ ih =>
    cases h' with
    | nil hends => exact absurd hends (by simp [hgoes])
    | cons _ item' rest =>
      obtain rfl := hitem _ _ _ item item'
      obtain ⟨rfl, rfl⟩ := ih rest
      exact ⟨rfl, rfl⟩

theorem Reads.ends_at {items : List (ℕ × ℕ)} (h : inp.Reads ends Item p r items) :
    ends (inp.token r).type = true := by
  induction h with
  | nil hends => exact hends
  | cons _ _ _ ih => exact ih

/-- A reading with its commas where they belong. -/
theorem Reads.listed {items : List (ℕ × ℕ)} (h : inp.Reads ends Item p r items)
    (hseparated : inp.Separated r items)
    (hitem : ∀ i ∈ items, Item i.1 i.2 → Item' i.1 i.2) : inp.Listed Item' p r := by
  induction h with
  | nil => exact hseparated.elim
  | @cons p q r items _ item rest ih =>
    have hfirst := hitem _ List.mem_cons_self item
    have hrest := fun i hi => hitem i (List.mem_cons_of_mem _ hi)
    cases items with
    | nil =>
      have hr : q = r := hseparated
      subst hr
      exact .last hfirst
    | cons i items =>
      obtain ⟨hcomma, hseparated⟩ := hseparated
      have hnext := ih hseparated hrest
      rw [skipComma_of_comma hcomma] at hnext
      exact .cons hfirst hcomma hnext

/-- The reading of a list. -/
theorem Listed.reads (h : inp.Listed Item' p r) (hends : ends (inp.token r).type = true)
    (hcomma : ends .comma = false)
    (hitem : ∀ {p q}, Item' p q → (inp.token q).type = .comma ∨ q = r →
      ends (inp.token p).type = false ∧ Item p q) :
    ∃ items, inp.Reads ends Item p r items ∧ inp.Separated r items ∧
      ∀ i ∈ items, Item' i.1 i.2 := by
  induction h with
  | @last p q strict =>
    obtain ⟨hgoes, item⟩ := hitem strict (.inr rfl)
    have hne : (inp.token q).type ≠ .comma := by
      intro heq
      rw [heq, hcomma] at hends
      cases hends
    refine ⟨[(p, q)], .cons hgoes item ?_, rfl, ?_⟩
    · rw [skipComma_of_ne hne]
      exact .nil hends
    · rintro i hi
      rw [List.mem_singleton.1 hi]
      exact strict
  | @cons p q r strict hsep _ ih =>
    obtain ⟨hgoes, item⟩ := hitem strict (.inl hsep)
    obtain ⟨items, hreads, hseparated, hstrict⟩ := ih hends hitem
    refine ⟨(p, q) :: items, .cons hgoes item (by rwa [skipComma_of_comma hsep]), ?_, ?_⟩
    · cases items with
      | nil => exact hseparated.elim
      | cons i items => exact ⟨hsep, hseparated⟩
    · rintro i hi
      rcases List.mem_cons.1 hi with rfl | hi
      · exact strict
      · exact hstrict i hi

end Input

end MicroSql
