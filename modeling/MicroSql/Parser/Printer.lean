import MicroSql.Catalog.Decimal
import MicroSql.Parser.Complete

/-!
# Printing expressions

A printer that puts parentheses only where the precedence of the operators requires them, and
the parser as its inverse.
-/

namespace MicroSql

open Lib

/-- What a token says, without its line. -/
def Token.spelling (token : Token) : TokenType × Str := (token.type, token.value)

/-! ### The printer -/

namespace BinaryOperator

/-- The level that parses the operator. -/
def level : BinaryOperator → Level
  | or => .or
  | and => .and
  | equal | notEqual | lessThan | lessThanOrEqual | greaterThan | greaterThanOrEqual => .comparison
  | is | isNot => .comparison
  | add | subtract => .additive
  | multiply | divide => .multiplicative

/-- The tokens of the operator. -/
def spelling : BinaryOperator → List (TokenType × Str)
  | or => [(.or, str "OR")]
  | and => [(.and, str "AND")]
  | equal => [(.equal, str "=")]
  | notEqual => [(.notEqual, str "<>")]
  | lessThan => [(.lessThan, str "<")]
  | lessThanOrEqual => [(.lessEq, str "<=")]
  | greaterThan => [(.greaterThan, str ">")]
  | greaterThanOrEqual => [(.greaterEq, str ">=")]
  | is => [(.is, str "IS")]
  | isNot => [(.is, str "IS"), (.not, str "NOT")]
  | add => [(.plus, str "+")]
  | subtract => [(.minus, str "-")]
  | multiply => [(.star, str "*")]
  | divide => [(.slash, str "/")]

end BinaryOperator

/-- The tokens of a column or a literal. -/
def Expression.spelling : Expression → List (TokenType × Str)
  | literalInt n => [(.integerLiteral, str (toString n.toInt))]
  | literalText text => [(.stringLiteral, text)]
  | literalBool b => if b then [(.true, str "TRUE")] else [(.false, str "FALSE")]
  | literalNull text => [(.tknull, text)]
  | columnRef [] column => [(.identifier, column)]
  | columnRef table column => [(.identifier, table), (.dot, str "."), (.identifier, column)]
  | _ => []

namespace Tree

/-- The level of the outermost operator. -/
def level : Tree → Level
  | leaf _ => .primary
  | binary op _ _ => op.level
  | unary .not _ => .not
  | unary .negate _ => .unary

/-- Put `tokens`, which print `t`, in parentheses where an expression of the level is due and `t`
is none. -/
def parenthesize (lvl : Level) (t : Tree) (tokens : List (TokenType × Str)) :
    List (TokenType × Str) :=
  if lvl.rank ≤ t.level.rank then tokens
  else [(.leftParen, str "(")] ++ tokens ++ [(.rightParen, str ")")]

/-- The tokens of an expression. -/
def print : Tree → List (TokenType × Str)
  | leaf expr => expr.spelling
  | binary op left right =>
    parenthesize op.level left left.print ++ op.spelling ++
      parenthesize op.level.next right right.print
  | unary .not t => (.not, str "NOT") :: parenthesize .comparison t t.print
  | unary .negate t => (.minus, str "-") :: parenthesize .primary t t.print

/-- Trees over integers below `2^31`, texts, booleans, `NULL` and columns. -/
def Printable : Tree → Prop
  | leaf (.literalInt n) => 0 ≤ n.toInt ∧ n.toInt < 2 ^ 31
  | leaf (.literalText _) => True
  | leaf (.literalBool _) => True
  | leaf (.literalNull _) => True
  | leaf (.columnRef _ _) => True
  | leaf _ => False
  | binary _ left right => left.Printable ∧ right.Printable
  | unary _ t => t.Printable

example : (binary .multiply (binary .add (leaf (.columnRef [] (str "a"))) (leaf (.literalInt 1)))
    (unary .negate (leaf (.columnRef [] (str "b"))))).print.map (·.2) =
      [str "(", str "a", str "+", str "1", str ")", str "*", str "-", str "b"] := by decide

end Tree

/-! ### Printed tokens in the input -/

namespace Input

variable (inp : Input)

/-- The tokens from a position on are the given ones. -/
def Spells (inp : Input) : ℕ → List (TokenType × Str) → Prop
  | _, [] => True
  | p, x :: xs => (inp.token p).spelling = x ∧ Spells inp (p + 1) xs

variable {inp}

theorem Spells.append {xs ys : List (TokenType × Str)} {p : ℕ} (h : inp.Spells p (xs ++ ys)) :
    inp.Spells p xs ∧ inp.Spells (p + xs.length) ys := by
  induction xs generalizing p with
  | nil => exact ⟨trivial, h⟩
  | cons x xs ih =>
    obtain ⟨hxs, hys⟩ := ih h.2
    refine ⟨⟨h.1, hxs⟩, ?_⟩
    rw [List.length_cons, show p + (xs.length + 1) = p + 1 + xs.length by omega]
    exact hys

theorem token_of_append {before after : List Token} {token : Token}
    (h : inp.tokens = before ++ token :: after) : inp.token before.length = token := by
  have hlen : inp.tokens.length = before.length + (after.length + 1) := by
    rw [h, List.length_append, List.length_cons]
  simp only [Input.token, List.get_eq_getElem, show min before.length (inp.tokens.length - 1) =
    before.length by omega]
  simp [h]

theorem spells_of_append {after ts : List Token} :
    ∀ {before : List Token}, inp.tokens = before ++ ts ++ after →
      inp.Spells before.length (ts.map Token.spelling) := by
  induction ts with
  | nil => exact fun _ => trivial
  | cons t ts ih =>
    intro before h
    have hrest := @ih (before ++ [t]) (by simpa using h)
    rw [List.length_append, List.length_singleton] at hrest
    exact ⟨by rw [@token_of_append _ _ (ts ++ after) _ (by simpa using h)], hrest⟩

end Input

/-! ### The printed tokens derive the tree -/

open Input

variable {inp : Input} {p : ℕ}

theorem stoi_toString {n : ℤ} (hlo : -2 ^ 31 ≤ n) (hhi : n < 2 ^ 31) :
    stoi (str (toString n)) = .ok n := by
  have hdrop : (str (toString n)).dropWhile Catalog.isSpace = str (toString n) := by
    cases hs : str (toString n) with
    | nil => rfl
    | cons b bs =>
      refine List.dropWhile_cons_of_neg ?_
      rw [Catalog.isSpace_of_mem_toString (n := n) (hs ▸ List.mem_cons_self)]
      exact Bool.false_ne_true
  rw [stoi, hdrop, Catalog.stoi_toString hlo hhi]

theorem spells_spelling {type : TokenType} {value : Str} {xs : List (TokenType × Str)}
    (h : inp.Spells p ((type, value) :: xs)) :
    (inp.token p).type = type ∧ (inp.token p).value = value ∧ inp.Spells (p + 1) xs := by
  obtain ⟨hp, hxs⟩ := h
  cases hp
  exact ⟨rfl, rfl, hxs⟩

theorem leaf_of_spells {expr : Expression} (hexpr : (Tree.leaf expr).Printable)
    (h : inp.Spells p expr.spelling) : inp.Leaf p (p + expr.spelling.length) expr := by
  cases expr with
  | literalInt n =>
    obtain ⟨htype, hvalue, -⟩ := spells_spelling h
    have hn := stoi_toString (n := n.toInt) (by have := hexpr.1; omega) hexpr.2
    rw [← hvalue] at hn
    have hleaf := Leaf.int htype hn
    rwa [Int64.ofInt_toInt] at hleaf
  | literalText text =>
    obtain ⟨htype, rfl, -⟩ := spells_spelling h
    exact .text htype
  | literalBool b =>
    cases b with
    | true => exact .true (spells_spelling h).1
    | false => exact .false (spells_spelling h).1
  | literalNull text =>
    obtain ⟨htype, rfl, -⟩ := spells_spelling h
    exact .null htype
  | columnRef table column =>
    cases table with
    | nil =>
      obtain ⟨htype, rfl, -⟩ := spells_spelling h
      exact .column htype
    | cons b bs =>
      obtain ⟨htype, hvalue, h⟩ := spells_spelling h
      obtain ⟨hdot, -, h⟩ := spells_spelling h
      obtain ⟨hcolumn, rfl, -⟩ := spells_spelling h
      have hleaf := Leaf.qualified htype hdot hcolumn
      rwa [hvalue] at hleaf
  | literalFloat | binary | unary | star => exact absurd hexpr id

theorem operator_of_spells {op : BinaryOperator} (h : inp.Spells p op.spelling) :
    inp.Operator op.level p (p + op.spelling.length) op := by
  cases op
  case isNot => exact .isNot (spells_spelling h).1 (spells_spelling (spells_spelling h).2.2).1
  all_goals
    refine .single ?_
    rw [(spells_spelling h).1]
    rfl

/-- What is printed where an expression of the level is due. -/
theorem derives_parenthesize {lvl : Level} {t : Tree} {tokens : List (TokenType × Str)}
    (hprint : ∀ p, inp.Spells p tokens → inp.Derives t.level p (p + tokens.length) t)
    (h : inp.Spells p (t.parenthesize lvl tokens)) :
    inp.Derives lvl p (p + (t.parenthesize lvl tokens).length) t := by
  unfold Tree.parenthesize at *
  split at h
  next hle =>
    rw [if_pos hle]
    exact (hprint p h).lower hle
  next hlt =>
    rw [if_neg hlt]
    obtain ⟨hopen, hclose⟩ := h.append
    obtain ⟨hopen, hinner⟩ := hopen.append
    have hor : inp.Derives .or _ _ _ := (hprint _ hinner).lower (Nat.zero_le _)
    rw [List.length_append] at hclose
    have hparen := Derives.paren (spells_spelling hopen).1 hor
      (by rw [Nat.add_assoc]; exact (spells_spelling hclose).1)
    have hlower : inp.Derives lvl _ _ _ := Derives.lower (by cases lvl <;> decide) hparen
    simpa [Nat.add_assoc, Nat.add_comm, Nat.add_left_comm] using hlower

/-- The printed tokens are an expression of the grammar that stands for the tree. -/
theorem derives_print {t : Tree} (ht : t.Printable) (h : inp.Spells p t.print) :
    inp.Derives t.level p (p + t.print.length) t := by
  induction t generalizing p with
  | leaf expr => exact .leaf (leaf_of_spells ht h)
  | binary op left right ihl ihr =>
    obtain ⟨hop, hright⟩ := h.append
    obtain ⟨hleft, hop⟩ := hop.append
    have hl := derives_parenthesize (fun p hp => ihl ht.1 hp) hleft
    have hr := derives_parenthesize (fun p hp => ihr ht.2 hp) hright
    have hbinary := Derives.binary hl (operator_of_spells hop)
      (by rw [Nat.add_assoc, ← List.length_append]; exact hr)
    simpa [Tree.print, Tree.level, Nat.add_assoc] using hbinary
  | unary op t ih =>
    cases op with
    | not =>
      obtain ⟨hnot, -, hoperand⟩ := spells_spelling h
      have := Derives.not hnot (derives_parenthesize (fun p hp => ih ht hp) hoperand)
      simpa [Tree.print, Tree.level, Nat.add_assoc, Nat.add_comm, Nat.add_left_comm] using this
    | negate =>
      obtain ⟨hminus, -, hoperand⟩ := spells_spelling h
      have := Derives.negate hminus (derives_parenthesize (fun p hp => ih ht hp) hoperand)
      simpa [Tree.print, Tree.level, Nat.add_assoc, Nat.add_comm, Nat.add_left_comm] using this

/-! ### The parser inverts the printer -/

/-- The tokens that follow an expression in a statement. -/
def Follows (type : TokenType) : Prop :=
  type = .semicolon ∨ type = .rightParen ∨ type = .comma ∨ type = .from ∨ type = .where ∨
    type = .endOfFile

theorem Follows.stops {type : TokenType} (h : Follows type) :
    Level.or.Stops type ∧ type ≠ .dot := by
  unfold Level.Stops
  rcases h with rfl | rfl | rfl | rfl | rfl | rfl <;>
    exact ⟨fun lvl _ => by cases lvl <;> rfl, by simp⟩

namespace Parser

/-- `parseExpression` on the printed tokens `ts` of an expression: it passes them and nothing
else, and the index that it returns refers to the tree that was printed, and to no other. -/
theorem parseExpression_print (inp : Input) (s : Parser) (t : Tree) (ht : t.Printable)
    (before ts after : List Token) (follow : Token)
    (htokens : inp.tokens = before ++ ts ++ follow :: after)
    (hprint : ts.map Token.spelling = t.print) (hfollow : Follows follow.type)
    (hposition : s.position = before.length) (fuel : ℕ) (hfuel : ts.length < fuel) :
    ∃ i s', parseExpression inp fuel s = (.ok i, s') ∧ s'.position = s.position + ts.length ∧
      s'.result.error = s.result.error ∧ s'.result.statement = s.result.statement ∧
      s'.result.Refers i t ∧ ∀ t', s'.result.Refers i t' → t' = t := by
  have hspells : inp.Spells s.position t.print := by
    rw [hposition, ← hprint]
    exact spells_of_append htokens
  have hlength : t.print.length = ts.length := by rw [← hprint, List.length_map]
  have hend : inp.token (s.position + ts.length) = follow := by
    rw [hposition, ← List.length_append]
    exact token_of_append htokens
  have hderives : inp.Derives .or _ _ _ := (derives_print ht hspells).lower (Nat.zero_le _)
  rw [hlength] at hderives
  obtain ⟨hstops, hdot⟩ := hfollow.stops
  have hrounds : s.position + ts.length < s.position + fuel := by omega
  obtain ⟨i, s', hrun, hyields⟩ := parseExpression_complete hderives (by rwa [hend])
    (by rwa [hend]) hrounds (s := s) rfl
  exact ⟨i, s', hrun, hyields.position, hyields.error, hyields.statement, hyields.refers,
    fun t' ht' => ht'.unique hyields.refers⟩

/-- The tokens of `(a + 1) * -b ;`, and their tree. -/
def sampleTokens : List Token :=
  [⟨.leftParen, str "(", 1⟩, ⟨.identifier, str "a", 1⟩, ⟨.plus, str "+", 1⟩,
    ⟨.integerLiteral, str "1", 1⟩, ⟨.rightParen, str ")", 1⟩, ⟨.star, str "*", 1⟩,
    ⟨.minus, str "-", 1⟩, ⟨.identifier, str "b", 1⟩]

/-- The tree that they are parsed into. -/
def sampleTree : Tree :=
  .binary .multiply (.binary .add (.leaf (.columnRef [] (str "a"))) (.leaf (.literalInt 1)))
    (.unary .negate (.leaf (.columnRef [] (str "b"))))

theorem parseExpression_print_sample :
    let inp : Input := { tokens := sampleTokens ++ [⟨.semicolon, str ";", 1⟩], nonempty := by simp,
                         stof := fun _ => .ok ⟨0⟩, textLength := fun _ => 0 }
    ∃ i s', parseExpression inp 9 {} = (.ok i, s') ∧ s'.position = 0 + sampleTokens.length ∧
      s'.result.error = [] ∧ s'.result.statement = { kind := .select } ∧
      s'.result.Refers i sampleTree ∧ ∀ t', s'.result.Refers i t' → t' = sampleTree :=
  parseExpression_print _ {} sampleTree ⟨⟨trivial, by decide, by decide⟩, trivial⟩ []
    sampleTokens []
    ⟨.semicolon, str ";", 1⟩ rfl (by decide) (.inl rfl) rfl 9 (by decide)

end Parser

end MicroSql
