import MicroSql.Lexer.Lexer
import MicroSql.Parser.Accepts

/-!
# What the parser leaves unchecked

The commas of a `SELECT` and what follows it; the column names and the values of an `INSERT`; the
word after `CREATE`, and the commas, the lengths and the parenthesis of the columns of a table.
Everything else of the grammar is checked.
-/

namespace MicroSql

open Lib Prog

namespace Input

variable (inp : Input)

/-- Positions two apart, up to the end of the list. -/
def Spaced (r : ℕ) : List ℕ → Prop
  | [] => False
  | [j] => r = j + 1
  | j :: k :: js => k = j + 2 ∧ Spaced r (k :: js)

/-- The columns of a `SELECT` as the parser reads them. -/
def SelectRead (e : ℕ) : Prop :=
  ((inp.token 1).type = .star ∧ e = 2) ∨ ((inp.token 1).type ≠ .star ∧
    ∃ items, inp.Reads Parser.selectEnds inp.Value 1 e items)

/-- What the parser does not check holds. -/
structure Unchecked : Prop where
  /-- there are columns, with commas between them and none at the end -/
  selectColumns : (inp.token 0).type = .select → (inp.token 1).type ≠ .star → ∀ e items,
    inp.Reads Parser.selectEnds inp.Value 1 e items → inp.Separated e items
  /-- after the table there is a condition or nothing, and then the end -/
  selectEnd : (inp.token 0).type = .select → ∀ e, inp.SelectRead e →
    (inp.token e).type = .from → ∃ q, inp.Where (e + 2) q ∧ isEnd (inp.token q).type = true
  /-- the column names are identifiers, with one comma between them and none at the end -/
  insertNames : (inp.token 0).type = .insert → (inp.token 3).type = .leftParen → ∀ r js,
    inp.Names 5 r js → (∀ j ∈ 4 :: js, (inp.token j).type = .identifier) ∧ Spaced r (4 :: js)
  /-- after `VALUES` there is a list of expressions in parentheses -/
  insertValues : (inp.token 0).type = .insert → ∀ v, inp.AfterValues v →
    (inp.token v).type = .leftParen ∧ ∃ c, inp.Listed inp.Expr (v + 1) c ∧
      (inp.token c).type = .rightParen
  /-- the word after `CREATE` is a keyword -/
  createWord : (inp.token 0).type = .create →
    ((inp.token 1).value = str "TABLE" → (inp.token 1).type = .table) ∧
    ((inp.token 1).value = str "INDEX" → (inp.token 1).type = .index)
  /-- there are columns, with commas between them and none at the end, up to a parenthesis; the
  lengths are integer literals -/
  createColumns : (inp.token 0).type = .create → (inp.token 1).value = str "TABLE" → ∀ e items,
    inp.Reads Parser.listEnds (inp.Column fun _ => True) 4 e items →
      inp.Separated e items ∧ (inp.token e).type = .rightParen ∧
      ∀ i ∈ items, (inp.token (i.1 + 1)).type = .text →
        (inp.token (i.1 + 2)).type = .leftParen → (inp.token (i.1 + 3)).type = .integerLiteral

variable {inp} {p q r : ℕ}

/-! ### Column names -/

/-- The names after one at `i`, where a comma may have been skipped already. -/
theorem Names.listed {i : ℕ} {js : List ℕ} (h : inp.Names p r js)
    (hp : p = i + 1 ∨ p = inp.skipComma (i + 1))
    (hnames : ∀ j ∈ i :: js, (inp.token j).type = .identifier) (hspaced : Spaced r (i :: js)) :
    inp.Listed inp.Name i r := by
  induction h generalizing i with
  | nil hends =>
    have hr : _ = i + 1 := hspaced
    exact .last ⟨hnames i List.mem_cons_self, hr⟩
  | @cons p q js hgoes rest ih =>
    obtain ⟨hnext, hrest⟩ := hspaced
    have hcomma : (inp.token (i + 1)).type = .comma := by
      by_contra hcomma
      rw [Input.skipComma, if_neg hcomma, or_self] at hp
      rw [hp, Input.skipComma, if_neg hcomma] at hnext
      omega
    rw [hnext] at rest ih hrest hnames
    refine .cons ⟨hnames i List.mem_cons_self, rfl⟩ hcomma (ih (.inr rfl) (fun j hj => ?_) hrest)
    exact hnames j (List.mem_cons_of_mem i hj)

/-- A list of names as the parser reads it, after the first. -/
theorem Listed.names (h : inp.Listed inp.Name p r) (hclose : (inp.token r).type = .rightParen) :
    ∃ js, (inp.Names (p + 1) r js ∧ inp.Names (inp.skipComma (p + 1)) r js) ∧
      (∀ j ∈ p :: js, (inp.token j).type = .identifier) ∧ Spaced r (p :: js) := by
  induction h with
  | @last p q item =>
    obtain ⟨hname, rfl⟩ := item
    have hends : Parser.listEnds (inp.token (p + 1)).type = true := by
      rw [hclose]
      rfl
    refine ⟨[], ⟨.nil hends, ?_⟩, by simpa using hname, rfl⟩
    rw [skipComma_of_ne (by simp [hclose])]
    exact .nil hends
  | @cons p q r item hcomma rest ih =>
    obtain ⟨hname, rfl⟩ := item
    obtain ⟨js, ⟨-, hjs⟩, hnames, hspaced⟩ := ih hclose
    have hnext : (inp.token (p + 2)).type = .identifier := hnames _ List.mem_cons_self
    have hskip : inp.skipComma (p + 1) = p + 2 := skipComma_of_comma hcomma
    have hskip' : inp.skipComma (p + 2) = p + 2 := skipComma_of_ne (by simp [hnext])
    refine ⟨(p + 2) :: js, ⟨?_, ?_⟩, fun j hj => ?_, rfl, hspaced⟩
    · have hcons : inp.Names (p + 1) r (inp.skipComma (p + 1) :: js) :=
        .cons (by rw [hcomma]; rfl) (by rwa [hskip])
      rwa [hskip] at hcons
    · rw [hskip]
      have hcons : inp.Names (p + 2) r (inp.skipComma (p + 2) :: js) :=
        .cons (by rw [hnext]; rfl) (by rwa [hskip'])
      rwa [hskip'] at hcons
    · rcases List.mem_cons.1 hj with rfl | hj
      · exact hname
      · exact hnames j hj

/-! ### SELECT -/

theorem SelectRead.unique {e e' : ℕ} (h : inp.SelectRead e) (h' : inp.SelectRead e') : e = e' := by
  rcases h with ⟨hstar, rfl⟩ | ⟨hlist, items, hitems⟩
  · rcases h' with ⟨-, rfl⟩ | ⟨hlist, -⟩
    · rfl
    · exact absurd hstar hlist
  · rcases h' with ⟨hstar, -⟩ | ⟨-, items', hitems'⟩
    · exact absurd hstar hlist
    · exact (hitems.unique hitems' fun _ _ _ => Value.unique).1

/-- A `SELECT` as it is read is well formed exactly if its commas and its end are. -/
theorem select_iff {e : ℕ} (hread : inp.SelectRead e)
    (hends : Parser.selectEnds (inp.token e).type = true)
    (htable : (inp.token e).type = .from → (inp.token (e + 1)).type = .identifier) :
    (∃ q, inp.Select q ∧ isEnd (inp.token q).type = true) ↔
      ((inp.token 1).type ≠ .star → ∀ e items,
          inp.Reads Parser.selectEnds inp.Value 1 e items → inp.Separated e items) ∧
        ∀ e, inp.SelectRead e → (inp.token e).type = .from →
          ∃ q, inp.Where (e + 2) q ∧ isEnd (inp.token q).type = true := by
  constructor
  · rintro ⟨q, ⟨e', hcolumns, hrest⟩, hend⟩
    -- what the list is followed by ends it for the parser too
    have hends' : (inp.token e').type ∈ [TokenType.from, .semicolon, .endOfFile] := by
      rcases hrest with rfl | ⟨hfrom, -⟩
      · exact List.mem_cons_of_mem _ (by simpa [isEnd] using hend)
      · simp [hfrom]
    obtain ⟨hseparated, hread'⟩ : ((inp.token 1).type ≠ .star → ∀ e items,
        inp.Reads Parser.selectEnds inp.Value 1 e items → inp.Separated e items) ∧
        inp.SelectRead e' := by
      rcases hcolumns with ⟨hstar, rfl⟩ | ⟨hlist, hlisted⟩
      · exact ⟨fun hne => absurd hstar hne, .inl ⟨hstar, rfl⟩⟩
      have hstarts : ∀ type ∈ starts, Parser.selectEnds type = false := by decide
      obtain ⟨items, hitems, hsep, -⟩ : ∃ items, inp.Reads Parser.selectEnds inp.Value 1 e' items ∧
          inp.Separated e' items ∧ ∀ i ∈ items, inp.Expr i.1 i.2 := hlisted.reads
        (by simpa [Parser.selectEnds, or_assoc] using hends') rfl
        fun {p q} hexpr hq => ⟨hstarts _ hexpr.first, hexpr.value (by
          rcases hq with hq | rfl
          · simp [hq]
          · simp only [List.mem_cons, List.not_mem_nil, or_false] at hends' ⊢
            tauto)⟩
      refine ⟨fun _ e₁ items₁ hitems₁ => ?_, .inr ⟨hlist, items, hitems⟩⟩
      obtain ⟨rfl, rfl⟩ := hitems.unique hitems₁ fun _ _ _ => Value.unique
      exact hsep
    refine ⟨hseparated, fun e₁ he₁ hfrom => ?_⟩
    obtain rfl := hread'.unique he₁
    rcases hrest with rfl | ⟨-, -, hwhere⟩
    · rw [hfrom] at hend
      cases hend
    · exact ⟨q, hwhere, hend⟩
  · rintro ⟨hseparated, hafter⟩
    have hcolumns : inp.SelectColumns e := by
      rcases hread with hstar | ⟨hlist, items, hitems⟩
      · exact .inl hstar
      · exact .inr ⟨hlist, hitems.listed (hseparated hlist _ _ hitems) fun _ _ hvalue => hvalue.1⟩
    by_cases hfrom : (inp.token e).type = .from
    · obtain ⟨q, hwhere, hend⟩ := hafter e hread hfrom
      exact ⟨q, ⟨e, hcolumns, .inr ⟨hfrom, htable hfrom, hwhere⟩⟩, hend⟩
    · refine ⟨e, ⟨e, hcolumns, .inl rfl⟩, ?_⟩
      simpa [Parser.selectEnds, isEnd, hfrom] using hends

/-! ### INSERT -/

/-- What the parser has seen of an `INSERT` after which it has the `VALUES` before `v`. -/
structure InsertRead (v : ℕ) : Prop where
  into : (inp.token 1).type = .into
  table : (inp.token 2).type = .identifier
  names : ((inp.token 3).type = .values ∧ v = 4) ∨ ((inp.token 3).type = .leftParen ∧
    ∃ r js, inp.Names 5 r js ∧ (inp.token r).type = .rightParen ∧
      (inp.token (r + 1)).type = .values ∧ v = r + 2)
  values : ∀ c, (inp.token v).type = .leftParen → inp.Listed inp.Expr (v + 1) c →
    (inp.token c).type = .rightParen → (inp.token (c + 1)).type = .semicolon

theorem InsertRead.afterValues {v : ℕ} (h : inp.InsertRead v) : inp.AfterValues v := by
  rcases h.names with ⟨hvalues, rfl⟩ | ⟨hopen, r, js, hjs, -, -, rfl⟩
  · exact .inl ⟨by simp [hvalues], rfl⟩
  · exact .inr ⟨hopen, r, js, hjs, rfl⟩

theorem insert_iff {v : ℕ} (hread : inp.InsertRead v) :
    (∃ q, inp.Insert q ∧ isEnd (inp.token q).type = true) ↔
      ((inp.token 3).type = .leftParen → ∀ r js, inp.Names 5 r js →
          (∀ j ∈ 4 :: js, (inp.token j).type = .identifier) ∧ Spaced r (4 :: js)) ∧
        ∀ v, inp.AfterValues v → (inp.token v).type = .leftParen ∧
          ∃ c, inp.Listed inp.Expr (v + 1) c ∧ (inp.token c).type = .rightParen := by
  constructor
  · rintro ⟨q, ⟨-, -, v', c, hnames, hopen, hlisted, hclose, -⟩, -⟩
    have hafter : inp.AfterValues v' := by
      rcases hnames with ⟨hvalues, rfl⟩ | ⟨hparen, r, hlist, hend, -, rfl⟩
      · exact .inl ⟨by simp [hvalues], rfl⟩
      · obtain ⟨js, ⟨hjs, -⟩, -⟩ := hlist.names hend
        exact .inr ⟨hparen, r, js, hjs, rfl⟩
    refine ⟨fun hparen r js hjs => ?_, fun v₁ hv₁ => ?_⟩
    · rcases hnames with ⟨hvalues, -⟩ | ⟨-, r', hlist, hend, -⟩
      · rw [hvalues] at hparen
        cases hparen
      · obtain ⟨js', ⟨hjs', -⟩, hall, hspaced⟩ := hlist.names hend
        obtain ⟨rfl, rfl⟩ := hjs.unique hjs'
        exact ⟨hall, hspaced⟩
    · obtain rfl := hafter.unique hv₁
      exact ⟨hopen, c, hlisted, hclose⟩
  · rintro ⟨hnames, hvalues⟩
    obtain ⟨hopen, c, hlisted, hclose⟩ := hvalues v hread.afterValues
    refine ⟨c + 1, ⟨hread.into, hread.table, v, c, ?_, hopen, hlisted, hclose, rfl⟩, ?_⟩
    · refine hread.names.imp_right fun ⟨hparen, r, js, hjs, hend, hword, hv⟩ => ?_
      obtain ⟨hall, hspaced⟩ := hnames hparen r js hjs
      exact ⟨hparen, r, hjs.listed (.inl rfl) hall hspaced, hend, hword, hv⟩
    · rw [hread.values c hopen hlisted hclose]
      rfl

/-! ### CREATE TABLE -/

theorem createTable_iff {e : ℕ} {items : List (ℕ × ℕ)}
    (hname : (inp.token 2).type = .identifier) (hopen : (inp.token 3).type = .leftParen)
    (hread : inp.Reads Parser.listEnds (inp.Column fun _ => True) 4 e items)
    (hsemi : (inp.token (e + 1)).type = .semicolon) :
    (∃ q, inp.CreateTable q ∧ isEnd (inp.token q).type = true) ↔ (inp.token 1).type = .table ∧
      ∀ e items, inp.Reads Parser.listEnds (inp.Column fun _ => True) 4 e items →
        inp.Separated e items ∧ (inp.token e).type = .rightParen ∧
        ∀ i ∈ items, (inp.token (i.1 + 1)).type = .text →
          (inp.token (i.1 + 2)).type = .leftParen →
          (inp.token (i.1 + 3)).type = .integerLiteral := by
  constructor
  · rintro ⟨q, ⟨htable, -, -, e', hlisted, hclose, -⟩, -⟩
    refine ⟨htable, fun e₁ items₁ hitems₁ => ?_⟩
    obtain ⟨items', hitems', hseparated, hstrict⟩ : ∃ items,
        inp.Reads Parser.listEnds (inp.Column fun _ => True) 4 e' items ∧
        inp.Separated e' items ∧ ∀ i ∈ items, inp.Column (· = .integerLiteral) i.1 i.2 :=
      hlisted.reads (by rw [hclose]; rfl) rfl
      fun {p q} hcolumn _ => ⟨by rw [hcolumn.1]; rfl, hcolumn.mono fun _ _ => trivial⟩
    obtain ⟨rfl, rfl⟩ := hitems'.unique hitems₁ fun _ _ _ => Column.unique
    refine ⟨hseparated, hclose, fun i hi htext hparen => ?_⟩
    obtain ⟨-, e₂, htyped, -⟩ := hstrict i hi
    rcases htyped with ⟨hsimple, -⟩ | ⟨-, hplain, -⟩ | ⟨-, -, hlength, -⟩
    · rw [htext] at hsimple
      exact absurd hsimple (by decide)
    · exact absurd hparen hplain
    · exact hlength
  · rintro ⟨htable, hall⟩
    obtain ⟨hseparated, hclose, hlengths⟩ := hall e items hread
    refine ⟨e + 1, ⟨htable, hname, hopen, e, hread.listed hseparated fun i hi hcolumn => ?_,
      hclose, rfl⟩, by rw [hsemi]; rfl⟩
    obtain ⟨hident, e₂, htyped, hconstraints⟩ := hcolumn
    refine ⟨hident, e₂, ?_, hconstraints⟩
    rcases htyped with h | h | ⟨htext, hparen, -, hend⟩
    · exact .inl h
    · exact .inr (.inl h)
    · exact .inr (.inr ⟨htext, hparen, hlengths i hi htext hparen, hend⟩)

end Input

namespace Parser

variable {inp : Input} {s s' : Parser} {fuel : ℕ}

/-! ### Accepted statements -/

theorem parseSelect_read (h : parseSelect inp fuel s = (.ok (), s')) (hs : s.position = 0)
    (herror : s'.result.error = []) : ∃ e, inp.SelectRead e ∧
      selectEnds (inp.token e).type = true ∧
      ((inp.token e).type = .from → (inp.token (e + 1)).type = .identifier) := by
  unfold parseSelect at h
  rw [advance_bind, setStatement_bind, hs] at h
  obtain ⟨s₁, h₁, hrest⟩ := step_of_accepted h herror selectColumns_false
  obtain ⟨hread, hends⟩ : inp.SelectRead s₁.position ∧
      selectEnds (inp.token s₁.position).type = true := by
    rcases selectColumns_eq h₁ with ⟨-, ⟨hstar, hpos, hends⟩ | ⟨hlist, items, hitems⟩⟩ |
      ⟨hfalse, -⟩
    · exact ⟨.inl ⟨hstar, hpos⟩, hends⟩
    · exact ⟨.inr ⟨hlist, items, hitems⟩, hitems.ends_at⟩
    · cases hfalse
  refine ⟨s₁.position, hread, hends, fun hfrom => ?_⟩
  rw [currentIs_bind, if_pos (by simpa using hfrom), advance_bind] at hrest
  obtain ⟨s₂, h₂, -⟩ := step_of_accepted hrest herror parseTableName_false
  exact (parseTableName_true h₂).1

theorem parseInsert_read (h : parseInsert inp fuel s = (.ok (), s')) (hs : s.position = 0)
    (herror : s'.result.error = []) : ∃ v, inp.InsertRead v := by
  unfold parseInsert at h
  rw [advance_bind, setStatement_bind, hs] at h
  obtain ⟨s₁, h₁, hafter₁⟩ := step_of_accepted h herror consume_false
  obtain ⟨hinto, rfl⟩ := consume_true h₁
  obtain ⟨s₂, h₂, hafter₂⟩ := step_of_accepted hafter₁ herror parseTableName_false
  obtain ⟨htable, rfl⟩ := parseTableName_true h₂
  obtain ⟨s₃, h₃, hafter₃⟩ := step_of_accepted hafter₂ herror insertColumns_false
  obtain ⟨s₄, h₄, hafter₄⟩ := step_of_accepted hafter₃ herror consume_false
  obtain ⟨hvalues, rfl⟩ := consume_true h₄
  refine ⟨s₃.position + 1, hinto, htable, ?_,
    fun c hopen hlisted hclose => insertRow_listed hafter₄ herror hopen hlisted hclose⟩
  rcases insertColumns_names h₃ with ⟨-, rfl⟩ | ⟨hopen, r, js, hjs, hclose, hpos, -⟩
  · exact .inl ⟨hvalues, rfl⟩
  · rw [hpos] at hvalues ⊢
    exact .inr ⟨hopen, r, js, hjs, hclose, hvalues, rfl⟩

theorem parseUpdate_read (h : parseUpdate inp fuel s = (.ok (), s')) (hs : s.position = 0)
    (herror : s'.result.error = []) :
    ∃ q, inp.Update q ∧ (inp.token q).type = .semicolon := by
  unfold parseUpdate at h
  rw [advance_bind, setStatement_bind, hs] at h
  obtain ⟨s₁, h₁, hafter₁⟩ := step_of_accepted h herror parseTableName_false
  obtain ⟨htable, rfl⟩ := parseTableName_true h₁
  obtain ⟨s₂, h₂, hafter₂⟩ := step_of_accepted hafter₁ herror consume_false
  obtain ⟨hset, rfl⟩ := consume_true h₂
  obtain ⟨s₃, h₃, hafter₃⟩ := step_of_accepted hafter₂ herror fun hb =>
    ((parseAssignment_eq hb).resolve_right fun hitem => Bool.false_ne_true hitem.1).2
  obtain ⟨s₄, h₄, hafter₄⟩ := step_of_accepted hafter₃ herror fun hb =>
    ((assignments_eq fuel hb).resolve_right fun hlist => Bool.false_ne_true hlist.1).2
  obtain ⟨s₅, h₅, hafter₅⟩ := step_of_accepted hafter₄ herror parseWhere_false
  have hitem := ((parseAssignment_eq h₃).resolve_left fun hb => Bool.false_ne_true hb.1.symm).2
  have hlist := ((assignments_eq fuel h₄).resolve_left fun hb =>
    Bool.false_ne_true hb.1.symm).2 _ hitem
  exact ⟨s₅.position, ⟨htable, hset, s₄.position, hlist, parseWhere_true h₅⟩,
    semicolon_of_accepted hafter₅ herror⟩

theorem parseDelete_read (h : parseDelete inp fuel s = (.ok (), s')) (hs : s.position = 0)
    (herror : s'.result.error = []) :
    ∃ q, inp.Delete q ∧ (inp.token q).type = .semicolon := by
  unfold parseDelete at h
  rw [advance_bind, setStatement_bind, hs] at h
  obtain ⟨s₁, h₁, hafter₁⟩ := step_of_accepted h herror consume_false
  obtain ⟨hfrom, rfl⟩ := consume_true h₁
  obtain ⟨s₂, h₂, hafter₂⟩ := step_of_accepted hafter₁ herror parseTableName_false
  obtain ⟨htable, rfl⟩ := parseTableName_true h₂
  obtain ⟨s₃, h₃, hafter₃⟩ := step_of_accepted hafter₂ herror parseWhere_false
  exact ⟨s₃.position, ⟨hfrom, htable, parseWhere_true h₃⟩, semicolon_of_accepted hafter₃ herror⟩

theorem parseDrop_read (h : parseDrop inp s = (.ok (), s')) (hs : s.position = 0)
    (herror : s'.result.error = []) :
    ∃ q, inp.Drop q ∧ (inp.token q).type = .semicolon := by
  unfold parseDrop at h
  rw [advance_bind, setStatement_bind, hs] at h
  obtain ⟨s₁, h₁, hafter₁⟩ := step_of_accepted h herror consume_false
  obtain ⟨hword, rfl⟩ := consume_true h₁
  obtain ⟨s₂, h₂, hafter₂⟩ := step_of_accepted hafter₁ herror parseTableName_false
  obtain ⟨htable, rfl⟩ := parseTableName_true h₂
  exact ⟨3, ⟨hword, htable, rfl⟩, semicolon_of_accepted hafter₂ herror⟩

theorem parseCreateTable_read (h : parseCreateTable inp fuel s = (.ok (), s'))
    (hs : s.position = 1) (herror : s'.result.error = []) :
    (inp.token 2).type = .identifier ∧ (inp.token 3).type = .leftParen ∧ ∃ e items,
      inp.Reads listEnds (inp.Column fun _ => True) 4 e items ∧
      (inp.token (e + 1)).type = .semicolon := by
  unfold parseCreateTable at h
  rw [advance_bind, setStatement_bind, hs] at h
  obtain ⟨s₁, h₁, hafter₁⟩ := step_of_accepted h herror parseTableName_false
  obtain ⟨htable, rfl⟩ := parseTableName_true h₁
  obtain ⟨s₂, h₂, hafter₂⟩ := step_of_accepted hafter₁ herror consume_false
  obtain ⟨hopen, rfl⟩ := consume_true h₂
  obtain ⟨s₃, h₃, hafter₃⟩ := step_of_accepted hafter₂ herror fun hb =>
    ((columnDefinitions_eq fuel hb).resolve_right fun hlist => Bool.false_ne_true hlist.1).2
  obtain ⟨-, items, hitems⟩ := (columnDefinitions_eq fuel h₃).resolve_left fun hb =>
    Bool.false_ne_true hb.1.symm
  rw [advance_bind] at hafter₃
  exact ⟨htable, hopen, s₃.position, items, hitems, semicolon_of_accepted hafter₃ herror⟩

theorem parseCreateIndex_read (h : parseCreateIndex inp s = (.ok (), s'))
    (hs : s.position = 1) (herror : s'.result.error = []) :
    (inp.token 2).type = .on ∧ (inp.token 3).type = .identifier ∧
      (inp.token 4).type = .leftParen ∧ (inp.token 5).type = .identifier ∧
      (inp.token 6).type = .rightParen ∧ (inp.token 7).type = .semicolon := by
  unfold parseCreateIndex at h
  rw [advance_bind, setStatement_bind, hs] at h
  obtain ⟨s₁, h₁, hafter₁⟩ := step_of_accepted h herror consume_false
  obtain ⟨hon, rfl⟩ := consume_true h₁
  obtain ⟨s₂, h₂, hafter₂⟩ := step_of_accepted hafter₁ herror parseTableName_false
  obtain ⟨htable, rfl⟩ := parseTableName_true h₂
  obtain ⟨s₃, h₃, hafter₃⟩ := step_of_accepted hafter₂ herror consume_false
  obtain ⟨hopen, rfl⟩ := consume_true h₃
  obtain ⟨name, s₄, h₄, hafter₄⟩ := bind_eq_ok.1 hafter₃
  rcases consumeIdentifier_eq h₄ with ⟨rfl, hfails⟩ | ⟨hcolumn, rfl, rfl⟩
  · cases hafter₄
    exact absurd herror hfails
  dsimp only at hafter₄
  rw [setStatement_bind] at hafter₄
  obtain ⟨s₅, h₅, hafter₅⟩ := step_of_accepted hafter₄ herror consume_false
  obtain ⟨hclose, rfl⟩ := consume_true h₅
  exact ⟨hon, htable, hopen, hcolumn, hclose, semicolon_of_accepted hafter₅ herror⟩

theorem parseStatement_wellFormed (h : parseStatement inp fuel {} = (.ok (), s'))
    (herror : s'.result.error = []) : inp.WellFormed ↔ inp.Unchecked := by
  unfold parseStatement at h
  rw [current_bind] at h
  dsimp only at h
  unfold Input.WellFormed Input.StatementTo
  -- a statement of another kind leaves nothing unchecked
  have hchecked : (inp.token 0).type ≠ .select → (inp.token 0).type ≠ .insert →
      (inp.token 0).type ≠ .create → inp.Unchecked := fun hselect hinsert hcreate =>
    ⟨fun h0 => absurd h0 hselect, fun h0 => absurd h0 hselect, fun h0 => absurd h0 hinsert,
      fun h0 => absurd h0 hinsert, fun h0 => absurd h0 hcreate, fun h0 => absurd h0 hcreate⟩
  have hend : ∀ {q}, (inp.token q).type = .semicolon →
      Input.isEnd (inp.token q).type = true := by
    intro q hsemi
    rw [hsemi]
    rfl
  cases htype : (inp.token 0).type <;> rw [htype] at h <;> dsimp only at h ⊢
  case select =>
    obtain ⟨e, hread, hends, htable⟩ := parseSelect_read h rfl herror
    rw [Input.select_iff hread hends htable]
    constructor
    · rintro ⟨hcolumns, hafter⟩
      exact ⟨fun _ => hcolumns, fun _ => hafter, by simp [htype], by simp [htype],
        by simp [htype], by simp [htype]⟩
    · intro hunchecked
      exact ⟨hunchecked.selectColumns htype, hunchecked.selectEnd htype⟩
  case insert =>
    obtain ⟨v, hread⟩ := parseInsert_read h rfl herror
    rw [Input.insert_iff hread]
    constructor
    · rintro ⟨hnames, hvalues⟩
      exact ⟨by simp [htype], by simp [htype], fun _ => hnames, fun _ => hvalues,
        by simp [htype], by simp [htype]⟩
    · intro hunchecked
      exact ⟨hunchecked.insertNames htype, hunchecked.insertValues htype⟩
  case update =>
    obtain ⟨q, hupdate, hsemi⟩ := parseUpdate_read h rfl herror
    exact iff_of_true ⟨q, hupdate, hend hsemi⟩
      (hchecked (by simp [htype]) (by simp [htype]) (by simp [htype]))
  case delete =>
    obtain ⟨q, hdelete, hsemi⟩ := parseDelete_read h rfl herror
    exact iff_of_true ⟨q, hdelete, hend hsemi⟩
      (hchecked (by simp [htype]) (by simp [htype]) (by simp [htype]))
  case drop =>
    obtain ⟨q, hdrop, hsemi⟩ := parseDrop_read h rfl herror
    exact iff_of_true ⟨q, hdrop, hend hsemi⟩
      (hchecked (by simp [htype]) (by simp [htype]) (by simp [htype]))
  case create =>
    unfold parseCreate at h
    rw [advance_bind, current_bind] at h
    dsimp only at h
    have hwords : str "TABLE" ≠ str "INDEX" := by decide
    by_cases htable : (inp.token 1).value = str "TABLE"
    · rw [if_pos htable] at h
      obtain ⟨hname, hopen, e, items, hread, hsemi⟩ := parseCreateTable_read h rfl herror
      have hindex : ∀ q, ¬inp.CreateIndex q := by
        rintro q ⟨-, hon, -⟩
        rw [hname] at hon
        cases hon
      simp only [hindex, or_false]
      rw [Input.createTable_iff hname hopen hread hsemi]
      constructor
      · rintro ⟨hword, hcolumns⟩
        exact ⟨by simp [htype], by simp [htype], by simp [htype], by simp [htype],
          fun _ => ⟨fun _ => hword, fun hvalue => absurd (htable.symm.trans hvalue) hwords⟩,
          fun _ _ => hcolumns⟩
      · intro hunchecked
        exact ⟨(hunchecked.createWord htype).1 htable, hunchecked.createColumns htype htable⟩
    rw [if_neg htable] at h
    by_cases hindex : (inp.token 1).value = str "INDEX"
    · rw [if_pos hindex] at h
      obtain ⟨hon, hname, hopen, hcolumn, hclose, hsemi⟩ := parseCreateIndex_read h rfl herror
      constructor
      · rintro ⟨q, htable' | ⟨hword, -⟩, -⟩
        · obtain ⟨-, hname', -⟩ := htable'
          rw [hon] at hname'
          cases hname'
        · exact ⟨by simp [htype], by simp [htype], by simp [htype], by simp [htype],
            fun _ => ⟨fun hvalue => absurd hvalue htable, fun _ => hword⟩,
            fun _ hvalue => absurd hvalue htable⟩
      · intro hunchecked
        exact ⟨7, .inr ⟨(hunchecked.createWord htype).2 hindex, hon, hname, hopen, hcolumn,
          hclose, rfl⟩, hend hsemi⟩
    · rw [if_neg hindex] at h
      cases h
      simp at herror
  all_goals
    cases h
    simp at herror

end Parser

/-- An accepted statement is well formed exactly if what the parser does not check holds. -/
theorem accepted_wellFormed_iff {inp : Input} {fuel : ℕ} {r : ParseResult}
    (h : parse fuel inp = .ok r) (herror : r.error = []) : inp.WellFormed ↔ inp.Unchecked := by
  unfold parse at h
  rcases hrun : Parser.parseStatement inp fuel {} with ⟨e | ⟨⟩, s⟩
  · rw [hrun] at h
    cases h
  · rw [hrun] at h
    cases h
    exact Parser.parseStatement_wellFormed hrun herror

theorem accepted_wellFormed_iff_sample :
    (insertInput [⟨.integerLiteral, str "7", 1⟩]).WellFormed ↔
      (insertInput [⟨.integerLiteral, str "7", 1⟩]).Unchecked :=
  accepted_wellFormed_iff (by rfl : parse 3 _ = .ok _) rfl

/-- The tokens of `INSERT INTO t VALUES 1;`. -/
def bareInput : Input where
  tokens := [⟨.insert, str "INSERT", 1⟩, ⟨.into, str "INTO", 1⟩, ⟨.identifier, str "t", 1⟩,
    ⟨.values, str "VALUES", 1⟩, ⟨.integerLiteral, str "1", 1⟩, ⟨.semicolon, str ";", 1⟩,
    ⟨.endOfFile, [], 1⟩]
  nonempty := by simp
  stof _ := .ok ⟨0⟩
  textLength _ := 0

/-- `INSERT INTO t VALUES 1;` is accepted, and nothing after `VALUES` is read. -/
theorem accepts_bare_values : ¬ ∀ (query : Str) (n fuel : ℕ) (inp : Input) (r : ParseResult),
    Lexer.tokenize n { query } = .ok inp.tokens → parse fuel inp = .ok r → r.error = [] →
    inp.WellFormed := by
  intro h
  obtain ⟨q, hstatement, -⟩ := h (str "INSERT INTO t VALUES 1;") 24 1 bareInput
    (insertResult [] []) (by rfl) (by rfl) rfl
  obtain ⟨-, -, v, c, hnames, hopen, -⟩ : bareInput.Insert q := hstatement
  rcases hnames with ⟨-, rfl⟩ | ⟨hparen, -⟩
  · exact absurd hopen (by decide)
  · exact absurd hparen (by decide)

end MicroSql
