import MicroSql.Lexer.Split
import MicroSql.Prompt.Prompt

/-!
# The statements of a session

The loop looks for a semicolon with `find` and drops what follows it on the line.  As long as the
first semicolon of the buffer is one that the lexer reports, and nothing but blanks follow it,
the queries are the statements of the joined lines.
-/

namespace MicroSql

open Lib

namespace Prompt

/-- The lines, with single spaces between them. -/
def joinLines : List Str → Str
  | [] => []
  | line :: lines => line ++ lines.flatMap fun l => ch ' ' :: l

/-- A statement without the blanks before it. -/
def trim (s : Str) : Str := s.dropWhile Catalog.isSpace

/-- The lexer reports a semicolon. -/
def Reports (query : Str) : Prop :=
  ∃ n ts, Lexer.tokenize n { query } = .ok ts ∧ ts.any (·.type == .semicolon) = true

/-- Every query is one statement, and no statement is lost: the lexer reports the first semicolon
of the buffer; a query that is `exit;` has no blanks before it; what is dropped after any other
is blank, or nothing that is dropped or comes later has a semicolon. -/
def CleanRun : Str → List Str → Prop
  | _, [] => True
  | buffer, line :: lines =>
    let buffer := extend buffer line
    match find buffer with
    | none => CleanRun buffer lines
    | some semi =>
      let query := buffer.take (semi + 1)
      let rest := buffer.drop (semi + 1)
      Reports query ∧ (query = str "exit;" ∨ trim query ≠ str "exit;" ∧
        ((∀ c ∈ rest, Catalog.isSpace c = true) ∧ CleanRun [] lines ∨
          ch ';' ∉ rest ++ joinLines lines))

/-! ### The text that is left -/

/-- What the buffer and the lines that have not been read make up. -/
def remaining (buffer : Str) (lines : List Str) : Str :=
  if buffer = [] then joinLines lines else joinLines (buffer :: lines)

theorem joinLines_tail (lines : List Str) : ∃ w, (∀ c ∈ w, Catalog.isSpace c = true) ∧
    (lines.flatMap fun l => ch ' ' :: l) = w ++ remaining [] lines := by
  cases lines with
  | nil => exact ⟨[], nofun, rfl⟩
  | cons line lines =>
    refine ⟨[ch ' '], fun c hc => ?_, rfl⟩
    cases List.mem_singleton.1 hc
    decide

/-- Reading a line moves it to the buffer. -/
theorem remaining_extend (buffer line : Str) (lines : List Str) :
    ∃ w, (∀ c ∈ w, Catalog.isSpace c = true) ∧
      remaining buffer (line :: lines) = w ++ remaining (extend buffer line) lines := by
  by_cases hbuffer : buffer = []
  · subst hbuffer
    by_cases hline : line = []
    · subst hline
      obtain ⟨w, hw, htail⟩ := joinLines_tail lines
      exact ⟨w, hw, htail⟩
    · exact ⟨[], nofun, (if_neg hline).symm⟩
  · refine ⟨[], nofun, ?_⟩
    have hne : extend buffer line ≠ [] := by
      unfold extend
      rw [if_neg hbuffer]
      simp
    rw [remaining, remaining, if_neg hbuffer, if_neg hne, extend, if_neg hbuffer]
    simp [joinLines]

/-! ### The first semicolon of the buffer -/

theorem find_eq_none {s : Str} (h : find s = none) : ch ';' ∉ s := by
  intro hmem
  have hnot := List.findIdx?_eq_none_iff.1 h _ hmem
  exact absurd hnot (by decide)

theorem find_eq_some {s : Str} {k : ℕ} (h : find s = some k) :
    ∃ a r, s = a ++ ch ';' :: r ∧ ch ';' ∉ a ∧ s.take (k + 1) = a ++ [ch ';'] ∧
      s.drop (k + 1) = r := by
  obtain ⟨hk, hat, hbefore⟩ := List.findIdx?_eq_some_iff_getElem.1 h
  have hsemi : s[k] = ch ';' := beq_iff_eq.1 hat
  refine ⟨s.take k, s.drop (k + 1), ?_, ?_, ?_, rfl⟩
  · rw [← hsemi, ← List.drop_eq_getElem_cons hk, List.take_append_drop]
  · intro hmem
    obtain ⟨j, hj, hget⟩ := List.mem_iff_getElem.1 hmem
    rw [List.length_take] at hj
    rw [List.getElem_take] at hget
    have hnot := hbefore j (by omega)
    rw [hget] at hnot
    exact absurd hnot (by decide)
  · rw [List.take_add_one, List.getElem?_eq_getElem hk, hsemi]
    rfl

/-- Where the lexer finds the semicolon of a query. -/
theorem Reports.nextStatement {a : Str} (h : Reports (a ++ [ch ';'])) (ha : ch ';' ∉ a) :
    ∃ n, Lexer.nextStatement n n { query := a ++ [ch ';'] } 1 = .ok (some (a.length + 1)) := by
  obtain ⟨n, ts, hlex, hany⟩ := h
  obtain ⟨r, hr, hiff⟩ := Lexer.nextStatement_of_loop hlex
  refine ⟨n, hr.trans ?_⟩
  cases r with
  | none =>
    rw [hiff.1 rfl] at hany
    cases hany
  | some k =>
    obtain ⟨j, -, rfl, hat⟩ := Lexer.nextStatement_eq_some hr
    have hlt := Lexer.lt_length_of_getD (by decide) hat
    rw [List.length_append, List.length_singleton] at hlt
    by_cases hj : j < a.length
    · refine absurd ?_ ha
      rw [← hat, List.getD_append _ _ _ _ hj, Lexer.getD_eq_of_lt hj]
      exact List.getElem_mem hj
    · congr 2
      omega

theorem trim_append {w : Str} (hw : ∀ c ∈ w, Catalog.isSpace c = true) (s : Str) :
    trim (w ++ s) = trim s := List.dropWhile_append_of_pos hw

/-! ### Texts without a semicolon -/

theorem statements_eq_nil {fuel rounds : ℕ} {text : Str} {S : List Str} (h : ch ';' ∉ text)
    (hS : Lexer.statements fuel rounds text = .ok S) : S = [] := by
  cases rounds with
  | zero => cases hS
  | succ rounds =>
  obtain ⟨r, hr, hS⟩ := bind_eq_ok.1 hS
  cases r with
  | none =>
    cases hS
    rfl
  | some k =>
    obtain ⟨j, -, -, hat⟩ := Lexer.nextStatement_eq_some hr
    have hlt := Lexer.lt_length_of_getD (by decide) hat
    rw [Lexer.getD_eq_of_lt hlt] at hat
    refine absurd ?_ h
    rw [← hat]
    exact List.getElem_mem hlt

theorem queries_eq_nil : ∀ (lines : List Str) {buffer : Str}, ch ';' ∉ buffer →
    ch ';' ∉ joinLines lines → queries buffer lines = []
  | [], _, _, _ => rfl
  | line :: lines, buffer, hbuffer, hlines => by
    have hboth : ch ';' ∉ line ∧ ch ';' ∉ joinLines lines := by
      obtain ⟨w, -, htail⟩ := joinLines_tail lines
      rw [joinLines, htail] at hlines
      simp only [List.mem_append, not_or] at hlines
      exact ⟨hlines.1, hlines.2.2⟩
    have hnone : ch ';' ∉ extend buffer line := by
      unfold extend
      rw [List.mem_append, not_or]
      refine ⟨?_, hboth.1⟩
      split
      · exact nofun
      · rw [List.mem_append, not_or]
        exact ⟨hbuffer, by decide⟩
    rw [queries]
    dsimp only
    cases hfind : find (extend buffer line) with
    | none => exact queries_eq_nil lines hnone hboth.2
    | some semi =>
      obtain ⟨a, r, hsplit, -⟩ := find_eq_some hfind
      rw [hsplit] at hnone
      simp at hnone

/-! ### The run -/

theorem queries_eq (fuel : ℕ) : ∀ (lines : List Str) {buffer w : Str} {rounds : ℕ}
    {S : List Str}, (∀ c ∈ w, Catalog.isSpace c = true) → ch ';' ∉ buffer →
    CleanRun buffer lines →
    Lexer.statements fuel rounds (w ++ remaining buffer lines) = .ok S →
    (queries buffer lines).map trim = (S.map trim).takeWhile (· ≠ str "exit;")
  | [], buffer, w, rounds, S, hw, hbuffer, _, hS => by
    have hnone : ch ';' ∉ w ++ remaining buffer [] := by
      rw [List.mem_append, not_or]
      refine ⟨fun hmem => absurd (hw _ hmem) (by decide), ?_⟩
      unfold remaining
      split
      · exact nofun
      · simpa [joinLines] using hbuffer
    rw [statements_eq_nil hnone hS]
    rfl
  | _ :: _, _, _, 0, _, _, _, _, hS => by cases hS
  | line :: lines, buffer, w, rounds + 1, S, hw, hbuffer, hclean, hS => by
    obtain ⟨w₁, hw₁, htext⟩ := remaining_extend buffer line lines
    have hblank : ∀ c ∈ w ++ w₁, Catalog.isSpace c = true := fun c hc =>
      (List.mem_append.1 hc).elim (hw c) (hw₁ c)
    rw [htext, ← List.append_assoc] at hS
    rw [CleanRun] at hclean
    rw [queries]
    dsimp only at hclean ⊢
    cases hfind : find (extend buffer line) with
    | none =>
      rw [hfind] at hclean
      exact queries_eq fuel lines hblank (find_eq_none hfind) hclean hS
    | some semi =>
      rw [hfind] at hclean
      dsimp only at hclean ⊢
      obtain ⟨hreports, hnext⟩ := hclean
      obtain ⟨a, r, hsplit, ha, htake, hdrop⟩ := find_eq_some hfind
      rw [htake] at hreports hnext ⊢
      rw [hdrop] at hnext
      have hne : extend buffer line ≠ [] := by
        rw [hsplit]
        simp
      obtain ⟨w₂, hw₂, htail⟩ := joinLines_tail lines
      have hremaining : remaining (extend buffer line) lines =
          a ++ ch ';' :: ((r ++ w₂) ++ remaining [] lines) := by
        rw [remaining, if_neg hne, joinLines, htail, hsplit]
        simp
      rw [hremaining] at hS
      generalize hv : w ++ w₁ = v at hblank hS
      -- the lexer cuts the text after the semicolon of the query
      obtain ⟨o, ho, hS₁⟩ := bind_eq_ok.1 hS
      obtain ⟨n, hquery⟩ := hreports.nextStatement ha
      obtain ⟨rounds', line', hfrom⟩ := Lexer.nextStatement_spaces (k := 0) rfl hblank ho
      have hcut := Lexer.nextStatement_ahead (a := a) (l := { query := a ++ [ch ';'] })
        ⟨[], rfl⟩ ⟨(r ++ w₂) ++ remaining [] lines, by
          change List.drop (0 + v.length) _ = _
          rw [Nat.zero_add, List.drop_left]⟩
        (by rw [hquery]; simp) hfrom
      have hpiece : ∀ t : Str, (v ++ (a ++ ch ';' :: t)).take (v.length + a.length + 1) =
          v ++ (a ++ [ch ';']) ∧ (v ++ (a ++ ch ';' :: t)).drop (v.length + a.length + 1) = t := by
        intro t
        have hlength : v.length + a.length + 1 = (v ++ (a ++ [ch ';'])).length := by simp; omega
        have happend : v ++ (a ++ ch ';' :: t) = (v ++ (a ++ [ch ';'])) ++ t := by simp
        rw [hlength, happend]
        exact ⟨List.take_left, List.drop_left⟩
      rw [hcut] at hS₁
      dsimp only at hS₁
      rw [Nat.zero_add, (hpiece _).1, (hpiece _).2] at hS₁
      obtain ⟨S₁, hS₂, hS₃⟩ := bind_eq_ok.1 hS₁
      cases hS₃
      rw [List.map_cons, trim_append hblank]
      by_cases hstop : a ++ [ch ';'] = str "exit;"
      · rw [if_pos hstop, hstop]
        rfl
      obtain ⟨hexit, hafter⟩ := hnext.resolve_left hstop
      rw [if_neg hstop, List.map_cons, List.takeWhile_cons_of_pos (by simpa using hexit)]
      congr 1
      rcases hafter with ⟨hafter, hclean⟩ | hnone
      · refine queries_eq fuel lines (fun c hc => ?_) List.not_mem_nil hclean hS₂
        exact (List.mem_append.1 hc).elim (hafter c) (hw₂ c)
      · -- no statement is lost, and none comes
        rw [List.mem_append, not_or] at hnone
        have hend : ch ';' ∉ (r ++ w₂) ++ remaining [] lines := by
          simp only [List.mem_append, not_or]
          exact ⟨⟨hnone.1, fun hmem => absurd (hw₂ _ hmem) (by decide)⟩, hnone.2⟩
        rw [statements_eq_nil hend hS₂, queries_eq_nil lines List.not_mem_nil hnone.2]
        rfl

/-! ### The session -/

/-- Let `S` be the statements of the joined lines.  In a clean run the loop hands exactly the
statements of `S` to the lexer, in their order, up to the first that is `exit;`. -/
theorem main_runs_statements {lines : List Str} (h : CleanRun [] lines) {fuel rounds : ℕ}
    {S : List Str} (hS : Lexer.statements fuel rounds (joinLines lines) = .ok S) :
    ∃ qs : List Str, qs.map trim = (S.map trim).takeWhile (· ≠ str "exit;") ∧
      ∀ formatDouble displayWidth n stof textLength,
        main formatDouble displayWidth n stof textLength lines = (do
          load
          qs.forM (runQuery formatDouble displayWidth n stof textLength)) := by
  refine ⟨queries [] lines, queries_eq fuel lines (w := []) nofun List.not_mem_nil h hS, ?_⟩
  intro formatDouble displayWidth n stof textLength
  rw [main, loop_eq]

theorem main_runs_statements_sample :
    ∃ qs : List Str, qs.map trim = ([str "DROP TABLE a;", str "  exit;"].map trim).takeWhile
        (· ≠ str "exit;") ∧
      ∀ formatDouble displayWidth n stof textLength,
        main formatDouble displayWidth n stof textLength
            [str "DROP", str "TABLE a; ", str "exit;"] = (do
          load
          qs.forM (runQuery formatDouble displayWidth n stof textLength)) := by
  have hexit : CleanRun [] [str "exit;"] := by
    change Reports (str "exit;") ∧ (str "exit;" = str "exit;" ∨ _)
    exact ⟨⟨6, _, rfl, rfl⟩, .inl rfl⟩
  have hclean : CleanRun [] [str "DROP", str "TABLE a; ", str "exit;"] := by
    change Reports (str "DROP TABLE a;") ∧ (_ ∨ trim (str "DROP TABLE a;") ≠ str "exit;" ∧
      ((∀ c ∈ str " ", Catalog.isSpace c = true) ∧ CleanRun [] [str "exit;"] ∨ _))
    exact ⟨⟨14, _, rfl, rfl⟩, .inr ⟨by decide, .inl ⟨List.all_eq_true.1 (by decide), hexit⟩⟩⟩
  exact main_runs_statements hclean (by rfl : Lexer.statements 30 3 _ = .ok _)

/-- The second statement of a line is lost. -/
theorem statements_lost : ¬ ∀ (lines : List Str) (fuel rounds : ℕ) (S : List Str),
    (∀ line ∈ lines, ¬ str "--" <:+: line) →
    Lexer.statements fuel rounds (joinLines lines) = .ok S →
    (queries [] lines).map trim = (S.map trim).takeWhile (· ≠ str "exit;") := by
  intro h
  have hlost := h [str "DROP TABLE a; DROP TABLE b;"] 30 3
    [str "DROP TABLE a;", str " DROP TABLE b;"] (by decide) (by rfl)
  exact absurd hlost (by decide)

end Prompt

end MicroSql
