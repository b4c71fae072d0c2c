import MicroSql.Parser.Statements
import MicroSql.Prompt.Output

/-!
# The prompt

`main.cpp`.  The lines of the input are a list; the loop ends with it.
-/

namespace MicroSql

open Lib

/-- The context of the session, and what it has printed: errors of the parser and results.  The last
one may be a result at which `printResult` goes wrong. -/
structure Session where
  engine : Engine
  printed : List (Str ⊕ Result) := []

namespace Prompt

/-! ### One query -/

/-- `parse(lexer.tokenize())`.  The parser reads the first token without asking whether there is
one. -/
def parseQuery (fuel : ℕ) (stof : Str → Except Halt Double) (textLength : ℕ → Int32)
    (query : Str) : Except Halt ParseResult := do
  let tokens ← Lexer.tokenize fuel { query }
  if nonempty : tokens ≠ [] then parse fuel { tokens, nonempty, stof, textLength }
  else .error (.fault .outOfBounds)

/-- `execute(parsed, ctx)` -/
def executeParsed (parsed : ParseResult) : Prog Session Halt Result := fun s =>
  match execute parsed s.engine with
  | (.ok r, engine) => (.ok r, { s with engine })
  | (.error f, engine) => (.error (.fault f), { s with engine })

section

variable (formatDouble : Double → Str) (displayWidth : Str → ℕ)

/-- Record an error of the parser or a result, and write it. -/
def print (x : Str ⊕ Result) : Prog Session Halt Unit := do
  .modify fun s => { s with printed := s.printed ++ [x] }
  let _ ← .lift ((shown formatDouble displayWidth x).mapError .fault)

/-- The body of the loop, from the lexer on. -/
def runQuery (fuel : ℕ) (stof : Str → Except Halt Double) (textLength : ℕ → Int32)
    (query : Str) : Prog Session Halt Unit := do
  let parsed ← .lift (parseQuery fuel stof textLength query)
  if parsed.error ≠ [] then print formatDouble displayWidth (.inl parsed.error)
  else do
    let result ← executeParsed parsed
    print formatDouble displayWidth (.inr result)

end

section

variable {formatDouble : Double → Str} {displayWidth : Str → ℕ}

theorem print_result {result : Result} (h : ¬result.Overruns) (s : Session) :
    print formatDouble displayWidth (.inr result) s =
      (.ok (), { s with printed := s.printed ++ [.inr result] }) := by
  obtain ⟨text, htext⟩ := printResult_eq_ok formatDouble displayWidth h
  rw [print, Prog.modify_bind_apply, shown, htext]
  rfl

theorem print_overruns {result : Result} (h : result.Overruns) (s : Session) :
    print formatDouble displayWidth (.inr result) s =
      (.error (.fault .outOfBounds), { s with printed := s.printed ++ [.inr result] }) := by
  rw [print, Prog.modify_bind_apply, shown, (printResult_eq_error _ _).2 ⟨rfl, h⟩]
  rfl

end

/-! ### The loop -/

/-- The end of a query. -/
def semicolon : UInt8 := ch ';'

/-- `buffer.find(';')` -/
def find (buffer : Str) : Option ℕ := buffer.findIdx? (· == semicolon)

/-- The buffer after a line: `if (!buffer.empty()) buffer += ' '; buffer += line;` -/
def extend (buffer line : Str) : Str :=
  (if buffer = [] then [] else buffer ++ [ch ' ']) ++ line

/-- The loop over the lines, which runs a query as soon as the buffer has a semicolon, and drops
the rest of the buffer. -/
def loop {σ ε : Type} (run : Str → Prog σ ε Unit) : Str → List Str → Prog σ ε Unit
  | _, [] => return ()
  | buffer, line :: lines =>
    let buffer := extend buffer line
    match find buffer with
    | none => loop run buffer lines
    | some semi =>
      let query := buffer.take (semi + 1)
      if query = str "exit;" then return ()
      else do
        run query
        loop run [] lines

/-- `ctx.catalog.load()`, whose error is a warning at most. -/
def load : Prog Session Halt Unit := fun s =>
  match Catalog.load s.engine.fs s.engine.catalog with
  | (.error (.fault f), catalog) =>
    (.error (.fault f), { s with engine := { s.engine with catalog } })
  | (_, catalog) => (.ok (), { s with engine := { s.engine with catalog } })

/-- The session: `formatDouble` and `displayWidth` are those of `printResult`. -/
def main (formatDouble : Double → Str) (displayWidth : Str → ℕ) (fuel : ℕ)
    (stof : Str → Except Halt Double) (textLength : ℕ → Int32) (lines : List Str) :
    Prog Session Halt Unit := do
  load
  loop (runQuery formatDouble displayWidth fuel stof textLength) [] lines

/-! ### The queries of a session -/

/-- The texts that the loop hands to the lexer. -/
def queries : Str → List Str → List Str
  | _, [] => []
  | buffer, line :: lines =>
    let buffer := extend buffer line
    match find buffer with
    | none => queries buffer lines
    | some semi =>
      let query := buffer.take (semi + 1)
      if query = str "exit;" then [] else query :: queries [] lines

theorem forM_cons {σ ε : Type} (run : Str → Prog σ ε Unit) (query : Str) (queries : List Str) :
    (query :: queries).forM run = run query >>= fun _ => queries.forM run := rfl

/-- The loop runs its queries in their order, each once. -/
theorem loop_eq {σ ε : Type} (run : Str → Prog σ ε Unit) :
    ∀ (buffer : Str) (lines : List Str), loop run buffer lines = (queries buffer lines).forM run
  | _, [] => rfl
  | buffer, line :: lines => by
    rw [loop, queries]
    dsimp only
    cases find (extend buffer line) with
    | none => exact loop_eq run _ lines
    | some semi =>
      dsimp only
      split
      · rfl
      · exact congrArg (run _ >>= ·) (funext fun _ => loop_eq run _ lines)

end Prompt

end MicroSql
