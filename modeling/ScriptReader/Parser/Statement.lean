import ScriptReader.Parser.Precedence
import ScriptReader.Parser.Repeat
import ScriptReader.Tree.Basic

/-! Reading statements and blocks, given how expressions are read that bind
tighter than a given power. A reader starts with its first token as the current
one and ends with its last. -/

namespace ScriptReader.Parser

/-- `let`, a name, `=` and a value. The first token is not looked at. -/
def define (expr : BindingPower → Parser Expr) : Parser Stmt := do
  let token ← current
  let name ← expect .identifier
  let _ ← expect .assign
  advance
  let value ← expr .lowest
  let _ ← accept .semicolon
  pure (.define token (.ofToken name) value)

/-- `return` and a value. The first token is not looked at. -/
def returning (expr : BindingPower → Parser Expr) : Parser Stmt := do
  let token ← current
  advance
  let value ← expr .lowest
  let _ ← accept .semicolon
  pure (.returning token value)

def expressionStatement (expr : BindingPower → Parser Expr) : Parser Stmt := do
  let token ← current
  let expression ← expr .lowest
  let _ ← accept .semicolon
  pure (.expression token expression)

def statement (expr : BindingPower → Parser Expr) : Parser Stmt := do
  match (← current).kind with
  | .letWord => define expr
  | .returnWord => returning expr
  | _ => expressionStatement expr

/-- The next statement of a block and the step behind it, unless the block ends. -/
def blockItem (expr : BindingPower → Parser Expr) : Parser (Option Stmt) := do
  let t ← current
  if t.kind = .rightBrace then pure none
  else if t.kind = .eof then failAt t (.unexpected .rightBrace t.kind)
  else
    let s ← statement expr
    advance
    pure (some s)

theorem blockItem_advances (expr : BindingPower → Parser Expr) : (blockItem expr).Advances := by
  intro c s d h
  simp only [blockItem, run_bind, current] at h
  split at h
  · simp [run_pure] at h
  · split at h
    · simp [failAt] at h
    · rename_i he
      have hc := Cursor.ahead_length_pos_of_current he
      have hs := ((statement expr).forward c).length_le
      rw [run_bind] at h
      cases hr : (statement expr).run c with
      | error e e' => simp [hr] at h
      | ok s e =>
        simp only [hr, Outcome.cursor_ok, run_bind, advance, run_pure, Outcome.ok.injEq] at h hs
        rw [← h.2, Cursor.length_advance]
        omega

/-- Statements in braces. The first token is not looked at. -/
def block (expr : BindingPower → Parser Expr) : Parser Block := do
  let token ← current
  advance
  let statements ← many (blockItem expr) (blockItem_advances expr)
  pure ⟨token, statements⟩

end ScriptReader.Parser
