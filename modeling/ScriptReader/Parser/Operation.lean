import ScriptReader.Parser.CommaList
import ScriptReader.Parser.Precedence
import ScriptReader.Tree.Basic

/-! Reading operators behind an operand, which becomes their left side, as long
as they bind tighter than what is before it. -/

namespace ScriptReader.Parser

/-- An operator and its right side, which ends before operators that bind no tighter. -/
def binary (expr : BindingPower → Parser Expr) (left : Expr) (power : BindingPower) :
    Parser Expr := do
  let token ← current
  advance
  let right ← expr power
  pure (.binary token left token.text right)

/-- An expression behind the current token. -/
def argument (expr : BindingPower → Parser Expr) : Parser Expr := do
  advance
  expr .lowest

/-- A call of what was read before, with the current token before the arguments. -/
def call (expr : BindingPower → Parser Expr) (callee : Expr) : Parser Expr := do
  let token ← current
  let arguments ← commaList (argument expr)
  pure (.call token callee arguments)

def operation (expr : BindingPower → Parser Expr) (left : Expr) (operator : Operator) :
    Parser Expr :=
  match operator.form with
  | .binary => binary expr left operator.power
  | .call => call expr left

/-- The next operator, if it binds tighter than `power`. -/
def operationAbove (expr : BindingPower → Parser Expr) (power : BindingPower) (left : Expr) :
    Parser (Option Expr) := do
  let t ← peek
  match t.kind.operator? with
  | some operator =>
    if power < operator.power then
      advance
      let e ← operation expr left operator
      pure (some e)
    else pure none
  | none => pure none

theorem operationAbove_advances (expr : BindingPower → Parser Expr) (power : BindingPower)
    (left : Expr) : (operationAbove expr power left).Advances := by
  intro c e d h
  simp only [operationAbove, run_bind, peek] at h
  split at h
  · rename_i operator ho
    have hk : c.peek.kind ≠ .eof := by
      intro hk
      simp [hk, TokenKind.operator?] at ho
    have hc := Cursor.ahead_length_pos_of_peek hk
    split at h
    · have hi := ((operation expr left operator).forward c.advance).length_le
      simp only [run_bind, advance] at h
      cases hr : (operation expr left operator).run c.advance with
      | error e d => simp [hr] at h
      | ok e d =>
        simp only [hr, Outcome.cursor_ok, run_pure, Outcome.ok.injEq, Cursor.length_advance] at h hi
        rw [← h.2]
        omega
    · simp [run_pure] at h
  · simp [run_pure] at h

/-- Goes on with an operand as long as operators follow that bind tighter than `power`. -/
def operations (expr : BindingPower → Parser Expr) (power : BindingPower) (left : Expr) :
    Parser Expr :=
  iterate (operationAbove expr power) (operationAbove_advances expr power) left

end ScriptReader.Parser
