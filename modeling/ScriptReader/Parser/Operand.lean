import ScriptReader.Parser.CommaList
import ScriptReader.Parser.Statement

/-! Reading operands, each by the form that its first token says, and given how
the expressions within them are read. -/

namespace ScriptReader.Parser

def identifier : Parser Expr := do
  let token ← current
  pure (.identifier (.ofToken token))

def maxInteger : Nat := 9223372036854775807

/-- The number that a text of digits stands for, if it is in range. -/
def integerValue? (text : String) : Option Int :=
  let digits := text.toList
  let value := Text.digitsValue digits
  if digits ≠ [] ∧ digits.all Char.isDigit ∧ value ≤ maxInteger then some value else none

def integer : Parser Expr := do
  let token ← current
  match integerValue? token.text with
  | some value => pure (.integer token value)
  | none => failAt token (.badNumber token.text)

/-- A truth value, which is false for all tokens but `true`. -/
def boolean : Parser Expr := do
  let token ← current
  pure (.boolean token (token.kind = .trueWord))

def illegal : Parser Expr := do
  let token ← current
  failAt token (.unrecognised token.text)

def unary (expr : BindingPower → Parser Expr) : Parser Expr := do
  let token ← current
  advance
  let right ← expr .unary
  pure (.unary token token.text right)

/-- An expression in parentheses, which leave no trace in the tree. -/
def grouping (expr : BindingPower → Parser Expr) : Parser Expr := do
  advance
  let inner ← expr .lowest
  let _ ← expect .rightParen
  pure inner

/-- `if`, a condition in parentheses, a block, and perhaps `else` and another block. -/
def conditional (expr : BindingPower → Parser Expr) : Parser Expr := do
  let token ← current
  let _ ← expect .leftParen
  advance
  let condition ← expr .lowest
  let _ ← expect .rightParen
  let _ ← expect .leftBrace
  let consequence ← block expr
  if ← accept .elseWord then
    let _ ← expect .leftBrace
    let alternative ← block expr
    pure (.conditional token condition consequence (some alternative))
  else pure (.conditional token condition consequence none)

/-- `fn`, parameters in parentheses, and a block. -/
def function (expr : BindingPower → Parser Expr) : Parser Expr := do
  let token ← current
  let _ ← expect .leftParen
  let parameters ← commaList (expect .identifier)
  let _ ← expect .leftBrace
  let body ← block expr
  pure (.function token (parameters.map .ofToken) body)

def operand (expr : BindingPower → Parser Expr) : Parser Expr := do
  let t ← current
  match t.kind.operandForm? with
  | some .identifier => identifier
  | some .integer => integer
  | some .boolean => boolean
  | some .unary => unary expr
  | some .grouping => grouping expr
  | some .conditional => conditional expr
  | some .function => function expr
  | some .illegal => illegal
  | none => failAt t (.noOperand t.kind)

end ScriptReader.Parser
