import ScriptReader.Token.Basic

/-! The trees that are read: expressions, statements and blocks, which contain
one another, and programs. A node keeps the token that it was read from. -/

namespace ScriptReader

structure Identifier where
  token : Token
  value : String
deriving DecidableEq, Repr

def Identifier.ofToken (t : Token) : Identifier := ⟨t, t.text⟩

mutual

inductive Expr where
  | identifier (name : Identifier)
  | integer (token : Token) (value : Int)
  | boolean (token : Token) (value : Bool)
  | unary (token : Token) (operator : String) (right : Expr)
  | binary (token : Token) (left : Expr) (operator : String) (right : Expr)
  | conditional (token : Token) (condition : Expr) (consequence : Block)
      (alternative : Option Block)
  | function (token : Token) (parameters : List Identifier) (body : Block)
  | call (token : Token) (callee : Expr) (arguments : List Expr)

inductive Stmt where
  | define (token : Token) (name : Identifier) (value : Expr)
  | returning (token : Token) (value : Expr)
  | expression (token : Token) (expression : Expr)

structure Block where
  token : Token
  statements : List Stmt

end

structure Program where
  statements : List Stmt

/-- The token that an expression was read from: its operator if it has one, the
opening parenthesis of a call, and its first token otherwise. -/
def Expr.token : Expr → Token
  | identifier name => name.token
  | integer token _ | boolean token _ | unary token _ _ | binary token _ _ _
  | conditional token _ _ _ | function token _ _ | call token _ _ => token

def Stmt.token : Stmt → Token
  | define token _ _ | returning token _ | expression token _ => token

/-- The text of the first token of a program; a program without statements has none. -/
def Program.literal (p : Program) : String :=
  match p.statements with
  | [] => ""
  | s :: _ => s.token.text

end ScriptReader
