/-! The kinds of tokens, and the words that are reserved. -/

namespace ScriptReader

inductive TokenKind where
  | eof
  | illegal
  | identifier
  | integer
  | assign
  | plus
  | minus
  | bang
  | slash
  | asterisk
  | lessThan
  | greaterThan
  | equal
  | notEqual
  | comma
  | semicolon
  | leftParen
  | rightParen
  | leftBrace
  | rightBrace
  | fnWord
  | letWord
  | returnWord
  | ifWord
  | elseWord
  | trueWord
  | falseWord
deriving DecidableEq, Repr

namespace TokenKind

def name : TokenKind → String
  | eof => "EOF"
  | illegal => "Illegal"
  | identifier => "Identifier"
  | integer => "IntegerLiteral"
  | assign => "Assign"
  | plus => "Plus"
  | minus => "Minus"
  | bang => "Bang"
  | slash => "Slash"
  | asterisk => "Asterisk"
  | lessThan => "LessThan"
  | greaterThan => "GreaterThan"
  | equal => "Equal"
  | notEqual => "NotEqual"
  | comma => "Comma"
  | semicolon => "Semicolon"
  | leftParen => "LeftParen"
  | rightParen => "RightParen"
  | leftBrace => "LeftBrace"
  | rightBrace => "RightBrace"
  | fnWord => "Function"
  | letWord => "Let"
  | returnWord => "Return"
  | ifWord => "If"
  | elseWord => "Else"
  | trueWord => "True"
  | falseWord => "False"

def all : List TokenKind :=
  [eof, illegal, identifier, integer, assign, plus, minus, bang, slash, asterisk, lessThan,
   greaterThan, equal, notEqual, comma, semicolon, leftParen, rightParen, leftBrace, rightBrace,
   fnWord, letWord, returnWord, ifWord, elseWord, trueWord, falseWord]

theorem mem_all (k : TokenKind) : k ∈ all := by cases k <;> decide

def reservedWords : List (String × TokenKind) :=
  [("fn", fnWord), ("let", letWord), ("return", returnWord), ("if", ifWord), ("else", elseWord),
   ("true", trueWord), ("false", falseWord)]

/-- The kind of a word: its own if it is reserved, and an identifier otherwise. -/
def ofWord (word : String) : TokenKind := (reservedWords.lookup word).getD identifier

end TokenKind

end ScriptReader
