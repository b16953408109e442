import ScriptReader.Token.Kind

/-! What tokens do in expressions: how an operand is read that begins with a
token, how an operator goes on with the operand before it, and how tightly it
binds. -/

namespace ScriptReader

inductive BindingPower where
  | lowest
  | equals
  | lessGreater
  | sum
  | product
  | unary
  | call
deriving DecidableEq, Repr

namespace BindingPower

def rank : BindingPower → Nat
  | lowest => 0
  | equals => 1
  | lessGreater => 2
  | sum => 3
  | product => 4
  | unary => 5
  | call => 6

instance : LT BindingPower := ⟨fun p q => p.rank < q.rank⟩

instance : LE BindingPower := ⟨fun p q => p.rank ≤ q.rank⟩

instance (p q : BindingPower) : Decidable (p < q) := inferInstanceAs (Decidable (p.rank < q.rank))

instance (p q : BindingPower) : Decidable (p ≤ q) := inferInstanceAs (Decidable (p.rank ≤ q.rank))

end BindingPower

/-- The forms of operands, each known by its first token. -/
inductive OperandForm where
  | identifier
  | integer
  | boolean
  | unary
  | grouping
  | conditional
  | function
  /-- No operand at all, but a text that is no token. -/
  | illegal
deriving DecidableEq, Repr

inductive OperatorForm where
  | binary
  | call
deriving DecidableEq, Repr

structure Operator where
  form : OperatorForm
  power : BindingPower
deriving DecidableEq, Repr

namespace TokenKind

def operandForm? : TokenKind → Option OperandForm
  | identifier => some .identifier
  | integer => some .integer
  | trueWord | falseWord => some .boolean
  | bang | minus => some .unary
  | leftParen => some .grouping
  | ifWord => some .conditional
  | fnWord => some .function
  | illegal => some .illegal
  | _ => none

def operator? : TokenKind → Option Operator
  | equal | notEqual => some ⟨.binary, .equals⟩
  | lessThan | greaterThan => some ⟨.binary, .lessGreater⟩
  | plus | minus => some ⟨.binary, .sum⟩
  | asterisk | slash => some ⟨.binary, .product⟩
  | leftParen => some ⟨.call, .call⟩
  | _ => none

/-- How tightly a token binds what stands before it. Those that are no operators do not. -/
def power (k : TokenKind) : BindingPower := k.operator?.elim .lowest Operator.power

end TokenKind

end ScriptReader
