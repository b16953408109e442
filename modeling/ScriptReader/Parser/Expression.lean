import ScriptReader.Parser.Operand
import ScriptReader.Parser.Operation

/-! Reading expressions: an operand and the operators behind it. Each expression
within another takes one off the nesting that is left. -/

namespace ScriptReader.Parser

/-- How many expressions there may be within one another. -/
def maxNesting : Nat := 256

/-- An expression up to operators that bind no tighter than `power`, with at most
`nesting` expressions within one another. -/
def expressionWithin : (nesting : Nat) → (power : BindingPower) → Parser Expr
  | 0, _ => do
    let t ← current
    failAt t (.tooDeep maxNesting)
  | nesting + 1, power => do
    let left ← operand (expressionWithin nesting)
    operations (expressionWithin nesting) power left

def expression : BindingPower → Parser Expr := expressionWithin maxNesting

end ScriptReader.Parser
