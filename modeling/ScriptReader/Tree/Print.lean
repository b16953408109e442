import ScriptReader.Text.Decimal
import ScriptReader.Tree.Basic

/-! Trees as text. Every operator is printed with its operands in parentheses,
so that the text does not depend on precedence. -/

namespace ScriptReader

open Text

/-- What stands behind a statement when another follows. The other statements
bring their semicolon along. -/
def Stmt.terminator : Stmt → String
  | .expression _ _ => ";"
  | _ => ""

mutual

def Expr.text : Expr → String
  | .identifier name => name.value
  | .integer _ value => decimal value
  | .boolean _ value => if value then "true" else "false"
  | .unary _ operator right => "(" ++ operator ++ right.text ++ ")"
  | .binary _ left operator right =>
    "(" ++ left.text ++ " " ++ operator ++ " " ++ right.text ++ ")"
  | .conditional _ condition consequence alternative =>
    "if (" ++ condition.text ++ ") " ++ consequence.text ++ alternativeText alternative
  | .function token parameters body =>
    token.text ++ "(" ++ ", ".intercalate (parameters.map Identifier.value) ++ ") " ++ body.text
  | .call _ callee arguments =>
    callee.text ++ "(" ++ ", ".intercalate (argumentTexts arguments) ++ ")"

def Stmt.text : Stmt → String
  | .define token name value => token.text ++ " " ++ name.value ++ " = " ++ value.text ++ ";"
  | .returning token value => token.text ++ " " ++ value.text ++ ";"
  | .expression _ expression => expression.text

def Block.text : Block → String
  | ⟨_, []⟩ => "\x7b \x7d"
  | ⟨_, s :: ss⟩ => "\x7b " ++ " ".intercalate (statementTexts (s :: ss)) ++ " \x7d"

def argumentTexts : List Expr → List String
  | [] => []
  | e :: es => e.text :: argumentTexts es

/-- The texts of statements in a row, each with what has to stand behind it there. -/
def statementTexts : List Stmt → List String
  | [] => []
  | s :: ss => (s.text ++ if ss.isEmpty then "" else s.terminator) :: statementTexts ss

def alternativeText : Option Block → String
  | none => ""
  | some block => " else " ++ block.text

end

def Program.text (p : Program) : String := String.join (statementTexts p.statements)

theorem argumentTexts_eq_map (es : List Expr) : argumentTexts es = es.map Expr.text := by
  induction es with
  | nil => rfl
  | cons e es ih => simp [argumentTexts, ih]

end ScriptReader
