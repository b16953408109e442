import ScriptReader.Parser.Operand

/-! Trees of the language, however they came about, and how deep their
expressions lie within one another when they are printed. -/

namespace ScriptReader

/-- A word, and not a reserved one. -/
def Identifier.WellFormed (i : Identifier) : Prop :=
  i.value ≠ "" ∧ (∀ c ∈ i.value.toList, isWordChar c = true) ∧
    i.value ∉ TokenKind.reservedWords.map Prod.fst

def unaryOperators : List (String × TokenKind) := [("!", .bang), ("-", .minus)]

def binaryOperators : List (String × TokenKind) :=
  [("+", .plus), ("-", .minus), ("*", .asterisk), ("/", .slash), ("<", .lessThan),
   (">", .greaterThan), ("==", .equal), ("!=", .notEqual)]

mutual

def Expr.WellFormed : Expr → Prop
  | .identifier name => name.WellFormed
  | .integer _ value => 0 ≤ value ∧ value ≤ Parser.maxInteger
  | .boolean _ _ => True
  | .unary _ operator right => operator ∈ unaryOperators.map Prod.fst ∧ right.WellFormed
  | .binary _ left operator right =>
    left.WellFormed ∧ operator ∈ binaryOperators.map Prod.fst ∧ right.WellFormed
  | .conditional _ condition consequence alternative =>
    condition.WellFormed ∧ consequence.WellFormed ∧ wellFormedAlternative alternative
  | .function token parameters body =>
    token.text = "fn" ∧ (∀ p ∈ parameters, p.WellFormed) ∧ body.WellFormed
  | .call _ callee arguments => callee.WellFormed ∧ wellFormedArguments arguments

def Stmt.WellFormed : Stmt → Prop
  | .define token name value => token.text = "let" ∧ name.WellFormed ∧ value.WellFormed
  | .returning token value => token.text = "return" ∧ value.WellFormed
  | .expression _ expression => expression.WellFormed

def Block.WellFormed : Block → Prop
  | ⟨_, statements⟩ => wellFormedStatements statements

def wellFormedArguments : List Expr → Prop
  | [] => True
  | e :: es => e.WellFormed ∧ wellFormedArguments es

def wellFormedStatements : List Stmt → Prop
  | [] => True
  | s :: ss => s.WellFormed ∧ wellFormedStatements ss

def wellFormedAlternative : Option Block → Prop
  | none => True
  | some b => b.WellFormed

end

theorem wellFormedStatements_iff {ss : List Stmt} :
    wellFormedStatements ss ↔ ∀ s ∈ ss, s.WellFormed := by
  induction ss with
  | nil => simp [wellFormedStatements]
  | cons s ss ih => rw [wellFormedStatements, ih, List.forall_mem_cons]

def Program.WellFormed (p : Program) : Prop := ∀ s ∈ p.statements, s.WellFormed

/-! The nesting of printed trees. Operators are printed in parentheses, which
make one level of their own. -/

mutual

def Expr.nesting : Expr → Nat
  | .identifier _ | .integer _ _ | .boolean _ _ => 1
  | .unary _ _ right => 2 + right.nesting
  | .binary _ left _ right => max (1 + left.nesting) (2 + right.nesting)
  | .conditional _ condition consequence alternative =>
    1 + max condition.nesting (max consequence.nesting (nestingAlternative alternative))
  | .function _ _ body => 1 + body.nesting
  | .call _ callee [] => callee.nesting
  | .call _ callee (e :: es) => max callee.nesting (1 + nestingArguments (e :: es))

def Stmt.nesting : Stmt → Nat
  | .define _ _ value => value.nesting
  | .returning _ value => value.nesting
  | .expression _ expression => expression.nesting

def Block.nesting : Block → Nat
  | ⟨_, statements⟩ => nestingStatements statements

def nestingArguments : List Expr → Nat
  | [] => 0
  | e :: es => max e.nesting (nestingArguments es)

def nestingStatements : List Stmt → Nat
  | [] => 0
  | s :: ss => max s.nesting (nestingStatements ss)

def nestingAlternative : Option Block → Nat
  | none => 0
  | some b => b.nesting

end

theorem nestingStatements_le_iff {ss : List Stmt} {n : Nat} :
    nestingStatements ss ≤ n ↔ ∀ s ∈ ss, s.nesting ≤ n := by
  induction ss with
  | nil => simp [nestingStatements]
  | cons s ss ih => rw [nestingStatements, Nat.max_le, ih, List.forall_mem_cons]

end ScriptReader
