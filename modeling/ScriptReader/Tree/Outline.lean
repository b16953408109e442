import ScriptReader.Tree.Print

/-! A tree as the list of its nodes, each before the nodes below it. An entry
says how deep its node lies and which part it plays in the node above. -/

namespace ScriptReader

/-- A node of a tree. The names that statements define and functions take are
nodes like the identifiers in expressions. -/
inductive Node where
  | expr (e : Expr)
  | stmt (s : Stmt)
  | block (b : Block)

def Node.token : Node → Token
  | expr e => e.token
  | stmt s => s.token
  | block b => b.token

def Node.text : Node → String
  | expr e => e.text
  | stmt s => s.text
  | block b => b.text

/-- The part that a node plays in the node above it, or as the root. -/
inductive Role where
  | stmt
  | expr
  | block
  | name
  | value
  | expression
  | right
  | left
  | condition
  | consequence
  | alternative
  | param
  | body
  | function
  | arg
deriving DecidableEq, Repr

structure Entry where
  depth : Nat
  role : Role
  node : Node

def Identifier.entry (depth : Nat) (role : Role) (name : Identifier) : Entry :=
  ⟨depth, role, .expr (.identifier name)⟩

mutual

def Expr.outline (depth : Nat) (role : Role) (e : Expr) : List Entry :=
  ⟨depth, role, .expr e⟩ ::
    match e with
    | .identifier _ | .integer _ _ | .boolean _ _ => []
    | .unary _ _ right => right.outline (depth + 1) .right
    | .binary _ left _ right => left.outline (depth + 1) .left ++ right.outline (depth + 1) .right
    | .conditional _ condition consequence alternative =>
      condition.outline (depth + 1) .condition ++ consequence.outline (depth + 1) .consequence ++
        outlineAlternative (depth + 1) alternative
    | .function _ parameters body =>
      parameters.map (Identifier.entry (depth + 1) .param) ++ body.outline (depth + 1) .body
    | .call _ callee arguments =>
      callee.outline (depth + 1) .function ++ outlineArguments (depth + 1) arguments

def Stmt.outline (depth : Nat) (role : Role) (s : Stmt) : List Entry :=
  ⟨depth, role, .stmt s⟩ ::
    match s with
    | .define _ name value =>
      name.entry (depth + 1) .name :: value.outline (depth + 1) .value
    | .returning _ value => value.outline (depth + 1) .value
    | .expression _ expression => expression.outline (depth + 1) .expression

def Block.outline (depth : Nat) (role : Role) (b : Block) : List Entry :=
  ⟨depth, role, .block b⟩ ::
    match b with
    | ⟨_, statements⟩ => outlineStatements (depth + 1) statements

def outlineArguments (depth : Nat) : List Expr → List Entry
  | [] => []
  | e :: es => e.outline depth .arg ++ outlineArguments depth es

def outlineStatements (depth : Nat) : List Stmt → List Entry
  | [] => []
  | s :: ss => s.outline depth .stmt ++ outlineStatements depth ss

def outlineAlternative (depth : Nat) : Option Block → List Entry
  | none => []
  | some b => b.outline depth .alternative

end

/-- The nodes of a program, which is itself none. -/
def Program.outline (p : Program) : List Entry := outlineStatements 0 p.statements

end ScriptReader
