import ScriptReader.Proofs.Machine.Basic

/-! The procedures of the machine. They call one another without any bound, and
nothing but the depth that the machine counts stops them. -/

namespace ScriptReader

namespace Machine

/-- A procedure, with what it is given, and what it gives. -/
inductive Procedure : Type → Type where
  | identifier : Procedure Expr
  | integer : Procedure Expr
  | boolean : Procedure Expr
  | illegal : Procedure Expr
  | unary : Procedure Expr
  | grouping : Procedure Expr
  | conditional : Procedure Expr
  | function : Procedure Expr
  | parameters : Procedure (List Token)
  | parametersFrom (ts : List Token) : Procedure (List Token)
  | parameter? : Procedure (Option Token)
  | operand : Procedure Expr
  /-- Counts one level more for as long as the expression is read, whether or not that succeeds. -/
  | expression (power : BindingPower) : Procedure Expr
  | nested (power : BindingPower) : Procedure Expr
  | operationsFrom (power : BindingPower) (left : Expr) : Procedure Expr
  /-- The next operator and its right side, if it binds tighter than `power`. -/
  | operation? (power : BindingPower) (left : Expr) : Procedure (Option Expr)
  | binary (left : Expr) (power : BindingPower) : Procedure Expr
  /-- A call, whatever the power is. -/
  | call (left : Expr) (power : BindingPower) : Procedure Expr
  | arguments : Procedure (List Expr)
  | argumentsFrom (es : List Expr) : Procedure (List Expr)
  | argument? : Procedure (Option Expr)
  | argument : Procedure Expr
  | statement : Procedure Stmt
  | define : Procedure Stmt
  | returning : Procedure Stmt
  | expressionStatement : Procedure Stmt
  | block : Procedure Block
  | statementsFrom (ss : List Stmt) : Procedure (List Stmt)
  /-- The next statement of a block and the step behind it, unless the block ends. -/
  | statement? : Procedure (Option Stmt)
  | skipStatement : Procedure Unit
  | recover (e : Diagnostic) : Procedure Unit
  /-- One statement, or a diagnostic in its place, which is kept. -/
  | turn : Procedure (Option Stmt)
  | turnsFrom (ss : List Stmt) : Procedure (List Stmt)
  | program : Procedure Program

namespace Procedure

def task {α : Type} (p : Procedure α) : Task α :=
  match p with
  | identifier => do
    let token ← currentToken
    pure (.identifier (.ofToken token))
  | integer => do
    let token ← currentToken
    match Parser.integerValue? token.text with
    | some value => pure (.integer token value)
    | none => failAt token (.badNumber token.text)
  | boolean => do
    let token ← currentToken
    pure (.boolean token (token.kind = .trueWord))
  | illegal => do
    let token ← currentToken
    failAt token (.unrecognised token.text)
  | unary => do
    let token ← currentToken
    advance
    let right ← expression .unary |>.task
    pure (.unary token token.text right)
  | grouping => do
    advance
    let inner ← expression .lowest |>.task
    let _ ← expect .rightParen
    pure inner
  | conditional => do
    let token ← currentToken
    let _ ← expect .leftParen
    advance
    let condition ← expression .lowest |>.task
    let _ ← expect .rightParen
    let _ ← expect .leftBrace
    let consequence ← block |>.task
    if ← accept .elseWord then
      let _ ← expect .leftBrace
      let alternative ← block |>.task
      pure (.conditional token condition consequence (some alternative))
    else pure (.conditional token condition consequence none)
  | function => do
    let token ← currentToken
    let _ ← expect .leftParen
    let ts ← parameters |>.task
    let _ ← expect .leftBrace
    let body ← block |>.task
    pure (.function token (ts.map .ofToken) body)
  | parameters => do
    if ← accept .rightParen then pure []
    else
      let first ← expect .identifier
      let ts ← parametersFrom [first] |>.task
      let _ ← expect .rightParen
      pure ts
  | parametersFrom ts => do
    match ← parameter? |>.task with
    | some t => parametersFrom (ts ++ [t]) |>.task
    | none => pure ts
  | parameter? => do
    if (← peekToken).kind = .comma then
      advance
      let t ← expect .identifier
      pure (some t)
    else pure none
  | operand => do
    let t ← currentToken
    match ← operandForm? t.kind with
    | some .identifier => identifier |>.task
    | some .integer => integer |>.task
    | some .boolean => boolean |>.task
    | some .unary => unary |>.task
    | some .grouping => grouping |>.task
    | some .conditional => conditional |>.task
    | some .function => function |>.task
    | some .illegal => illegal |>.task
    | none => failAt t (.noOperand t.kind)
  | expression power => do
    enter
    (do
      let r ← (nested power |>.task : Run (Except Diagnostic Expr))
      (modify fun s => s.after [.leave] : Run Unit)
      pure r : Run (Except Diagnostic Expr))
  | nested power => do
    let left ← operand |>.task
    operationsFrom power left |>.task
  | operationsFrom power left => do
    match ← operation? power left |>.task with
    | some e => operationsFrom power e |>.task
    | none => pure left
  | operation? power left => do
    let t ← peekToken
    if t.kind ≠ .semicolon ∧ power < (← powerOf t.kind) then
      match ← operatorForm? t.kind with
      | none => pure none
      | some form =>
        advance
        let operator ← currentToken
        let operatorPower ← powerOf operator.kind
        match form with
        | .binary =>
          let e ← binary left operatorPower |>.task
          pure (some e)
        | .call =>
          let e ← call left operatorPower |>.task
          pure (some e)
    else pure none
  | binary left power => do
    let token ← currentToken
    advance
    let right ← expression power |>.task
    pure (.binary token left token.text right)
  | call left _ => do
    let token ← currentToken
    let es ← arguments |>.task
    pure (.call token left es)
  | arguments => do
    if ← accept .rightParen then pure []
    else
      let first ← argument |>.task
      let es ← argumentsFrom [first] |>.task
      let _ ← expect .rightParen
      pure es
  | argumentsFrom es => do
    match ← argument? |>.task with
    | some e => argumentsFrom (es ++ [e]) |>.task
    | none => pure es
  | argument? => do
    if (← peekToken).kind = .comma then
      advance
      let e ← argument |>.task
      pure (some e)
    else pure none
  | argument => do
    advance
    expression .lowest |>.task
  | statement => do
    match (← currentToken).kind with
    | .letWord => define |>.task
    | .returnWord => returning |>.task
    | _ => expressionStatement |>.task
  | define => do
    let token ← currentToken
    let name ← expect .identifier
    let _ ← expect .assign
    advance
    let value ← expression .lowest |>.task
    let _ ← accept .semicolon
    pure (.define token (.ofToken name) value)
  | returning => do
    let token ← currentToken
    advance
    let value ← expression .lowest |>.task
    let _ ← accept .semicolon
    pure (.returning token value)
  | expressionStatement => do
    let token ← currentToken
    let e ← expression .lowest |>.task
    let _ ← accept .semicolon
    pure (.expression token e)
  | block => do
    let token ← currentToken
    advance
    let ss ← statementsFrom [] |>.task
    pure ⟨token, ss⟩
  | statementsFrom ss => do
    match ← statement? |>.task with
    | some s => statementsFrom (ss ++ [s]) |>.task
    | none => pure ss
  | statement? => do
    let t ← currentToken
    if t.kind = .rightBrace then pure none
    else if t.kind = .eof then failAt t (.unexpected .rightBrace .eof)
    else
      let s ← statement |>.task
      advance
      pure (some s)
  | skipStatement => do
    if (← currentToken).isOneOf [.semicolon, .eof] then pure ()
    else
      advance
      skipStatement |>.task
  | recover e =>
    match e.cause with
    | .tooDeep _ => skipStatement |>.task
    | _ => pure ()
  | turn =>
    (do
      let r ← (statement |>.task : Run (Except Diagnostic Stmt))
      match r with
      | .ok s =>
        (do
          advance
          pure (some s) : Task (Option Stmt))
      | .error e =>
        (do
          recover e |>.task
          make (.record e)
          advance
          pure none : Task (Option Stmt)) : Run (Except Diagnostic (Option Stmt)))
  | turnsFrom ss => do
    if (← currentToken).kind = .eof then pure ss
    else
      let s ← turn |>.task
      turnsFrom (ss ++ s.toList) |>.task
  | program => do
    make .clear
    let ss ← turnsFrom [] |>.task
    pure ⟨ss⟩
partial_fixpoint

/-! The loops, each of which begins again with what its turn gives. -/

theorem task_parametersFrom (ts : List Token) :
    (parametersFrom ts).task =
      parameter?.task >>= fun o => o.elim (pure ts) fun t => (parametersFrom (ts ++ [t])).task := by
  rw [task, Task.bind_elim]

theorem task_argumentsFrom (es : List Expr) :
    (argumentsFrom es).task =
      argument?.task >>= fun o => o.elim (pure es) fun e => (argumentsFrom (es ++ [e])).task := by
  rw [task, Task.bind_elim]

theorem task_statementsFrom (ss : List Stmt) :
    (statementsFrom ss).task =
      statement?.task >>= fun o => o.elim (pure ss) fun s => (statementsFrom (ss ++ [s])).task := by
  rw [task, Task.bind_elim]

theorem task_operationsFrom (power : BindingPower) (left : Expr) :
    (operationsFrom power left).task =
      (operation? power left).task >>= fun o =>
        o.elim (pure left) fun e => (operationsFrom power e).task := by
  rw [task, Task.bind_elim]

end Procedure

end Machine

end ScriptReader
