import Mathlib.Data.List.Defs
import ScriptReader.Parser.Expression

/-! A reader as a machine: a lexer of which two tokens have been taken, a
counter for the nesting, the diagnostics kept so far and tables for what tokens
do. Its tasks change it by moves only, and the moves are written down. A task
need not come to an end. -/

namespace ScriptReader

/-- What the kinds of tokens do in expressions. -/
structure Tables where
  operands : List (TokenKind × OperandForm)
  operators : List (TokenKind × OperatorForm)
  powers : List (TokenKind × BindingPower)
deriving DecidableEq

namespace Tables

def standard : Tables where
  operands :=
    [(.identifier, .identifier), (.integer, .integer), (.trueWord, .boolean),
     (.falseWord, .boolean), (.illegal, .illegal), (.bang, .unary), (.minus, .unary),
     (.leftParen, .grouping), (.ifWord, .conditional), (.fnWord, .function)]
  operators :=
    [(.equal, .binary), (.notEqual, .binary), (.lessThan, .binary), (.greaterThan, .binary),
     (.plus, .binary), (.minus, .binary), (.asterisk, .binary), (.slash, .binary),
     (.leftParen, .call)]
  powers :=
    [(.equal, .equals), (.notEqual, .equals), (.lessThan, .lessGreater),
     (.greaterThan, .lessGreater), (.plus, .sum), (.minus, .sum), (.asterisk, .product),
     (.slash, .product), (.leftParen, .call)]

/-- How tightly a token binds what stands before it, which most do not. -/
def power (t : Tables) (k : TokenKind) : BindingPower := (t.powers.lookup k).getD .lowest

theorem standard_operands (k : TokenKind) : standard.operands.lookup k = k.operandForm? := by
  cases k <;> rfl

theorem standard_operators (k : TokenKind) :
    standard.operators.lookup k = k.operator?.map Operator.form := by
  cases k <;> rfl

theorem standard_power (k : TokenKind) : standard.power k = k.power := by
  cases k <;> rfl

end Tables

structure Machine where
  lexer : Lexer
  current : Token
  peek : Token
  diagnostics : List Diagnostic
  depth : Nat
  tables : Tables

namespace Machine

def ofLexer (l : Lexer) : Machine where
  lexer := l.next.2.next.2
  current := l.next.1
  peek := l.next.2.next.1
  diagnostics := []
  depth := 0
  tables := .standard

inductive Move where
  | advance
  | enter
  /-- Takes one off the depth, and does nothing if there is none. -/
  | leave
  | record (e : Diagnostic)
  /-- Forgets the diagnostics and the depth. -/
  | clear

def move (m : Machine) : Move → Machine
  | .advance => { m with lexer := m.lexer.next.2, current := m.peek, peek := m.lexer.next.1 }
  | .enter => { m with depth := m.depth + 1 }
  | .leave => { m with depth := m.depth - 1 }
  | .record e => { m with diagnostics := m.diagnostics ++ [e] }
  | .clear => { m with diagnostics := [], depth := 0 }

/-- The machine after moves, the first of which comes first. -/
def after (m : Machine) (ms : List Move) : Machine := ms.foldl move m

@[simp] theorem after_nil (m : Machine) : m.after [] = m := rfl

@[simp] theorem after_cons (m : Machine) (mv : Move) (ms : List Move) :
    m.after (mv :: ms) = (m.move mv).after ms := rfl

@[simp] theorem after_append (m : Machine) (ms ns : List Move) :
    m.after (ms ++ ns) = (m.after ms).after ns := List.foldl_append

/-- A machine and the moves that it has made. -/
structure Trail where
  machine : Machine
  moves : List Move

namespace Trail

def ofLexer (l : Lexer) : Trail := ⟨.ofLexer l, []⟩

def after (s : Trail) (ms : List Move) : Trail := ⟨s.machine.after ms, s.moves ++ ms⟩

@[simp] theorem machine_after (s : Trail) (ms : List Move) :
    (s.after ms).machine = s.machine.after ms := rfl

@[simp] theorem after_nil (s : Trail) : s.after [] = s := by
  simp [after]

@[simp] theorem after_after (s : Trail) (ms ns : List Move) :
    (s.after ms).after ns = s.after (ms ++ ns) := by
  simp [after]

end Trail

/-- What runs on a machine, perhaps for ever. -/
abbrev Run := StateT Trail Option

/-- A run that can fail. Where it fails, the machine is left as it is. -/
abbrev Task := ExceptT Diagnostic Run

namespace Task

variable {α β : Type}

def on (t : Task α) (s : Trail) : Option (Except Diagnostic α × Trail) := t.run.run s

theorem on_pure (a : α) (s : Trail) : (pure a : Task α).on s = some (.ok a, s) := rfl

theorem on_bind (t : Task α) (f : α → Task β) (s : Trail) :
    (t >>= f).on s =
      (t.on s).bind fun r =>
        match r with
        | (.ok a, s') => (f a).on s'
        | (.error e, s') => some (.error e, s') := by
  change (t.on s).bind _ = _
  congr 1
  funext ⟨r, s'⟩
  cases r <;> rfl

/-- Where the failure of a task is looked at, what comes behind is run all the same. -/
theorem on_caught (t : Task α) (f : Except Diagnostic α → Task β) (s : Trail) :
    Task.on (bind (m := Run) (α := Except Diagnostic α) t f) s =
      (t.on s).bind fun r => (f r.1).on r.2 := rfl

theorem bind_elim (t : Task (Option α)) (f : Option α → Task β) :
    t >>= f = t >>= fun o => o.elim (f none) fun a => f (some a) :=
  congrArg (t >>= ·) (funext fun o => by cases o <;> rfl)

end Task

/-! The steps of which tasks are made. -/

def make (mv : Move) : Task Unit := modify fun s => s.after [mv]

def look {α : Type} (v : Machine → α) : Task α := do
  let s ← get
  pure (v s.machine)

theorem on_look {α β : Type} (v : Machine → α) (f : α → Task β) (s : Trail) :
    (look v >>= f).on s = (f (v s.machine)).on s := rfl

theorem on_make (mv : Move) (s : Trail) : (make mv).on s = some (.ok (), s.after [mv]) := rfl

def currentToken : Task Token := look Machine.current

def peekToken : Task Token := look Machine.peek

def advance : Task Unit := make .advance

/-- Fails with a diagnostic at the place of a token. -/
def failAt {α : Type} (t : Token) (cause : Cause) : Task α := throw ⟨cause, t.span.start⟩

def expect (kind : TokenKind) : Task Token := do
  let t ← peekToken
  if t.kind = kind then
    advance
    currentToken
  else failAt t (.unexpected kind t.kind)

def accept (kind : TokenKind) : Task Bool := do
  let t ← peekToken
  if t.kind = kind then
    advance
    pure true
  else pure false

/-- One level of nesting more, if that is not too many. -/
def enter : Task Unit := do
  if Parser.maxNesting ≤ (← look Machine.depth) then
    failAt (← currentToken) (.tooDeep Parser.maxNesting)
  else make .enter

def operandForm? (k : TokenKind) : Task (Option OperandForm) :=
  look fun m => m.tables.operands.lookup k

def operatorForm? (k : TokenKind) : Task (Option OperatorForm) :=
  look fun m => m.tables.operators.lookup k

def powerOf (k : TokenKind) : Task BindingPower := look fun m => m.tables.power k

end Machine

end ScriptReader
