import ScriptReader.Parser.Session
import ScriptReader.Proofs.Machine.Programs

/-! Reading by hand on the machine. Operations of every kind may follow one
another, whether they succeed or fail, and leave a machine that reads on as a new
one would from the same place. -/

namespace ScriptReader

/-- What may be asked of a reader, whatever its current token is. -/
inductive Operation where
  | advance
  | expect (kind : TokenKind)
  | program
  | statement
  | define
  | returning
  | expressionStatement
  | block
  | expression (power : BindingPower)
  /-- An expression that is not counted as a level of its own. -/
  | nested (power : BindingPower)
  | identifier
  | integer
  | boolean
  | illegal
  | unary
  | grouping
  | conditional
  | function
  | binary (left : Expr) (power : BindingPower)
  | call (left : Expr) (power : BindingPower)

inductive Answer where
  | done
  | token (t : Token)
  | program (p : Program)
  | statement (s : Stmt)
  | block (b : Block)
  | expression (e : Expr)

namespace Operation

/-- The parser that an operation runs, given how expressions are read. Whole programs are not read
by one. -/
def parser? (expr : BindingPower → Parser Expr) : Operation → Option (Parser Answer)
  | program => none
  | advance => some do Parser.advance; pure .done
  | expect kind => some do return .token (← Parser.expect kind)
  | statement => some do return .statement (← Parser.statement expr)
  | define => some do return .statement (← Parser.define expr)
  | returning => some do return .statement (← Parser.returning expr)
  | expressionStatement => some do return .statement (← Parser.expressionStatement expr)
  | block => some do return .block (← Parser.block expr)
  | expression power => some do return .expression (← expr power)
  | nested power => some do
    return .expression (← Parser.operand expr >>= Parser.operations expr power)
  | identifier => some do return .expression (← Parser.identifier)
  | integer => some do return .expression (← Parser.integer)
  | boolean => some do return .expression (← Parser.boolean)
  | illegal => some do return .expression (← Parser.illegal)
  | unary => some do return .expression (← Parser.unary expr)
  | grouping => some do return .expression (← Parser.grouping expr)
  | conditional => some do return .expression (← Parser.conditional expr)
  | function => some do return .expression (← Parser.function expr)
  | binary left power => some do return .expression (← Parser.binary expr left power)
  | call left _ => some do return .expression (← Parser.call expr left)

def task : Operation → Machine.Task Answer
  | program => do return .program (← Machine.Procedure.program.task)
  | advance => do Machine.advance; pure .done
  | expect kind => do return .token (← Machine.expect kind)
  | statement => do return .statement (← Machine.Procedure.statement.task)
  | define => do return .statement (← Machine.Procedure.define.task)
  | returning => do return .statement (← Machine.Procedure.returning.task)
  | expressionStatement => do return .statement (← Machine.Procedure.expressionStatement.task)
  | block => do return .block (← Machine.Procedure.block.task)
  | expression power => do return .expression (← (Machine.Procedure.expression power).task)
  | nested power => do return .expression (← (Machine.Procedure.nested power).task)
  | identifier => do return .expression (← Machine.Procedure.identifier.task)
  | integer => do return .expression (← Machine.Procedure.integer.task)
  | boolean => do return .expression (← Machine.Procedure.boolean.task)
  | illegal => do return .expression (← Machine.Procedure.illegal.task)
  | unary => do return .expression (← Machine.Procedure.unary.task)
  | grouping => do return .expression (← Machine.Procedure.grouping.task)
  | conditional => do return .expression (← Machine.Procedure.conditional.task)
  | function => do return .expression (← Machine.Procedure.function.task)
  | binary left power => do return .expression (← (Machine.Procedure.binary left power).task)
  | call left power => do return .expression (← (Machine.Procedure.call left power).task)

end Operation

namespace Session

def perform (s : Session) (op : Operation) : Except Diagnostic Answer × Session :=
  match op.parser? Parser.expression with
  | some p => s.run p
  | none => (.ok (.program s.readProgram.1), s.readProgram.2)

/-- The answers to operations in a row. One that fails does not keep the others from being
performed. -/
def performAll (s : Session) : List Operation → List (Except Diagnostic Answer) × Session
  | [] => ([], s)
  | op :: ops =>
    let r := s.perform op
    let rs := r.2.performAll ops
    (r.1 :: rs.1, rs.2)

end Session

namespace Machine

open Procedure

def performAll : List Operation → Run (List (Except Diagnostic Answer))
  | [] => pure []
  | op :: ops => do
    let r ← op.task.run
    let rs ← performAll ops
    pure (r :: rs)

variable {l : Lexer} {k i : Nat} {s : Trail}

theorem simulates_operation {expr : BindingPower → Parser Expr}
    (h : ∀ power, Simulates l k (expression power).task (expr power)) {op : Operation}
    {p : Parser Answer} (hp : op.parser? expr = some p) : Simulates l k op.task p := by
  cases op <;> cases hp
  case advance => exact .advance (.pure Answer.done)
  case expect kind => exact .bind (.expect kind) fun _ => .pure _
  case statement => exact .bind (simulates_statement h) fun _ => .pure _
  case define => exact .bind (simulates_define h) fun _ => .pure _
  case returning => exact .bind (simulates_returning h) fun _ => .pure _
  case expressionStatement => exact .bind (simulates_expressionStatement h) fun _ => .pure _
  case block => exact .bind (simulates_block h) fun _ => .pure _
  case expression power => exact .bind (h power) fun _ => .pure _
  case nested power => exact .bind (simulates_nested h power) fun _ => .pure _
  case identifier => exact .bind simulates_identifier fun _ => .pure _
  case integer => exact .bind simulates_integer fun _ => .pure _
  case boolean => exact .bind simulates_boolean fun _ => .pure _
  case illegal => exact .bind simulates_illegal fun _ => .pure _
  case unary => exact .bind (simulates_unary h) fun _ => .pure _
  case grouping => exact .bind (simulates_grouping h) fun _ => .pure _
  case conditional => exact .bind (simulates_conditional h) fun _ => .pure _
  case function => exact .bind (simulates_function h) fun _ => .pure _
  case binary left power => exact .bind (simulates_binary h left power) fun _ => .pure _
  case call left power => exact .bind (simulates_call h left power) fun _ => .pure _

theorem parser?_eq_none_iff {expr : BindingPower → Parser Expr} {op : Operation} :
    op.parser? expr = none ↔ op = .program := by
  cases op <;> simp [Operation.parser?]

/-- An operation other than the reading of a whole program comes to an end, at the depth at which it
began, and answers as the parser does. -/
theorem on_operation {n : Nat} (hs : s.machine.At l i k) (hn : k + n = Parser.maxNesting)
    {op : Operation} {p : Parser Answer} (hp : op.parser? (Parser.expressionWithin n) = some p) :
    ∃ ms, Balanced k ms ∧ op.task.on s = some ((p.run (l.cursorAt i)).result, s.after ms) ∧
      (p.run (l.cursorAt i)).cursor = l.cursorAt (i + steps ms) :=
  simulates_operation (simulates_expression n hn) hp i s hs

theorem on_program_task (hs : s.machine.At l i k) :
    ∃ ms, Records l i (s.machine.move .clear) ms
        (Report.ofTurns (turns (l.cursorAt i))).diagnostics ∧
      Operation.program.task.on s =
        some (.ok (.program (Report.ofTurns (turns (l.cursorAt i))).program),
          s.after (.clear :: ms)) ∧
      (l.cursorAt i).finish = l.cursorAt (i + steps ms) := by
  obtain ⟨ms, hms, hprogram, hfinish⟩ := on_program hs
  refine ⟨ms, hms, ?_, hfinish⟩
  rw [Operation.task, Task.on_bind, hprogram]
  rfl

/-- The machine is where the session is, and keeps the same diagnostics. -/
structure Shows (l : Lexer) (i : Nat) (m : Machine) (session : Session) : Prop where
  place : m.At l i 0
  cursor : session.cursor = l.cursorAt i
  diagnostics : session.diagnostics = m.diagnostics

/-- Whatever the depth is at which an operation begins, it ends there. On the way it changes no
diagnostics, unless it reads a whole program. -/
theorem task_returns {op : Operation} (hs : s.machine.At l i k) (hk : k ≤ Parser.maxNesting)
    (hprogram : op = .program → k = 0) :
    ∃ r ms, op.task.on s = some (r, s.after ms) ∧ (s.machine.after ms).At l (i + steps ms) k ∧
      Steady l i s.machine ms ∧ (op ≠ .program → Quiet ms) := by
  cases hp : op.parser? (Parser.expressionWithin (Parser.maxNesting - k)) with
  | some p =>
    obtain ⟨ms, hms, ht, -⟩ := on_operation hs (Nat.add_sub_of_le hk) hp
    exact ⟨_, ms, ht, hms.after hs, hms.steady hk hs, fun _ => hms.quiet⟩
  | none =>
    -- The reading of a program sets the depth to 0 and so ends where it began only there.
    have hop := parser?_eq_none_iff.mp hp
    obtain rfl := hprogram hop
    obtain ⟨ms, hms, ht, -⟩ := on_program_task hs
    exact ⟨_, .clear :: ms, hop ▸ ht, hms.place, (Steady.clear hs hk).append hms.steady,
      fun hne => absurd hop hne⟩

theorem on_task {session : Session} (hs : Shows l i s.machine session) (op : Operation) :
    ∃ ms, op.task.on s = some ((session.perform op).1, s.after ms) ∧
      Shows l (i + steps ms) (s.after ms).machine (session.perform op).2 ∧
      Steady l i s.machine ms := by
  cases hp : op.parser? Parser.expression with
  | some p =>
    obtain ⟨ms, hms, ht, hc⟩ := on_operation hs.place (Nat.zero_add _) hp
    refine ⟨ms, ?_, ⟨hms.after hs.place, ?_, ?_⟩, hms.steady (Nat.zero_le _) hs.place⟩
    · rw [ht, Session.perform, hp, ← hs.cursor]
      rfl
    · rw [Session.perform, hp, ← hc, ← hs.cursor]
      rfl
    · rw [Session.perform, hp, Trail.machine_after, hms.quiet.diagnostics_after]
      exact hs.diagnostics
  | none =>
    obtain rfl := parser?_eq_none_iff.mp hp
    obtain ⟨ms, hms, ht, hfinish⟩ := on_program_task hs.place
    refine ⟨.clear :: ms, ?_, ⟨hms.place, ?_, ?_⟩,
      (Steady.clear hs.place (Nat.zero_le _)).append hms.steady⟩
    · rw [ht, ← hs.cursor]
      rfl
    · rw [steps_clear, ← hfinish, ← hs.cursor]
      rfl
    · exact (hs.cursor ▸ hms.diagnostics).symm

theorem on_performAll {session : Session} (hs : Shows l i s.machine session)
    (ops : List Operation) :
    ∃ ms, (performAll ops).run s = some ((session.performAll ops).1, s.after ms) ∧
      Shows l (i + steps ms) (s.after ms).machine (session.performAll ops).2 ∧
      Steady l i s.machine ms := by
  induction ops generalizing i s session with
  | nil =>
    refine ⟨[], ?_, hs, .nil hs.place (Nat.zero_le _)⟩
    rw [Trail.after_nil]
    rfl
  | cons op ops ih =>
    obtain ⟨ms, hop, hms, hsteady⟩ := on_task hs op
    obtain ⟨ns, hops, hns, hsteady'⟩ := ih hms
    refine ⟨ms ++ ns, ?_, ?_, hsteady.append hsteady'⟩
    · change (op.task.on s).bind _ = _
      rw [hop]
      change ((performAll ops).run (s.after ms)).bind _ = _
      rw [hops, Trail.after_after]
      rfl
    · rw [steps_append, ← Nat.add_assoc, ← Trail.after_after]
      exact hns

theorem token_skip (l : Lexer) (n i : Nat) : (l.skip n).token i = l.token (n + i) := by
  rw [Lexer.token, Lexer.skip_skip]
  rfl

/-- Any operations, in any order and whether they succeed or not, come to an end with the answers
that a session gives. At every moment between the tokens of the source are two side by side in view,
the depth is at most the greatest, no level is counted off where there is none, and the tables are
those of the beginning. Every single operation goes on and never back, ends at the depth at which it
began, and leaves the diagnostics alone on its way unless it reads a whole program. So a program
that is read afterwards is that which a new machine reads from there on. -/
theorem performAll_coherent (source : String) (file : Option String) (n : Nat)
    (ops : List Operation) :
    let l : Lexer := (Lexer.ofSource source file).skip n
    (∀ i, l.token i = (tokenize source file).getD (n + i) (Lexer.ofSource source file).endToken) ∧
    (∃ ms,
      let m := (ofLexer l).after ms
      let session := ((Session.ofLexer l).performAll ops).2
      (performAll ops).run (.ofLexer l) =
          some (((Session.ofLexer l).performAll ops).1, (Trail.ofLexer l).after ms) ∧
        m.At l (steps ms) 0 ∧ session.cursor = l.cursorAt (steps ms) ∧
        session.diagnostics = m.diagnostics ∧
        (∀ pre post, ms = pre ++ post →
          ∃ d, ((ofLexer l).after pre).At l (steps pre) d ∧ d ≤ 256 ∧
            (post.head? = some .leave → 0 < d)) ∧
        ∃ p s s', program.task.on ((Trail.ofLexer l).after ms) = some (.ok p, s) ∧
          program.task.on (.ofLexer (l.skip (steps ms))) = some (.ok p, s') ∧
          s.machine.diagnostics = s'.machine.diagnostics ∧
          Report.ofLexer (l.skip (steps ms)) = ⟨p, s.machine.diagnostics⟩) ∧
    ∀ (op : Operation) (s : Trail) (i k : Nat), s.machine.At l i k → k ≤ 256 →
      (op = .program → k = 0) →
      ∃ r ms, op.task.on s = some (r, s.after ms) ∧ (s.machine.after ms).At l (i + steps ms) k ∧
        ∀ pre post, ms = pre ++ post →
          ∃ d, (s.machine.after pre).At l (i + steps pre) d ∧ d ≤ 256 ∧
            (post.head? = some .leave → 0 < d) ∧
            (op ≠ .program → (s.machine.after pre).diagnostics = s.machine.diagnostics) := by
  intro l
  refine ⟨fun i => ?_, ?_, fun op s i k hs hk hprogram => ?_⟩
  · rw [token_skip, Lexer.token, Lexer.next_skip, tokenize, getD_concat]
  · have hstart : Shows l 0 (ofLexer l) (.ofLexer l) := ⟨at_ofLexer l, rfl, rfl⟩
    obtain ⟨ms, hrun, hms, hsteady⟩ := on_performAll (s := .ofLexer l) hstart ops
    rw [Nat.zero_add] at hms
    refine ⟨ms, hrun, hms.place, hms.cursor, hms.diagnostics, fun pre post h => ?_, ?_⟩
    · obtain ⟨d, hd, h⟩ := hsteady pre post h
      rw [Nat.zero_add] at hd
      exact ⟨d, hd, h⟩
    · obtain ⟨ns, hns, hread, -⟩ := on_program hms.place
      obtain ⟨ns', hns', hread', -⟩ := on_program (s := .ofLexer (l.skip (steps ms)))
        (at_ofLexer (l.skip (steps ms)))
      have hkept : _ = (Report.ofLexer (l.skip (steps ms))).diagnostics := hns.diagnostics
      have hkept' : _ = (Report.ofLexer (l.skip (steps ms))).diagnostics := hns'.diagnostics
      refine ⟨_, _, _, hread, hread', hkept.trans hkept'.symm, ?_⟩
      rw [Trail.machine_after, after_cons, hkept]
      rfl
  · obtain ⟨r, ms, ht, hat, hsteady, hquiet⟩ := task_returns hs hk hprogram
    refine ⟨r, ms, ht, hat, fun pre post h => ?_⟩
    obtain ⟨d, hd, hle, hleave⟩ := hsteady pre post h
    refine ⟨d, hd, hle, hleave, fun hop => Quiet.diagnostics_after (fun mv hmv => ?_) _⟩
    exact hquiet hop mv (h ▸ List.mem_append_left _ hmv)

end Machine

end ScriptReader
