import ScriptReader.Proofs.Machine.Procedures
import ScriptReader.Proofs.Machine.Simulation

/-! The procedures of the machine do what the parsers of the same names do. The depth
that is counted and the nesting that is left make up the greatest depth. -/

namespace ScriptReader

namespace Machine

namespace Procedure

open ScriptReader.Parser (bind_current)

variable {l : Lexer} {k : Nat}

theorem simulates_identifier : Simulates l k identifier.task Parser.identifier := by
  rw [task]
  exact .currentToken fun _ => .pure _

theorem simulates_integer : Simulates l k integer.task Parser.integer := by
  rw [task]
  refine .currentToken fun u => ?_
  cases Parser.integerValue? u.text with
  | some value => exact .pure _
  | none => exact .failAt

theorem simulates_boolean : Simulates l k boolean.task Parser.boolean := by
  rw [task]
  exact .currentToken fun _ => .pure _

theorem simulates_illegal : Simulates l k illegal.task Parser.illegal := by
  rw [task]
  exact .currentToken fun _ => .failAt

theorem simulates_parameter? :
    Simulates l k parameter?.task (Parser.commaItem (Parser.expect .identifier)) := by
  rw [task]
  exact .commaItem (.expect .identifier)

theorem simulates_parametersFrom (ts : List Token) :
    Simulates l k (parametersFrom ts).task (do
      let us ← Parser.many (Parser.commaItem (Parser.expect .identifier))
        (Parser.commaItem_advances _)
      pure (ts ++ us)) :=
  .many simulates_parameter? _ task_parametersFrom ts

theorem simulates_parameters :
    Simulates l k parameters.task (Parser.commaList (Parser.expect .identifier)) := by
  rw [task]
  exact .commaList (.expect .identifier) simulates_parametersFrom

section Readers

variable {expr : BindingPower → Parser Expr}
variable (h : ∀ power, Simulates l k (expression power).task (expr power))

include h

theorem simulates_define : Simulates l k define.task (Parser.define expr) := by
  rw [task]
  refine .currentToken fun token => .bind (.expect .identifier) fun name => ?_
  refine .bind (.expect .assign) fun _ => .advance (.bind (h .lowest) fun value => ?_)
  exact .bind (.accept .semicolon) fun _ => .pure _

theorem simulates_returning : Simulates l k returning.task (Parser.returning expr) := by
  rw [task]
  refine .currentToken fun token => .advance (.bind (h .lowest) fun value => ?_)
  exact .bind (.accept .semicolon) fun _ => .pure _

theorem simulates_expressionStatement :
    Simulates l k expressionStatement.task (Parser.expressionStatement expr) := by
  rw [task]
  refine .currentToken fun token => .bind (h .lowest) fun e => ?_
  exact .bind (.accept .semicolon) fun _ => .pure _

theorem simulates_statement : Simulates l k statement.task (Parser.statement expr) := by
  rw [task]
  refine .currentToken fun u => ?_
  cases u.kind with
  | letWord => exact simulates_define h
  | returnWord => exact simulates_returning h
  | _ => exact simulates_expressionStatement h

theorem simulates_statement? : Simulates l k statement?.task (Parser.blockItem expr) := by
  rw [task]
  refine .currentToken fun u => .ite (.pure none) ?_
  by_cases hend : u.kind = .eof
  · rw [if_pos hend, if_pos hend, hend]
    exact .failAt
  · rw [if_neg hend, if_neg hend]
    exact .bind (simulates_statement h) fun s => .advance (.pure (some s))

theorem simulates_statementsFrom (ss : List Stmt) :
    Simulates l k (statementsFrom ss).task (do
      let rest ← Parser.many (Parser.blockItem expr) (Parser.blockItem_advances expr)
      pure (ss ++ rest)) :=
  .many (simulates_statement? h) _ task_statementsFrom ss

theorem simulates_block : Simulates l k block.task (Parser.block expr) := by
  rw [task]
  refine .currentToken fun token => .advance fun i => ?_
  refine .congr (.bind (simulates_statementsFrom h [] i) fun ss _ _ => .pure (Block.mk token ss)) ?_
  simp only [Parser.run_bind]
  cases (Parser.many (Parser.blockItem expr) _).run (l.cursorAt i) <;> rfl

theorem simulates_unary : Simulates l k unary.task (Parser.unary expr) := by
  rw [task]
  exact .currentToken fun token => .advance (.bind (h .unary) fun right => .pure _)

theorem simulates_grouping : Simulates l k grouping.task (Parser.grouping expr) := by
  rw [task]
  refine .advance (.bind (h .lowest) fun inner => ?_)
  exact .bind (.expect .rightParen) fun _ => .pure inner

theorem simulates_conditional : Simulates l k conditional.task (Parser.conditional expr) := by
  rw [task]
  refine .currentToken fun token => .bind (.expect .leftParen) fun _ => .advance ?_
  refine .bind (h .lowest) fun condition => .bind (.expect .rightParen) fun _ => ?_
  refine .bind (.expect .leftBrace) fun _ => .bind (simulates_block h) fun consequence => ?_
  refine .bind (.accept .elseWord) fun _ => .ite ?_ (.pure _)
  exact .bind (.expect .leftBrace) fun _ => .bind (simulates_block h) fun other => .pure _

theorem simulates_function : Simulates l k function.task (Parser.function expr) := by
  rw [task]
  refine .currentToken fun token => .bind (.expect .leftParen) fun _ => ?_
  refine .bind simulates_parameters fun ts => .bind (.expect .leftBrace) fun _ => ?_
  exact .bind (simulates_block h) fun body => .pure _

theorem simulates_binary (left : Expr) (power : BindingPower) :
    Simulates l k (binary left power).task (Parser.binary expr left power) := by
  rw [task]
  exact .currentToken fun token => .advance (.bind (h power) fun right => .pure _)

theorem simulates_argument : Simulates l k argument.task (Parser.argument expr) := by
  rw [task]
  exact .advance (h .lowest)

theorem simulates_argument? :
    Simulates l k argument?.task (Parser.commaItem (Parser.argument expr)) := by
  rw [task]
  exact .commaItem (simulates_argument h)

theorem simulates_argumentsFrom (es : List Expr) :
    Simulates l k (argumentsFrom es).task (do
      let rest ← Parser.many (Parser.commaItem (Parser.argument expr)) (Parser.commaItem_advances _)
      pure (es ++ rest)) :=
  .many (simulates_argument? h) _ task_argumentsFrom es

theorem simulates_arguments :
    Simulates l k arguments.task (Parser.commaList (Parser.argument expr)) := by
  rw [task]
  exact .commaList (simulates_argument h) (simulates_argumentsFrom h)

theorem simulates_call (left : Expr) (power : BindingPower) :
    Simulates l k (call left power).task (Parser.call expr left) := by
  rw [task]
  exact .currentToken fun token => .bind (simulates_arguments h) fun es => .pure _

theorem simulates_operation? (power : BindingPower) (left : Expr) :
    Simulates l k (operation? power left).task (Parser.operationAbove expr power left) := by
  rw [task]
  intro i
  refine .peek (.powerOf ?_)
  cases ho : (l.token (i + 1)).kind.operator? with
  | none =>
    -- What is no operator binds nothing: the test for the power alone ends the loop.
    have hpower : (l.token (i + 1)).kind.power = .lowest := by
      rw [TokenKind.power, ho, Option.elim_none]
    rw [if_neg fun hlt => Nat.not_lt_zero _ (hpower ▸ hlt.2)]
    exact .pure none
  | some o =>
    have hpower : (l.token (i + 1)).kind.power = o.power := by
      rw [TokenKind.power, ho, Option.elim_some]
    have hkind : (l.token (i + 1)).kind ≠ .semicolon := by
      intro hk
      simp [hk, TokenKind.operator?] at ho
    simp only [hpower, hkind, ne_eq, not_false_eq_true, true_and]
    split
    · refine .operatorForm? ?_
      rw [ho, Option.map_some]
      refine .advance (.currentToken (.powerOf ?_))
      rw [hpower, Parser.operation]
      cases o.form with
      | binary => exact .bind (simulates_binary h left o.power _) fun e _ _ => .pure (some e)
      | call => exact .bind (simulates_call h left o.power _) fun e _ _ => .pure (some e)
    · exact .pure none

theorem simulates_operationsFrom (power : BindingPower) (left : Expr) :
    Simulates l k (operationsFrom power left).task (Parser.operations expr power left) :=
  .iterate (simulates_operation? h power) _ (task_operationsFrom power) left

theorem simulates_operand : Simulates l k operand.task (Parser.operand expr) := by
  rw [task]
  refine .currentToken fun u i => .operandForm? ?_
  cases u.kind.operandForm? with
  | none => exact .failAt
  | some form =>
    cases form with
    | identifier => exact simulates_identifier i
    | integer => exact simulates_integer i
    | boolean => exact simulates_boolean i
    | unary => exact simulates_unary h i
    | grouping => exact simulates_grouping h i
    | conditional => exact simulates_conditional h i
    | function => exact simulates_function h i
    | illegal => exact simulates_illegal i

theorem simulates_nested (power : BindingPower) :
    Simulates l k (nested power).task (do
      let left ← Parser.operand expr
      Parser.operations expr power left) := by
  rw [task]
  exact .bind (simulates_operand h) fun left => simulates_operationsFrom h power left

end Readers

theorem on_enter (s : Trail) :
    enter.on s =
      if Parser.maxNesting ≤ s.machine.depth then
        some (.error ⟨.tooDeep Parser.maxNesting, s.machine.current.span.start⟩, s)
      else some (.ok (), s.after [.enter]) := by
  rw [enter, on_look]
  split
  · rw [currentToken, on_look]
    rfl
  · rfl

/-- What counts a level for as long as a task runs does what the task does one level further on. -/
theorem simulates_levels {α : Type} {t : Task α} {p : Parser α} (hk : k < Parser.maxNesting)
    (h : Simulates l (k + 1) t p) :
    Simulates l k
      (do
        enter
        (do
          let r ← (t : Run (Except Diagnostic α))
          (modify fun s => s.after [.leave] : Run Unit)
          pure r : Run (Except Diagnostic α)))
      p := by
  intro i s hs
  obtain ⟨ms, hms, ht, hc⟩ := h i (s.after [.enter]) hs.enter
  refine ⟨.enter :: (ms ++ .leave :: []), .nested hk hms .nil, ?_, ?_⟩
  · rw [Task.on_bind, on_enter, if_neg (by rw [hs.depth]; exact Nat.not_le.mpr hk)]
    -- A failure of `t` is a result like any other here, so the level is counted off behind it too.
    change (t.on (s.after [.enter])).bind _ = _
    rw [ht]
    change some ((p.run (l.cursorAt i)).result, ((s.after [.enter]).after ms).after [.leave]) = _
    simp only [Trail.after_after, List.cons_append, List.nil_append]
  · simpa using hc

theorem simulates_expression (n : Nat) (hn : k + n = Parser.maxNesting) (power : BindingPower) :
    Simulates l k (expression power).task (Parser.expressionWithin n power) := by
  -- On the levels that are left. With none left both fail at the current token.
  induction n generalizing k power with
  | zero =>
    rw [task]
    intro i s hs
    have hdepth : Parser.maxNesting ≤ s.machine.depth := by rw [hs.depth]; omega
    refine ⟨[], .nil, ?_, rfl⟩
    rw [Task.on_bind, on_enter, if_pos hdepth, Parser.expressionWithin, bind_current,
      l.current_cursorAt, ← hs.current, Trail.after_nil]
    rfl
  | succ n ih =>
    rw [task]
    have hk : k < Parser.maxNesting := by omega
    exact simulates_levels hk (simulates_nested (fun power => ih (by omega) power) power)

end Procedure

end Machine

end ScriptReader
