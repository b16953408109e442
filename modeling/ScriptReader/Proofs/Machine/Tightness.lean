import ScriptReader.Proofs.Machine.Reachable

/-! Reading an expression with a higher power in front of it. It ends earlier
or at the same place, and reading with the lower power goes on from there. -/

namespace ScriptReader

/-- The expression is reached from another by going to left sides of operators and to what is
called. -/
inductive Expr.OnLeftSpine (e : Expr) : Expr → Prop
  | refl : OnLeftSpine e e
  | binary {left : Expr} (h : OnLeftSpine e left) (token : Token) (operator : String)
      (right : Expr) : OnLeftSpine e (.binary token left operator right)
  | call {callee : Expr} (h : OnLeftSpine e callee) (token : Token) (arguments : List Expr) :
      OnLeftSpine e (.call token callee arguments)

namespace Parser

variable {expr : BindingPower → Parser Expr} {power : BindingPower} {c d : Cursor}
  {e left left' : Expr}

theorem onLeftSpine_operation {o : Operator} (hleft : e.OnLeftSpine left)
    (h : (operation expr left o).run c = .ok left' d) : e.OnLeftSpine left' := by
  unfold operation at h
  cases ho : o.form with
  | binary =>
    simp only [ho, binary, bind_current, bind_advance, bind_ok_iff, pure_ok_iff] at h
    obtain ⟨right, m, -, rfl, rfl⟩ := h
    exact hleft.binary _ _ _
  | call =>
    simp only [ho, call, bind_current, bind_ok_iff, pure_ok_iff] at h
    obtain ⟨arguments, m, -, rfl, rfl⟩ := h
    exact hleft.call _ _

/-- What operators are read behind stays on the left of all that they make of it. -/
theorem onLeftSpine_operations (h : (operations expr power left).run c = .ok e d) :
    left.OnLeftSpine e ∧ d.peek.kind.power ≤ power := by
  have hstep : ∀ left' (m : Cursor) o e' m', left.OnLeftSpine left' →
      m.peek.kind.operator? = some o → power < o.power →
      (operation expr left' o).run m.advance = .ok e' m' → left.OnLeftSpine e' := by
    intro left' m o e' m' hleft _ _ ho
    exact onLeftSpine_operation hleft ho
  exact operations_ok hstep .refl h

theorem operationAbove_ne_none (h : power < c.peek.kind.power) :
    (operationAbove expr power left).run c ≠ .ok none d := by
  rw [run_operationAbove]
  cases ho : c.peek.kind.operator? with
  | none =>
    rw [TokenKind.power, ho, Option.elim_none] at h
    exact absurd h (Nat.not_lt_zero _)
  | some o =>
    rw [TokenKind.power, ho, Option.elim_some] at h
    simp only [h, if_true]
    cases (operation expr left o).run c.advance <;> simp

end Parser

namespace Machine

/-- What comes next does not go on with an expression that has the power `b` in front of it. -/
def EndsAt (b : BindingPower) (m : Machine) : Prop :=
  m.peek.kind = .semicolon ∨ m.tables.power m.peek.kind ≤ b

theorem At.power_peek {l : Lexer} {i k : Nat} {m : Machine} (h : m.At l i k) :
    m.tables.power m.peek.kind = (l.cursorAt i).peek.kind.power := by
  rw [h.tables, Tables.standard_power, h.peek, l.peek_cursorAt]

namespace Procedure

variable {l : Lexer} {i k : Nat} {s s' : Trail} {b b₁ b₂ : BindingPower} {left : Expr}

/-- No operator is taken that binds no tighter. -/
theorem on_operation?_of_le (h : s.machine.tables.power s.machine.peek.kind ≤ b) :
    (operation? b left).task.on s = some (.ok none, s) := by
  have hnot : ¬(s.machine.peek.kind ≠ .semicolon ∧
      b < s.machine.tables.power s.machine.peek.kind) := fun hlt => Nat.not_lt.mpr h hlt.2
  rw [task, peekToken, on_look, powerOf, on_look, if_neg hnot]
  rfl

/-- How an operator is read does not depend on how tightly it has to bind. -/
theorem on_operation?_of_lt (h₁ : b₁ < s.machine.tables.power s.machine.peek.kind)
    (h₂ : b₂ < s.machine.tables.power s.machine.peek.kind) :
    (operation? b₁ left).task.on s = (operation? b₂ left).task.on s := by
  rw [task, peekToken, on_look, powerOf, on_look]
  rw [task, peekToken, on_look, powerOf, on_look]
  simp only [h₁, h₂]

/-- To read operators that bind tighter than `b₁` is to read those first that bind tighter than
`b₂`. -/
theorem on_operationsFrom_split (hb : b₁ ≤ b₂) (hs : s.machine.At l i k)
    (hk : k ≤ Parser.maxNesting) :
    (operationsFrom b₁ left).task.on s =
      ((operationsFrom b₂ left).task >>= fun e => (operationsFrom b₁ e).task).on s := by
  induction hn : (l.cursorAt i).ahead.length using Nat.strongRecOn generalizing i s left with
  | ind n ih =>
    rw [Task.on_bind]
    by_cases h₂ : b₂ < s.machine.tables.power s.machine.peek.kind
    · have h₁ : b₁ < s.machine.tables.power s.machine.peek.kind := Nat.lt_of_le_of_lt hb h₂
      obtain ⟨ms, hms, hrun, hcursor⟩ := simulates_operation?
        (simulates_expression _ (Nat.add_sub_of_le hk)) b₂ left i s hs
      rw [task_operationsFrom b₁, task_operationsFrom b₂, Task.on_bind, Task.on_bind,
        on_operation?_of_lt h₁ h₂, hrun]
      cases hr : (Parser.operationAbove (Parser.expressionWithin (Parser.maxNesting - k)) b₂
        left).run (l.cursorAt i) with
      | error e d => rfl
      | ok o d =>
        cases o with
        | none => exact absurd hr (Parser.operationAbove_ne_none (hs.power_peek ▸ h₂))
        | some e =>
          rw [hr] at hcursor
          obtain rfl : d = l.cursorAt (i + steps ms) := hcursor
          have hless := Parser.operationAbove_advances _ _ _ hr
          have hsplit : (operationsFrom b₁ e).task.on (s.after ms) = _ :=
            ih _ (hn ▸ hless) (hms.after hs) rfl
          rw [Task.on_bind] at hsplit
          exact hsplit
    · have hnone : (operation? b₂ left).task.on s = some (.ok none, s) :=
        on_operation?_of_le (Nat.not_lt.mp h₂)
      rw [task_operationsFrom b₂, Task.on_bind, hnone]
      rfl

theorem task_nested (b : BindingPower) :
    (nested b).task = operand.task >>= fun left => (operationsFrom b left).task := by
  conv => lhs; rw [task]

theorem on_nested_split (hb : b₁ ≤ b₂) (hs : s.machine.At l i k) (hk : k ≤ Parser.maxNesting) :
    (nested b₁).task.on s =
      ((nested b₂).task >>= fun e => (operationsFrom b₁ e).task).on s := by
  obtain ⟨ms, hms, hrun, -⟩ :=
    simulates_operand (simulates_expression _ (Nat.add_sub_of_le hk)) i s hs
  rw [task_nested b₁, task_nested b₂, Task.on_bind, Task.on_bind, Task.on_bind, hrun]
  cases (Parser.operand (Parser.expressionWithin (Parser.maxNesting - k))).run (l.cursorAt i) with
  | error e d => rfl
  | ok left d =>
    have hsplit : (operationsFrom b₁ left).task.on (s.after ms) = _ :=
      on_operationsFrom_split hb (hms.after hs) hk
    rw [Task.on_bind] at hsplit
    exact hsplit

theorem exists_on_operationsFrom (hs : s.machine.At l i k) (hk : k ≤ Parser.maxNesting)
    (b : BindingPower) (left : Expr) :
    ∃ r ms, Balanced k ms ∧ (operationsFrom b left).task.on s = some (r, s.after ms) ∧
      ∀ e, r = .ok e → left.OnLeftSpine e ∧ EndsAt b (s.machine.after ms) := by
  obtain ⟨ms, hms, hrun, hcursor⟩ := simulates_operationsFrom
    (simulates_expression _ (Nat.add_sub_of_le hk)) b left i s hs
  refine ⟨_, ms, hms, hrun, fun e he => ?_⟩
  cases hr : (Parser.operations (Parser.expressionWithin (Parser.maxNesting - k)) b left).run
    (l.cursorAt i) with
  | error e d => rw [hr] at he; contradiction
  | ok e' d =>
    rw [hr] at he hcursor
    obtain rfl : e' = e := Except.ok.inj he
    obtain rfl : d = l.cursorAt (i + steps ms) := hcursor
    obtain ⟨hspine, hend⟩ := Parser.onLeftSpine_operations hr
    rw [← (hms.after hs).power_peek] at hend
    exact ⟨hspine, .inr hend⟩

theorem exists_on_nested (hs : s.machine.At l i k) (hk : k ≤ Parser.maxNesting)
    (b : BindingPower) :
    ∃ r ms, Balanced k ms ∧ (nested b).task.on s = some (r, s.after ms) ∧
      ∀ e, r = .ok e → EndsAt b (s.machine.after ms) := by
  obtain ⟨ms, hms, hrun, -⟩ :=
    simulates_operand (simulates_expression _ (Nat.add_sub_of_le hk)) i s hs
  rw [task_nested, Task.on_bind, hrun]
  cases (Parser.operand (Parser.expressionWithin (Parser.maxNesting - k))).run (l.cursorAt i) with
  | error e d => exact ⟨.error e, ms, hms, rfl, nofun⟩
  | ok left d =>
    have hat : (s.after ms).machine.At l (i + steps ms) k := hms.after hs
    obtain ⟨r, ns, hns, hrun, hr⟩ := exists_on_operationsFrom hat hk b left
    refine ⟨r, ms ++ ns, hms.append hns, ?_, fun e he => ?_⟩
    · rw [← Trail.after_after]
      exact hrun
    · rw [after_append]
      exact (hr e he).2

/-- What is read with the lower power begins with what is read with the higher one. -/
theorem exists_on_nested_pair (hb : b₁ ≤ b₂) (hs : s.machine.At l i k)
    (hk : k ≤ Parser.maxNesting) :
    ∃ r₁ r₂ ms ns, (nested b₁).task.on s = some (r₁, s.after (ms ++ ns)) ∧
      (nested b₂).task.on s = some (r₂, s.after ms) ∧
      (∀ e, r₂ = .error e → r₁ = .error e ∧ ns = []) ∧
      (∀ e₁, r₁ = .ok e₁ →
        EndsAt b₁ (s.machine.after (ms ++ ns)) ∧ ∃ e₂, r₂ = .ok e₂ ∧ e₂.OnLeftSpine e₁) ∧
      ∀ e₂, r₂ = .ok e₂ → EndsAt b₂ (s.machine.after ms) := by
  obtain ⟨r₂, ms, hms, hrun₂, hends₂⟩ := exists_on_nested hs hk b₂
  have hrun₁ := on_nested_split hb hs hk
  rw [Task.on_bind, hrun₂] at hrun₁
  cases r₂ with
  | error e =>
    refine ⟨.error e, .error e, ms, [], ?_, hrun₂, fun _ he => ⟨he, rfl⟩, fun _ he => ?_,
      fun _ he => ?_⟩
    · rw [List.append_nil]
      exact hrun₁
    · contradiction
    · contradiction
  | ok e₂ =>
    have hat : (s.after ms).machine.At l (i + steps ms) k := hms.after hs
    obtain ⟨r₁, ns, -, hmore, hr₁⟩ := exists_on_operationsFrom hat hk b₁ e₂
    refine ⟨r₁, .ok e₂, ms, ns, ?_, hrun₂, fun _ he => ?_, fun e₁ he => ?_, hends₂⟩
    · rw [← Trail.after_after, ← hmore]
      exact hrun₁
    · contradiction
    · obtain ⟨hspine, hends⟩ := hr₁ e₁ he
      rw [after_append]
      exact ⟨hends, e₂, rfl, hspine⟩

theorem on_expression (b : BindingPower) (s : Trail) :
    (expression b).task.on s =
      if Parser.maxNesting ≤ s.machine.depth then
        some (.error ⟨.tooDeep Parser.maxNesting, s.machine.current.span.start⟩, s)
      else ((nested b).task.on (s.after [.enter])).map fun r => (r.1, r.2.after [.leave]) := by
  rw [task, Task.on_bind, on_enter]
  split
  · rfl
  · change ((nested b).task.on (s.after [.enter])).bind _ = _
    cases (nested b).task.on (s.after [.enter]) <;> rfl

end Procedure

/-- The tokens that moves go on to. -/
def taken (m : Machine) : List Move → List Token
  | [] => []
  | .advance :: ms => m.peek :: taken (m.move .advance) ms
  | mv :: ms => taken (m.move mv) ms

theorem taken_append (m : Machine) (ms ns : List Move) :
    taken m (ms ++ ns) = taken m ms ++ taken (m.after ms) ns := by
  induction ms generalizing m with
  | nil => rfl
  | cons mv ms ih => cases mv <;> simp [taken, ih]

/-- The tokens from the current one on up to the one that is current after moves. -/
def consumed (m : Machine) (ms : List Move) : List Token := m.current :: taken m ms

variable {source : String} {file : Option String} {s : Trail} {b₁ b₂ : BindingPower}

/-- With a higher power in front of it an expression only ends earlier. If it cannot be read,
neither can the one with the lower power, and that leaves the same machine. If the one with the
lower power can be read, the other is the same or on its left spine, and takes the first of its
tokens. -/
theorem expression_tighter (hs : Reachable source file s.machine) (hb : b₁ ≤ b₂) :
    ∃ r₁ ms₁ r₂ ms₂,
      (Procedure.expression b₁).task.on s = some (r₁, s.after ms₁) ∧
      (Procedure.expression b₂).task.on s = some (r₂, s.after ms₂) ∧
      (∀ e, r₂ = .error e → r₁ = .error e ∧ s.machine.after ms₁ = s.machine.after ms₂) ∧
      (∀ e₁, r₁ = .ok e₁ →
        ∃ e₂, r₂ = .ok e₂ ∧ e₂.OnLeftSpine e₁ ∧
          consumed s.machine ms₂ <+: consumed s.machine ms₁) ∧
      (∀ e₁, r₁ = .ok e₁ → EndsAt b₁ (s.machine.after ms₁)) ∧
      ∀ e₂, r₂ = .ok e₂ → EndsAt b₂ (s.machine.after ms₂) := by
  obtain ⟨n, i, k, hat, hk⟩ := hs.exists_at
  rw [Procedure.on_expression, Procedure.on_expression]
  by_cases hdeep : Parser.maxNesting ≤ s.machine.depth
  · let e : Diagnostic := ⟨.tooDeep Parser.maxNesting, s.machine.current.span.start⟩
    rw [if_pos hdeep, if_pos hdeep]
    exact ⟨.error e, [], .error e, [], by rw [Trail.after_nil], by rw [Trail.after_nil],
      fun _ he => ⟨he, rfl⟩, nofun, nofun, nofun⟩
  · have hlevel : k + 1 ≤ Parser.maxNesting := by
      rw [hat.depth] at hdeep
      omega
    have henter : (s.after [.enter]).machine.At _ i (k + 1) := hat.enter
    obtain ⟨r₁, r₂, ms, ns, hrun₁, hrun₂, herror, hok, hends⟩ :=
      Procedure.exists_on_nested_pair hb henter hlevel
    have htrail : ∀ ms, ((s.after [.enter]).after ms).after [.leave] =
        s.after (.enter :: (ms ++ [.leave])) := by
      intro ms
      simp
    rw [if_neg hdeep, if_neg hdeep, hrun₁, hrun₂, Option.map_some, Option.map_some]
    refine ⟨r₁, _, r₂, _, by rw [htrail], by rw [htrail], fun e he => ?_, fun e₁ he => ?_,
      fun e₁ he => ?_, fun e₂ he => ?_⟩
    · obtain ⟨hr₁, rfl⟩ := herror e he
      rw [List.append_nil]
      exact ⟨hr₁, rfl⟩
    · obtain ⟨-, e₂, hr₂, hspine⟩ := hok e₁ he
      refine ⟨e₂, hr₂, hspine, ?_⟩
      simp only [consumed, taken, taken_append, List.append_nil]
      exact List.cons_prefix_cons.mpr ⟨rfl, List.prefix_append _ _⟩
    · have hends₁ := (hok e₁ he).1
      rw [after_cons, after_append]
      exact hends₁
    · have hends₂ := hends e₂ he
      rw [after_cons, after_append]
      exact hends₂

/-- Behind an open parenthesis. -/
theorem expression_tighter_lessGreater :
    let s := (Trail.ofLexer (.ofSource "(a - b < c" none)).after [.advance]
    Reachable "(a - b < c" none s.machine ∧ BindingPower.lowest ≤ .lessGreater ∧
    ∃ r₁ ms₁ r₂ ms₂,
      (Procedure.expression .lowest).task.on s = some (r₁, s.after ms₁) ∧
      (Procedure.expression .lessGreater).task.on s = some (r₂, s.after ms₂) ∧
      (∀ e, r₂ = .error e → r₁ = .error e ∧ s.machine.after ms₁ = s.machine.after ms₂) ∧
      (∀ e₁, r₁ = .ok e₁ →
        ∃ e₂, r₂ = .ok e₂ ∧ e₂.OnLeftSpine e₁ ∧
          consumed s.machine ms₂ <+: consumed s.machine ms₁) ∧
      (∀ e₁, r₁ = .ok e₁ → EndsAt .lowest (s.machine.after ms₁)) ∧
      ∀ e₂, r₂ = .ok e₂ → EndsAt .lessGreater (s.machine.after ms₂) := by
  intro s
  have hreachable : Reachable "(a - b < c" none s.machine :=
    ⟨0, [.advance], [.ok .done], [.advance], [], rfl, rfl⟩
  have hle : BindingPower.lowest ≤ .lessGreater := by decide
  exact ⟨hreachable, hle, expression_tighter hreachable hle⟩

end Machine

end ScriptReader
