import ScriptReader.Proofs.Machine.Programs

/-! Reading comes to an end. No loop of the machine turns without leaving a token
behind for good, though its source gives end tokens for ever. -/

namespace ScriptReader

theorem length_turns_le (c : Cursor) : (turns c).length ≤ c.ahead.length := by
  induction c using turns_induction with
  | hnil c h => simp [turns_of_nil h]
  | hturn c h ih =>
    have hlt := Turn.next_length_lt h
    rw [turns_of_ne_nil h, List.length_cons]
    omega

/-- Each turn gives one statement or one diagnostic. -/
theorem Report.length_ofTurns (ts : List Turn) :
    (Report.ofTurns ts).program.statements.length + (Report.ofTurns ts).diagnostics.length =
      ts.length := by
  induction ts with
  | nil => rfl
  | cons t ts ih =>
    obtain ⟨item, next⟩ := t
    rw [Report.ofTurns_cons, List.length_append, List.length_append, List.length_cons, ← ih]
    cases item <;> simp [Turn.statement?, Turn.diagnostic?, Except.toOption] <;> omega

theorem filter_tokenize (source : String) (file : Option String) :
    (tokenize source file).filter (fun t => t.kind ≠ .eof) =
      (Cursor.ofSource source file).ahead := by
  have hall : ∀ t ∈ (Lexer.ofSource source file).tokens, decide (t.kind ≠ .eof) = true :=
    fun t ht => decide_eq_true (Lexer.spelled_of_mem_tokens ht).kind_ne_eof
  rw [tokenize, List.filter_append, List.filter_eq_self.mpr hall]
  exact List.append_nil _

namespace Machine

open Procedure

variable {l : Lexer} {k i : Nat} {s : Trail} {α : Type}

/-- How many tokens are left behind `i` of them, end tokens not counted. -/
def left (l : Lexer) (i : Nat) : Nat := (l.skip i).tokens.length

/-- Begun anywhere at the depth `k`, the task comes to an end. -/
def Ends (l : Lexer) (k : Nat) (t : Task α) : Prop :=
  ∀ i (s : Trail), s.machine.At l i k → ∃ r ms, t.on s = some (r, s.after ms)

/-- A turn of a loop comes to an end, and ends the loop, fails or leaves fewer tokens. -/
def Progresses (l : Lexer) (k : Nat) (step : Task (Option α)) : Prop :=
  ∀ i (s : Trail), s.machine.At l i k →
    ∃ r ms, step.on s = some (r, s.after ms) ∧ (s.machine.after ms).At l (i + steps ms) k ∧
      ∀ a, r = .ok (some a) → left l (i + steps ms) < left l i

theorem Simulates.ends {t : Task α} {p : Parser α} (h : Simulates l k t p) : Ends l k t := by
  intro i s hs
  obtain ⟨ms, -, ht, -⟩ := h i s hs
  exact ⟨_, ms, ht⟩

theorem Simulates.progresses {step : Task (Option α)} {p : Parser (Option α)}
    (h : Simulates l k step p) (hadv : p.Advances) : Progresses l k step := by
  intro i s hs
  obtain ⟨ms, hms, ht, hc⟩ := h i s hs
  refine ⟨_, ms, ht, hms.after hs, fun a ha => ?_⟩
  cases hr : p.run (l.cursorAt i) with
  | error e d => simp [hr, Outcome.result] at ha
  | ok o d =>
    rw [hr] at ha hc
    obtain rfl : o = some a := Except.ok.inj ha
    obtain rfl : d = l.cursorAt (i + steps ms) := hc
    exact hadv hr

theorem left_succ_lt (h : (l.token i).kind ≠ .eof) : left l (i + 1) < left l i := by
  have hpos := List.length_pos_iff.mpr fun he => h (Lexer.kind_token_eq_eof_iff.mpr he)
  have hlength := congrArg (fun c => c.ahead.length) (l.advance_cursorAt i)
  rw [Cursor.length_advance] at hlength
  change (l.cursorAt (i + 1)).ahead.length < (l.cursorAt i).ahead.length
  omega

/-- One turn of the loop that skips the rest of a statement. -/
theorem on_skipStatement (h : ¬s.machine.current.isOneOf [.semicolon, .eof]) :
    skipStatement.task.on s = skipStatement.task.on (s.after [.advance]) := by
  -- The same loop stands on the right, where it stays folded.
  conv => lhs; rw [task, currentToken, on_look, if_neg h]
  rfl

theorem turn_progresses (hs : s.machine.At l i 0) (hkind : s.machine.current.kind ≠ .eof) :
    ∃ o ms, turn.task.on s = some (.ok o, s.after ms) ∧ (s.machine.after ms).At l (i + steps ms) 0 ∧
      left l (i + steps ms) < left l i ∧
      ((∃ st, o = some st ∧ (s.machine.after ms).diagnostics = s.machine.diagnostics) ∨
        ∃ e, o = none ∧ (s.machine.after ms).diagnostics = s.machine.diagnostics ++ [e]) := by
  obtain ⟨ms, hms, ht, hnext⟩ := on_turn hs
  have hne : (l.cursorAt i).ahead ≠ [] := by
    intro he
    exact hkind (hs.current ▸ Lexer.kind_token_eq_eof_iff.mpr he)
  have hlt := Turn.next_length_lt hne
  rw [hnext] at hlt
  refine ⟨_, ms, ht, hms.place, hlt, ?_⟩
  have hdiagnostics := hms.diagnostics
  cases hitem : (Turn.ofCursor (l.cursorAt i)).item with
  | ok st =>
    refine .inl ⟨st, by simp [Turn.statement?, hitem, Except.toOption], ?_⟩
    simpa [Turn.diagnostic?, hitem] using hdiagnostics
  | error e =>
    refine .inr ⟨e, by simp [Turn.statement?, hitem, Except.toOption], ?_⟩
    simpa [Turn.diagnostic?, hitem] using hdiagnostics

/-- A program is read to the end of its source, whatever the source is, and makes the report. Every
turn that reads a statement leaves a token behind which is no end token, and gives just one
statement or just one diagnostic, so that together there are no more of these than tokens. The
other loops end from wherever they start, as each of their turns leaves fewer tokens, fails or is
the last. -/
theorem program_terminates (source : String) (file : Option String) :
    let l : Lexer := .ofSource source file
    let report : Report := .ofSource source file
    (∃ s, program.task.on (.ofLexer l) = some (.ok report.program, s) ∧
      s.machine.diagnostics = report.diagnostics ∧ s.machine.current.kind = .eof) ∧
    report.program.statements.length + report.diagnostics.length ≤
      ((tokenize source file).filter fun t => t.kind ≠ .eof).length ∧
    (∀ (s : Trail) (i : Nat), s.machine.At l i 0 → s.machine.current.kind ≠ .eof →
      ∃ o ms, turn.task.on s = some (.ok o, s.after ms) ∧
        (s.machine.after ms).At l (i + steps ms) 0 ∧ left l (i + steps ms) < left l i ∧
        ((∃ st, o = some st ∧ (s.machine.after ms).diagnostics = s.machine.diagnostics) ∨
          ∃ e, o = none ∧ (s.machine.after ms).diagnostics = s.machine.diagnostics ++ [e])) ∧
    ∀ k, k ≤ 256 →
      (∀ power e, Progresses l k (operation? power e).task ∧
        Ends l k (operationsFrom power e).task) ∧
      (Progresses l k parameter?.task ∧ ∀ ts, Ends l k (parametersFrom ts).task) ∧
      (Progresses l k argument?.task ∧ ∀ es, Ends l k (argumentsFrom es).task) ∧
      (Progresses l k statement?.task ∧ ∀ ss, Ends l k (statementsFrom ss).task) ∧
      (∀ (s : Trail) (i : Nat), s.machine.At l i k →
        ¬s.machine.current.isOneOf [.semicolon, .eof] →
          skipStatement.task.on s = skipStatement.task.on (s.after [.advance]) ∧
            left l (i + 1) < left l i) ∧
      Ends l k skipStatement.task := by
  intro l report
  refine ⟨?_, ?_, fun s i => turn_progresses, fun k hk => ?_⟩
  · obtain ⟨ms, hms, hread, hfinish⟩ := on_program (s := .ofLexer l) (at_ofLexer l)
    refine ⟨_, hread, hms.diagnostics, ?_⟩
    have hend : (l.token (0 + steps ms)).kind = .eof :=
      Lexer.kind_token_eq_eof_iff.mpr (by rw [← hfinish, Cursor.finish])
    rw [Trail.machine_after, after_cons, hms.place.current, hend]
  · rw [filter_tokenize]
    exact (Report.length_ofTurns _).trans_le (length_turns_le _)
  · have h : ∀ power, Simulates l k (expression power).task
        (Parser.expressionWithin (Parser.maxNesting - k) power) :=
      simulates_expression _ (Nat.add_sub_of_le hk)
    refine ⟨fun power e => ⟨?_, (simulates_operationsFrom h power e).ends⟩,
      ⟨?_, fun ts => (simulates_parametersFrom ts).ends⟩,
      ⟨?_, fun es => (simulates_argumentsFrom h es).ends⟩,
      ⟨?_, fun ss => (simulates_statementsFrom h ss).ends⟩,
      fun s i hs hkind => ⟨on_skipStatement hkind, ?_⟩, simulates_skipStatement.ends⟩
    · exact (simulates_operation? h power e).progresses (Parser.operationAbove_advances _ power e)
    · exact simulates_parameter?.progresses (Parser.commaItem_advances _)
    · exact (simulates_argument? h).progresses (Parser.commaItem_advances _)
    · exact (simulates_statement? h).progresses (Parser.blockItem_advances _)
    · refine left_succ_lt fun he => hkind ?_
      rw [hs.current, Token.isOneOf, he]
      rfl

end Machine

end ScriptReader
