import ScriptReader.Proofs.Embedding.Parsers
import ScriptReader.Proofs.Embedding.Regions
import ScriptReader.Proofs.Segments

/-! A program is read alike in its own source and where that stands within
another, in which reading then goes on with the tokens behind. -/

namespace ScriptReader

instance : Append Report :=
  ⟨fun r s => ⟨⟨r.program.statements ++ s.program.statements⟩, r.diagnostics ++ s.diagnostics⟩⟩

def Relocation.report (m : Relocation) (r : Report) : Report :=
  ⟨r.program.mapTokens m.token, r.diagnostics.map m.diagnostic⟩

theorem Report.append_eq (r s : Report) :
    r ++ s = ⟨⟨r.program.statements ++ s.program.statements⟩, r.diagnostics ++ s.diagnostics⟩ :=
  rfl

namespace Embedding

variable {m : Embedding} {c d : Cursor}

def item (m : Embedding) : Except Diagnostic Stmt → Except Diagnostic Stmt
  | .ok s => .ok (s.mapTokens m.token)
  | .error e => .error (m.diagnostic e)

theorem recover_cursor (R : m.Region) (h : R.At c) (e : Diagnostic) :
    R.At (Turn.recover e c) ∧
      Turn.recover (m.diagnostic e) (m.cursor c) = m.cursor (Turn.recover e c) := by
  obtain ⟨cause, position⟩ := e
  cases cause with
  | tooDeep limit => exact R.skip h
  | _ => exact ⟨h, rfl⟩

theorem ofCursor_cursor (R : m.Region) (h : R.At c) :
    Turn.ofCursor (m.cursor c) =
      ⟨m.item (Turn.ofCursor c).item, m.cursor (Turn.ofCursor c).next⟩ := by
  obtain ⟨hrun, hat⟩ := agrees_statement (Parser.expressionWithin_sound Parser.maxNesting)
    (expressionWithin_alike (R := R) Parser.maxNesting) h
  cases hr : (Parser.statement (Parser.expressionWithin Parser.maxNesting)).run c with
  | ok s d =>
    rw [hr] at hrun hat
    rw [Outcome.cursor_ok] at hat
    rw [Turn.ofCursor_of_ok hrun, Turn.ofCursor_of_ok hr, advance_cursor hat]
    rfl
  | error e d =>
    rw [hr] at hrun hat
    rw [Outcome.cursor_error] at hat
    obtain ⟨hat', hrec⟩ := recover_cursor R hat e
    rw [Turn.ofCursor_of_error hrun, Turn.ofCursor_of_error hr, hrec, advance_cursor hat']
    rfl

/-- The report of the larger source is that of the source and that of the tokens behind it. -/
theorem ofTurns_cursor (R : m.Region) (h : c.ahead ≠ [] → R.At c) :
    Report.ofTurns (turns (m.cursor c)) =
      m.report (Report.ofTurns (turns c)) ++ Report.ofTurns (turns ⟨m.more, m.stop⟩) := by
  induction c using turns_induction with
  | hnil c hc =>
    have hcursor : m.cursor c = ⟨m.more, m.stop⟩ := by
      rw [cursor, hc, List.map_nil, List.nil_append]
    rw [turns_of_nil hc, hcursor]
    rfl
  | hturn c hc ih =>
    have hne : (m.cursor c).ahead ≠ [] := by simp [cursor, hc]
    have hat := h hc
    rw [turns_of_ne_nil hc, turns_of_ne_nil hne, Report.ofTurns_cons, Report.ofTurns_cons,
      ofCursor_cursor R hat, ih fun hd => R.reaches hat (Turn.reaches_next c) hd]
    cases hitem : (Turn.ofCursor c).item <;>
      simp [Turn.statement?, Turn.diagnostic?, hitem, item, Report.append_eq, Relocation.report,
        Program.mapTokens, Except.toOption]

end Embedding

/-- The report of a source with the same tokens at other places. -/
theorem Report.ofLexer_relocated (r : Relocation) {l l' : Lexer}
    (htokens : l'.tokens = l.tokens.map r.token) (hend : r.token l.endToken = l'.endToken) :
    Report.ofLexer l' = r.report (Report.ofLexer l) := by
  let m : Embedding := ⟨r, [], l'.stop⟩
  have hcursor : Cursor.ofLexer l' = m.cursor (.ofLexer l) := by
    rw [Cursor.ofLexer, Embedding.cursor, Cursor.ofLexer, List.append_nil, htokens]
  have hread := m.ofTurns_cursor (m.wholeRegion l.stop rfl hend) (c := .ofLexer l) fun _ => rfl
  have hmore : Report.ofTurns (turns ⟨m.more, m.stop⟩) = ⟨⟨[]⟩, []⟩ := by
    rw [turns_of_nil rfl]
    rfl
  rw [Report.ofLexer, hcursor, hread, hmore, Report.append_eq, List.append_nil, List.append_nil]
  rfl

end ScriptReader
