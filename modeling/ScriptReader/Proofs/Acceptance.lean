import ScriptReader.Proofs.Grammar.Regrouping
import ScriptReader.Proofs.Programs

/-! Which sources are read without diagnostics. -/

namespace ScriptReader

/-- If all turns give statements, their segments are statements in a row. -/
theorem flatStmts_of_diagnostics_eq_nil {c : Cursor}
    (h : (Report.ofTurns (turns c)).diagnostics = []) : FlatStmts c.ahead := by
  induction c using turns_induction with
  | hnil c hc =>
    rw [hc]
    exact .nil
  | hturn c hc ih =>
    rw [turns_of_ne_nil hc, Report.ofTurns_cons, List.append_eq_nil_iff] at h
    cases hitem : (Turn.ofCursor c).item with
    | error e => simp [Turn.diagnostic?, hitem] at h
    | ok s =>
      obtain ⟨D, -⟩ := Turn.segment_derivation hitem
      rw [← Turn.segment_append_next c]
      exact .cons D.flat (ih h.2)

theorem diagnostics_eq_nil_of_flatStmts {c : Cursor} (h : FlatStmts c.ahead)
    (hdeep : ∀ e ∈ (Report.ofTurns (turns c)).diagnostics, ∀ n, e.cause ≠ .tooDeep n) :
    (Report.ofTurns (turns c)).diagnostics = [] := by
  obtain ⟨ss, D, hsep⟩ := h.phrase
  refine (diagnostics_eq_nil_iff D hsep rfl).mpr (Nat.not_lt.mp fun hlt => ?_)
  obtain ⟨e, he, hcause⟩ := exists_tooDeep_of_lt_depth D hsep rfl hlt
  exact hdeep e he _ hcause

/-- Unless something is nested too deep, a source is read without diagnostics just if its tokens
are statements in a row, however these are told apart and whatever order operators have. -/
theorem ofSource_accepts_iff (source : String) (file : Option String)
    (h : ∀ e ∈ (Report.ofSource source file).diagnostics, ∀ n, e.cause ≠ .tooDeep n) :
    (Report.ofSource source file).diagnostics = [] ↔
      FlatStmts (tokenize source file).dropLast := by
  rw [← ahead_ofSource source file]
  exact ⟨flatStmts_of_diagnostics_eq_nil, fun hf => diagnostics_eq_nil_of_flatStmts hf h⟩

/-- A name, a name with a sign and a name in parentheses are statements in a row. They are accepted
though all of them are read as one. -/
theorem ofSource_accepts_names :
    let source := String.ofList ['a', '-', 'b', '(', 'c', ')']
    (∀ e ∈ (Report.ofSource source none).diagnostics, ∀ n, e.cause ≠ .tooDeep n) ∧
      FlatStmts (tokenize source none).dropLast ∧
      (Report.ofSource source none).program.statements.length = 1 ∧
      (Report.ofSource source none).diagnostics = [] := by
  intro source
  have hsource : Lexer.ofSource source none = ⟨['a', '-', 'b', '(', 'c', ')'], 0, "shell"⟩ := by
    decide
  have hread : (Report.ofSource source none).diagnostics = [] ∧
      (Report.ofSource source none).program.statements.length = 1 := by
    rw [Report.ofSource, hsource]
    decide +kernel
  have hdeep : ∀ e ∈ (Report.ofSource source none).diagnostics, ∀ n, e.cause ≠ .tooDeep n := by
    simp [hread.1]
  have hflat : FlatStmts (tokenize source none).dropLast := by
    rw [← ahead_ofSource]
    change FlatStmts (Lexer.ofSource source none).tokens
    rw [hsource, Lexer.tokens_of_next?_some rfl, Lexer.tokens_of_next?_some rfl,
      Lexer.tokens_of_next?_some rfl, Lexer.tokens_of_next?_some rfl,
      Lexer.tokens_of_next?_some rfl, Lexer.tokens_of_next?_some rfl,
      Lexer.tokens_of_next?_none rfl]
    exact .cons (.expression (.identifier rfl) .none)
      (.cons (.expression (.unary (.tail _ (.head _)) (.identifier rfl)) .none)
        (.cons (.expression (.grouping rfl rfl (.identifier rfl)) .none) .nil))
  exact ⟨hdeep, hflat, hread.2, (ofSource_accepts_iff source none hdeep).mpr hflat⟩

end ScriptReader
