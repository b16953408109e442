import ScriptReader.Proofs.Completeness
import ScriptReader.Proofs.Segments

/-! Programs that are nothing but statements apart from one another. -/

namespace ScriptReader

variable {ts : List Token} {ss : List Stmt} {c : Cursor}

theorem Turn.capped_statement {us : List Token} {s : Stmt} (D : StmtDerivation ts s)
    (hsep : D.Separated) (DS : StmtsDerivation us ss) (hap : Apart ts us)
    (hc : c.ahead = ts ++ us) :
    ∃ d : Cursor, d.advance = ⟨us, c.stop⟩ ∧
      Parser.Capped Parser.maxNesting D.starts d (.ok s d)
        ((Parser.statement Parser.expression).run c) := by
  obtain ⟨d, hd, hadv⟩ := Cursor.exists_spans hc D.ne_nil
  refine ⟨d, hadv, D.reads hsep hd ?_⟩
  refine Parser.closed_of_apart (d := ⟨[], c.stop⟩) DS hap (by simpa using hadv) ?_
  simp [Cursor.current, Cursor.endToken, Token.ofEnd]

/-- The statements are read if none is nested too deep. -/
theorem ofTurns_of_depth_le (DS : StmtsDerivation ts ss) (hsep : DS.Separated)
    (hc : c.ahead = ts) (hd : DS.depth ≤ Parser.maxNesting) :
    Report.ofTurns (turns c) = ⟨⟨ss⟩, []⟩ := by
  induction ss generalizing ts c with
  | nil =>
    cases DS
    rw [turns_of_nil hc]
    rfl
  | cons s ss ih =>
    cases DS with
    | cons D DS =>
      obtain ⟨hD, hDS⟩ := Nat.max_le.mp hd
      obtain ⟨d, hadv, hcap⟩ := Turn.capped_statement D hsep.1 DS hsep.2.2 hc
      have hrun := hcap.eq (D.deepest_starts ▸ hD)
      have hne : c.ahead ≠ [] := by simp [hc, D.ne_nil]
      rw [turns_of_ne_nil hne, Turn.ofCursor_of_ok hrun, Report.ofTurns_cons,
        ih DS hsep.2.1 (congrArg Cursor.ahead hadv) hDS]
      rfl

/-- There is a diagnostic that says so if a statement is nested too deep. -/
theorem exists_tooDeep_of_lt_depth (DS : StmtsDerivation ts ss) (hsep : DS.Separated)
    (hc : c.ahead = ts) (hd : Parser.maxNesting < DS.depth) :
    ∃ e ∈ (Report.ofTurns (turns c)).diagnostics, e.cause = .tooDeep Parser.maxNesting := by
  induction ss generalizing ts c with
  | nil =>
    cases DS
    contradiction
  | cons s ss ih =>
    cases DS with
    | cons D DS =>
      obtain ⟨d, hadv, hcap⟩ := Turn.capped_statement D hsep.1 DS hsep.2.2 hc
      have hne : c.ahead ≠ [] := by simp [hc, D.ne_nil]
      rw [turns_of_ne_nil hne, Report.ofTurns_cons]
      by_cases hD : D.depth ≤ Parser.maxNesting
      · have hrun := hcap.eq (D.deepest_starts ▸ hD)
        have hDS : Parser.maxNesting < DS.depth := by
          rw [StmtsDerivation.depth] at hd
          omega
        obtain ⟨e, he, hcause⟩ := ih DS hsep.2.1 (congrArg Cursor.ahead hadv) hDS
        rw [Turn.ofCursor_of_ok hrun]
        exact ⟨e, List.mem_append_right _ he, hcause⟩
      · obtain ⟨x, hx⟩ := D.exists_tooDeep (Nat.not_le.mp hD)
        obtain ⟨m, hrun, -⟩ := (Parser.capped_iff_of_some hx).mp hcap
        rw [Turn.ofCursor_of_error hrun]
        exact ⟨_, List.mem_append_left _ (List.mem_singleton_self _), rfl⟩

theorem diagnostics_ne_nil_of_lt_depth (DS : StmtsDerivation ts ss) (hsep : DS.Separated)
    (hc : c.ahead = ts) (hd : Parser.maxNesting < DS.depth) :
    (Report.ofTurns (turns c)).diagnostics ≠ [] := by
  obtain ⟨e, he, -⟩ := exists_tooDeep_of_lt_depth DS hsep hc hd
  exact List.ne_nil_of_mem he

theorem diagnostics_eq_nil_iff (DS : StmtsDerivation ts ss) (hsep : DS.Separated)
    (hc : c.ahead = ts) :
    (Report.ofTurns (turns c)).diagnostics = [] ↔ DS.depth ≤ Parser.maxNesting := by
  constructor
  · intro hnil
    exact Nat.not_lt.mp fun hlt => diagnostics_ne_nil_of_lt_depth DS hsep hc hlt hnil
  · intro hd
    rw [ofTurns_of_depth_le DS hsep hc hd]

end ScriptReader
