import ScriptReader.Proofs.Machine.Faithful
import ScriptReader.Proofs.Segments

/-! The machine reads whole programs as they are read turn by turn, and ends at
the end of its source. -/

namespace ScriptReader

namespace Parser

/-- Goes on to a token of one of the kinds, or to the end. -/
def skipTo (kinds : List TokenKind) : Parser Unit :=
  ⟨fun c => .ok () (c.skipTo kinds), Cursor.reaches_skipTo kinds⟩

end Parser

namespace Cursor

theorem skipTo_of_isOneOf {kinds : List TokenKind} {c : Cursor} (h : c.current.isOneOf kinds) :
    c.skipTo kinds = c := by
  obtain ⟨ahead, stop⟩ := c
  cases ahead with
  | nil => rfl
  | cons t ts =>
    have ht : t.isOneOf kinds = true := h
    simp [skipTo, ht]

theorem skipTo_of_not_isOneOf {kinds : List TokenKind} {c : Cursor}
    (h : ¬c.current.isOneOf kinds) : c.skipTo kinds = c.advance.skipTo kinds := by
  obtain ⟨ahead, stop⟩ := c
  cases ahead with
  | nil => rfl
  | cons t ts =>
    have ht : ¬t.isOneOf kinds = true := h
    simp [skipTo, advance, ht]

end Cursor

/-- There is nothing ahead just where the end token is the current one. -/
theorem Lexer.kind_token_eq_eof_iff {l : Lexer} {i : Nat} :
    (l.token i).kind = .eof ↔ (l.cursorAt i).ahead = [] := by
  rw [← l.current_cursorAt, cursorAt, Cursor.ofLexer, Cursor.current]
  cases ht : (l.skip i).tokens with
  | nil => simp [Cursor.endToken, Token.ofEnd]
  | cons t ts =>
    have hspelled := spelled_of_mem_tokens (l := l.skip i) (t := t) (by simp [ht])
    simp [hspelled.kind_ne_eof]

namespace Machine

variable {l : Lexer} {k i : Nat} {s : Trail}

/-- Moves from the depth 0 back to it, which add the diagnostics `ds` to those kept. -/
structure Records (l : Lexer) (i : Nat) (m : Machine) (ms : List Move) (ds : List Diagnostic) :
    Prop where
  place : (m.after ms).At l (i + steps ms) 0
  steady : Steady l i m ms
  diagnostics : (m.after ms).diagnostics = m.diagnostics ++ ds

namespace Records

variable {m : Machine} {ms ns : List Move} {ds es : List Diagnostic}

theorem of_balanced (h : Balanced 0 ms) (hm : m.At l i 0) : Records l i m ms [] :=
  ⟨h.after hm, h.steady (Nat.zero_le _) hm, by rw [h.quiet.diagnostics_after, List.append_nil]⟩

theorem singleton (hm : m.At l i 0) (e : Diagnostic) : Records l i m [.record e] [e] :=
  ⟨hm.record e, .singleton hm (Nat.zero_le _) nofun (hm.record e) (Nat.zero_le _), rfl⟩

theorem append (h : Records l i m ms ds) (h' : Records l (i + steps ms) (m.after ms) ns es) :
    Records l i m (ms ++ ns) (ds ++ es) where
  place := by
    rw [after_append, steps_append, ← Nat.add_assoc]
    exact h'.place
  steady := h.steady.append h'.steady
  diagnostics := by rw [after_append, h'.diagnostics, h.diagnostics, List.append_assoc]

end Records

namespace Procedure

theorem simulates_skipStatement :
    Simulates l k skipStatement.task (Parser.skipTo [.semicolon, .eof]) := by
  intro i
  -- On what is ahead, of which every step leaves one token less.
  induction hn : (l.cursorAt i).ahead.length using Nat.strongRecOn generalizing i with
  | ind n ih =>
    rw [task]
    refine .currentToken ?_
    by_cases hkind : (l.token i).isOneOf [.semicolon, .eof]
    · rw [if_pos hkind]
      refine .congr (.pure ()) ?_
      rw [← l.current_cursorAt] at hkind
      exact congrArg (Outcome.ok ()) (Cursor.skipTo_of_isOneOf hkind)
    · rw [if_neg hkind]
      have hrun : (Parser.skipTo [.semicolon, .eof]).run (l.cursorAt i) =
          (Parser.advance >>= fun _ => Parser.skipTo [.semicolon, .eof]).run (l.cursorAt i) := by
        rw [← l.current_cursorAt] at hkind
        exact congrArg (Outcome.ok ()) (Cursor.skipTo_of_not_isOneOf hkind)
      have hlength : (l.cursorAt (i + 1)).ahead.length < n := by
        have hend : (l.token i).kind ≠ .eof := by
          intro he
          simp [Token.isOneOf, he] at hkind
        have hpos := List.length_pos_iff.mpr fun he => hend (Lexer.kind_token_eq_eof_iff.mpr he)
        rw [← l.advance_cursorAt, Cursor.length_advance]
        omega
      exact .congr (.advance (ih _ hlength (i + 1) rfl)) hrun

theorem simulates_expression_zero (power : BindingPower) :
    Simulates l 0 (expression power).task (Parser.expression power) :=
  simulates_expression Parser.maxNesting (Nat.zero_add _) power

theorem on_recover (e : Diagnostic) (hs : s.machine.At l i k) :
    ∃ ms, Balanced k ms ∧ (recover e).task.on s = some (.ok (), s.after ms) ∧
      Turn.recover e (l.cursorAt i) = l.cursorAt (i + steps ms) := by
  cases hcause : e.cause with
  | tooDeep n =>
    rw [task, Turn.recover, hcause]
    exact simulates_skipStatement i s hs
  | _ =>
    rw [task, Turn.recover, hcause]
    exact ⟨[], .nil, by rw [Trail.after_nil]; rfl, rfl⟩

theorem on_turn (hs : s.machine.At l i 0) :
    ∃ ms, Records l i s.machine ms (Turn.ofCursor (l.cursorAt i)).diagnostic?.toList ∧
      turn.task.on s = some (.ok (Turn.ofCursor (l.cursorAt i)).statement?, s.after ms) ∧
      (Turn.ofCursor (l.cursorAt i)).next = l.cursorAt (i + steps ms) := by
  obtain ⟨ms, hms, ht, hc⟩ := simulates_statement simulates_expression_zero i s hs
  have hread := Records.of_balanced hms hs
  rw [task, Task.on_caught, ht]
  cases hr : (Parser.statement Parser.expression).run (l.cursorAt i) with
  | ok st d =>
    rw [hr] at hc
    obtain rfl : d = l.cursorAt (i + steps ms) := hc
    have hadvance := Records.of_balanced (.advance .nil) hread.place
    rw [Turn.ofCursor_of_ok hr, l.advance_cursorAt]
    refine ⟨ms ++ [.advance], hread.append hadvance, ?_, ?_⟩
    · rw [← Trail.after_after]
      rfl
    · rw [steps_append, ← Nat.add_assoc]
      rfl
  | error e d =>
    rw [hr] at hc
    obtain rfl : d = l.cursorAt (i + steps ms) := hc
    -- The machine stands where the statement gave up, at the depth 0 again.
    obtain ⟨ns, hns, hrecover, hskipped⟩ := on_recover (s := s.after ms) e hread.place
    have hskip := Records.of_balanced hns hread.place
    have hrecord := Records.singleton hskip.place e
    have hadvance := Records.of_balanced (.advance .nil) hrecord.place
    have hall := hread.append (hskip.append (hrecord.append hadvance))
    rw [Turn.ofCursor_of_error hr, hskipped, l.advance_cursorAt]
    refine ⟨ms ++ (ns ++ ([.record e] ++ [.advance])), hall, ?_, ?_⟩
    · change ((recover e).task >>= fun _ => make (.record e) >>= fun _ => advance >>= fun _ =>
        pure none).on (s.after ms) = _
      rw [Task.on_bind, hrecover]
      simp only [← Trail.after_after]
      rfl
    · simp [Nat.add_assoc]

theorem on_turnsFrom (hs : s.machine.At l i 0) (ss : List Stmt) :
    ∃ ms, Records l i s.machine ms (Report.ofTurns (turns (l.cursorAt i))).diagnostics ∧
      (turnsFrom ss).task.on s =
        some (.ok (ss ++ (Report.ofTurns (turns (l.cursorAt i))).program.statements), s.after ms) ∧
      (l.cursorAt i).finish = l.cursorAt (i + steps ms) := by
  induction hn : (l.cursorAt i).ahead.length using Nat.strongRecOn generalizing i s ss with
  | ind n ih =>
    rw [task, currentToken, on_look, hs.current]
    by_cases hend : (l.token i).kind = .eof
    · have hnil := Lexer.kind_token_eq_eof_iff.mp hend
      rw [if_pos hend, turns_of_nil hnil]
      refine ⟨[], .of_balanced .nil hs, ?_, ?_⟩
      · rw [Trail.after_nil]
        simp [Report.ofTurns, Task.on_pure]
      · rw [Cursor.finish, ← hnil]
        rfl
    · have hne : (l.cursorAt i).ahead ≠ [] := fun he => hend (Lexer.kind_token_eq_eof_iff.mpr he)
      have hlt := Turn.next_length_lt hne
      obtain ⟨ms, hms, hturn, hnext⟩ := on_turn hs
      rw [hnext, hn] at hlt
      obtain ⟨ns, hns, hrest, hfinish⟩ :=
        ih _ hlt (s := s.after ms) hms.place
          (ss ++ (Turn.ofCursor (l.cursorAt i)).statement?.toList) rfl
      rw [if_neg hend, turns_of_ne_nil hne, Report.ofTurns_cons, hnext]
      refine ⟨ms ++ ns, hms.append hns, ?_, ?_⟩
      · rw [Task.on_bind, hturn, ← Trail.after_after, ← List.append_assoc]
        exact hrest
      · rw [steps_append, ← Nat.add_assoc, ← hfinish, Cursor.finish, Cursor.finish, ← hnext,
          (Turn.reaches_next _).stop]

/-- A program is read from where the machine stands, whatever it kept and counted before. -/
theorem on_program (hs : s.machine.At l i k) :
    ∃ ms, Records l i (s.machine.move .clear) ms
        (Report.ofTurns (turns (l.cursorAt i))).diagnostics ∧
      program.task.on s =
        some (.ok (Report.ofTurns (turns (l.cursorAt i))).program, s.after (.clear :: ms)) ∧
      (l.cursorAt i).finish = l.cursorAt (i + steps ms) := by
  obtain ⟨ms, hms, hturns, hfinish⟩ := on_turnsFrom (s := s.after [.clear]) hs.clear []
  refine ⟨ms, hms, ?_, hfinish⟩
  rw [task, Task.on_bind, on_make]
  change ((turnsFrom []).task.on (s.after [.clear])).bind _ = _
  rw [hturns, Trail.after_after]
  rfl

end Procedure

end Machine

end ScriptReader
