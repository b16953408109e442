import ScriptReader.Parser.Program
import ScriptReader.Proofs.Soundness

/-! The turns of reading a program cut its tokens into segments. A segment
whose turn gives a statement is that statement, token for token. -/

namespace ScriptReader

namespace Turn

theorem ofCursor_of_ok {c d : Cursor} {s : Stmt}
    (h : (Parser.statement Parser.expression).run c = .ok s d) :
    ofCursor c = ⟨.ok s, d.advance⟩ := by
  simp only [ofCursor, h]

theorem ofCursor_of_error {c d : Cursor} {e : Diagnostic}
    (h : (Parser.statement Parser.expression).run c = .error e d) :
    ofCursor c = ⟨.error e, (recover e d).advance⟩ := by
  simp only [ofCursor, h]

theorem reaches_next (c : Cursor) : c.Reaches (ofCursor c).next := by
  cases hr : (Parser.statement Parser.expression).run c with
  | ok s d =>
    rw [ofCursor_of_ok hr]
    exact (Parser.reaches_of_ok hr).trans (Cursor.reaches_advance d)
  | error e d =>
    rw [ofCursor_of_error hr]
    exact ((Parser.reaches_of_error hr).trans (reaches_recover e d)).trans
      (Cursor.reaches_advance _)

/-- The tokens that the turn at a cursor takes. -/
def segment (c : Cursor) : List Token :=
  c.ahead.take (c.ahead.length - (ofCursor c).next.ahead.length)

theorem segment_append_next (c : Cursor) : segment c ++ (ofCursor c).next.ahead = c.ahead := by
  obtain ⟨pre, h⟩ := (reaches_next c).suffix
  rw [segment, ← h]
  simp

theorem segment_ne_nil {c : Cursor} (h : c.ahead ≠ []) : segment c ≠ [] := by
  intro hs
  have ha := segment_append_next c
  have hl := next_length_lt h
  rw [hs, List.nil_append] at ha
  exact Nat.lt_irrefl _ (ha ▸ hl)

theorem segment_of_spans {c d : Cursor} {s : Stmt} {ts : List Token}
    (h : (Parser.statement Parser.expression).run c = .ok s d) (hs : c.Spans ts d) :
    segment c = ts := by
  have ha := segment_append_next c
  rw [ofCursor_of_ok h, hs.ahead] at ha
  exact List.append_cancel_right ha

/-- The segment of a turn that gives a statement is a phrase for it. -/
theorem segment_derivation {c : Cursor} {s : Stmt} (h : (ofCursor c).item = .ok s) :
    ∃ D : StmtDerivation (segment c) s, D.depth ≤ Parser.maxNesting ∧ D.Separated := by
  cases hr : (Parser.statement Parser.expression).run c with
  | error e d => simp [ofCursor_of_error hr] at h
  | ok s' d =>
    obtain rfl : s' = s := by simpa [ofCursor_of_ok hr] using h
    obtain ⟨ts, hs, hd, -⟩ :=
      Parser.statement_sound (Parser.expressionWithin_sound Parser.maxNesting) hr
    rwa [segment_of_spans hr hs]

end Turn

/-- The segments that the turns from a cursor on take, one for each turn. -/
def segments (c : Cursor) : List (List Token) :=
  if h : c.ahead = [] then []
  else
    have := Turn.next_length_lt h
    Turn.segment c :: segments (Turn.ofCursor c).next
termination_by c.ahead.length

theorem segments_of_nil {c : Cursor} (h : c.ahead = []) : segments c = [] := by
  rw [segments, dif_pos h]

theorem segments_of_ne_nil {c : Cursor} (h : c.ahead ≠ []) :
    segments c = Turn.segment c :: segments (Turn.ofCursor c).next := by
  rw [segments, dif_neg h]

theorem turns_of_nil {c : Cursor} (h : c.ahead = []) : turns c = [] := by
  rw [turns, dif_pos h]

theorem turns_of_ne_nil {c : Cursor} (h : c.ahead ≠ []) :
    turns c = Turn.ofCursor c :: turns (Turn.ofCursor c).next := by
  rw [turns, dif_neg h]

theorem Report.ofTurns_cons (t : Turn) (us : List Turn) :
    Report.ofTurns (t :: us) =
      ⟨⟨t.statement?.toList ++ (Report.ofTurns us).program.statements⟩,
        t.diagnostic?.toList ++ (Report.ofTurns us).diagnostics⟩ := by
  obtain ⟨item, next⟩ := t
  cases item <;> rfl

/-- Turns are taken one after the other, each from a place that is further on. -/
theorem turns_induction {P : Cursor → Prop} (hnil : ∀ c, c.ahead = [] → P c)
    (hturn : ∀ c, c.ahead ≠ [] → P (Turn.ofCursor c).next → P c) (c : Cursor) : P c := by
  induction hn : c.ahead.length using Nat.strongRecOn generalizing c with
  | ind n ih =>
    by_cases h : c.ahead = []
    · exact hnil c h
    · exact hturn c h (ih _ (hn ▸ Turn.next_length_lt h) _ rfl)

theorem flatten_segments (c : Cursor) : (segments c).flatten = c.ahead := by
  induction c using turns_induction with
  | hnil c h => rw [segments_of_nil h, h, List.flatten_nil]
  | hturn c h ih =>
    rw [segments_of_ne_nil h, List.flatten_cons, ih, Turn.segment_append_next]

theorem ne_nil_of_mem_segments {c : Cursor} {seg : List Token} (h : seg ∈ segments c) :
    seg ≠ [] := by
  induction c using turns_induction with
  | hnil c hc => simp [segments_of_nil hc] at h
  | hturn c hc ih =>
    rw [segments_of_ne_nil hc] at h
    rcases List.mem_cons.mp h with rfl | h
    · exact Turn.segment_ne_nil hc
    · exact ih h

/-- Each turn starts behind the segments before its own. -/
theorem turns_getElem? {c : Cursor} {i : Nat} {t : Turn} (h : (turns c)[i]? = some t) :
    t = Turn.ofCursor ⟨((segments c).drop i).flatten, c.stop⟩ := by
  induction c using turns_induction generalizing i with
  | hnil c hc => simp [turns_of_nil hc] at h
  | hturn c hc ih =>
    rw [turns_of_ne_nil hc] at h
    cases i with
    | zero =>
      rw [List.getElem?_cons_zero, Option.some.injEq] at h
      rw [List.drop_zero, flatten_segments, ← h]
    | succ i =>
      rw [List.getElem?_cons_succ] at h
      rw [segments_of_ne_nil hc, List.drop_succ_cons, ← (Turn.reaches_next c).stop]
      exact ih h

theorem segments_forall₂ (c : Cursor) :
    List.Forall₂ (fun seg t => ∀ s, t.item = .ok s →
      ∃ D : StmtDerivation seg s, D.depth ≤ Parser.maxNesting ∧ D.Separated)
      (segments c) (turns c) := by
  induction c using turns_induction with
  | hnil c h =>
    rw [segments_of_nil h, turns_of_nil h]
    exact .nil
  | hturn c h ih =>
    rw [segments_of_ne_nil h, turns_of_ne_nil h]
    exact .cons (fun _ => Turn.segment_derivation) ih

/-- Each statement was read from a segment. -/
theorem exists_derivation_of_mem_statements {c : Cursor} {s : Stmt}
    (h : s ∈ (Report.ofTurns (turns c)).program.statements) :
    ∃ seg ∈ segments c, ∃ D : StmtDerivation seg s,
      D.depth ≤ Parser.maxNesting ∧ D.Separated := by
  induction c using turns_induction with
  | hnil c hc =>
    rw [turns_of_nil hc] at h
    contradiction
  | hturn c hc ih =>
    rw [turns_of_ne_nil hc, Report.ofTurns_cons] at h
    rw [segments_of_ne_nil hc]
    rcases List.mem_append.mp h with hturn | hlater
    · have hitem : (Turn.ofCursor c).item = .ok s := by
        cases hi : (Turn.ofCursor c).item <;> simp_all [Turn.statement?, Except.toOption]
      exact ⟨_, List.mem_cons_self, Turn.segment_derivation hitem⟩
    · obtain ⟨seg, hseg, hD⟩ := ih hlater
      exact ⟨seg, List.mem_cons_of_mem _ hseg, hD⟩

/-- Each diagnostic is that of a turn. -/
theorem exists_item_of_mem_diagnostics {c : Cursor} {e : Diagnostic}
    (h : e ∈ (Report.ofTurns (turns c)).diagnostics) :
    ∃ m, c.Reaches m ∧ m.ahead ≠ [] ∧ (Turn.ofCursor m).item = .error e := by
  induction c using turns_induction with
  | hnil c hc =>
    rw [turns_of_nil hc] at h
    contradiction
  | hturn c hc ih =>
    rw [turns_of_ne_nil hc, Report.ofTurns_cons] at h
    rcases List.mem_append.mp h with hturn | hlater
    · have hitem : (Turn.ofCursor c).item = .error e := by
        unfold Turn.diagnostic? at hturn
        split at hturn <;> simp_all
      exact ⟨c, .refl c, hc, hitem⟩
    · obtain ⟨m, hm, hne, hitem⟩ := ih hlater
      exact ⟨m, (Turn.reaches_next c).trans hm, hne, hitem⟩

def Cursor.ofSource (source : String) (file : Option String) : Cursor :=
  .ofLexer (.ofSource source file)

theorem ahead_ofSource (source : String) (file : Option String) :
    (Cursor.ofSource source file).ahead = (tokenize source file).dropLast := by
  simp [tokenize, Cursor.ofSource, Cursor.ofLexer]

/-- A program is read in turns that cut its tokens into segments, which leave nothing out and of
which none is empty. Each turn gives a statement or a diagnostic, and these make up the report in
the order of the segments. A segment that gives a statement is a phrase for it: the tree of the
statement is that of the phrase, with the very tokens of the segment. -/
theorem ofSource_segments (source : String) (file : Option String) :
    (segments (.ofSource source file)).flatten = (tokenize source file).dropLast ∧
      (∀ seg ∈ segments (.ofSource source file), seg ≠ []) ∧
      (∀ i t, (turns (.ofSource source file))[i]? = some t →
        t = Turn.ofCursor ⟨((segments (.ofSource source file)).drop i).flatten,
          (Lexer.ofSource source file).stop⟩) ∧
      List.Forall₂ (fun seg t => ∀ s, t.item = .ok s →
        ∃ D : StmtDerivation seg s, D.depth ≤ Parser.maxNesting ∧ D.Separated)
        (segments (.ofSource source file)) (turns (.ofSource source file)) ∧
      (Report.ofSource source file).program.statements =
        (turns (.ofSource source file)).filterMap Turn.statement? ∧
      (Report.ofSource source file).diagnostics =
        (turns (.ofSource source file)).filterMap Turn.diagnostic? :=
  ⟨(flatten_segments _).trans (ahead_ofSource source file), fun _ => ne_nil_of_mem_segments,
    fun _ _ => turns_getElem?, segments_forall₂ _, rfl, rfl⟩

end ScriptReader
