import ScriptReader.Proofs.Ascending
import ScriptReader.Proofs.Failing.Locality
import ScriptReader.Proofs.Failing.Viability
import ScriptReader.Proofs.Grammar.Regrouping
import ScriptReader.Proofs.Programs

/-! Diagnostics come at the first token that cannot stand where it does. -/

namespace ScriptReader

/-- The tokens begin a statement of the grammar. -/
def BeginsStmt (ts : List Token) : Prop :=
  Viable (fun us => ∃ s, Nonempty (StmtDerivation us s)) ts

theorem beginsStmt_iff {ts : List Token} : BeginsStmt ts ↔ Viable FlatStmt ts := by
  constructor
  · rintro ⟨us, s, ⟨D⟩⟩
    exact ⟨us, D.flat⟩
  · rintro ⟨us, h⟩
    obtain ⟨s, D, -⟩ := h.phrase
    exact ⟨us, s, ⟨D⟩⟩

/-- If the reader stops at a token, no statement has this token there. It would be read otherwise,
as what is behind the token was not looked at. -/
theorem not_viable_of_error {c d : Cursor} {e : Diagnostic} {ts : List Token}
    (h : (Parser.statement Parser.expression).run c = .error e d)
    (hdeep : ∀ n, e.cause ≠ .tooDeep n) (hc : c.ahead = ts ++ (e.cause.site d).ahead) :
    ¬Viable FlatStmt (ts ++ [(e.cause.site d).current]) := by
  rintro ⟨us, hus⟩
  cases ha : (e.cause.site d).ahead with
  | nil =>
    have hend : (e.cause.site d).current.kind = .eof := by
      simp [Cursor.current, ha, Cursor.endToken, Token.ofEnd]
    exact (hus.legal (e.cause.site d).current (by simp)).ne_eof hend
  | cons t rest =>
    have ht : (e.cause.site d).current = t := Cursor.current_of_head? (by simp [ha])
    rw [ht] at hus
    have hgraft : c.graft rest.length ⟨us, c.stop⟩ = ⟨ts ++ [t] ++ us, c.stop⟩ := by
      obtain ⟨ahead, stop⟩ := c
      rw [ha, ← List.singleton_append, ← List.append_assoc] at hc
      subst hc
      exact Cursor.graft_of_append
    have hlocal : Parser.Local (Parser.statement Parser.expression) :=
      Parser.local_statement (Parser.expressionWithin_local Parser.maxNesting)
    have hread := @hlocal rest.length ⟨us, c.stop⟩ c
    rw [h, hgraft] at hread
    obtain ⟨s, D, hsep⟩ := hus.phrase
    obtain ⟨m, -, hcap⟩ := Turn.capped_statement (c := ⟨ts ++ [t] ++ us, c.stop⟩) D hsep .nil
      (.inr (by simp)) (List.append_nil _).symm
    rw [hread (by simp [ha])] at hcap
    cases hx : tooDeep? Parser.maxNesting D.starts with
    | none => exact absurd ((Parser.capped_iff_of_none hx).mp hcap) (by simp)
    | some x =>
      obtain ⟨k, herror, -⟩ := (Parser.capped_iff_of_some hx).mp hcap
      obtain ⟨rfl, -⟩ := Outcome.error.inj herror
      exact hdeep _ rfl

theorem Cause.stop_site (cause : Cause) (d : Cursor) : (cause.site d).stop = d.stop := by
  unfold site
  split <;> rfl

/-- Each turn that gives a diagnostic, unless it is about nesting, is about the first token that no
statement can have in its place: the tokens of the turn before that one begin a statement, and with
it they do not. If another kind of token was expected there, then with any token of that kind they
do. -/
theorem ofSource_earliest {source : String} {file : Option String} {i : Nat} {t : Turn}
    {e : Diagnostic} (hlength : source.utf8ByteSize < 4294967296)
    (ht : (turns (.ofSource source file))[i]? = some t) (he : t.item = .error e)
    (hdeep : ∀ n, e.cause ≠ .tooDeep n) :
    ∃ (read : List Token) (offending : Token) (rest : List Token),
      ((segments (.ofSource source file)).drop i).flatten ++
          [(Lexer.ofSource source file).endToken] = read ++ offending :: rest ∧
      offending.span.start = e.position ∧
      (∀ us u vs, read ++ offending :: rest = us ++ u :: vs → u.span.start = e.position →
        us = read ∧ u = offending) ∧
      BeginsStmt read ∧ ¬BeginsStmt (read ++ [offending]) ∧
      ∀ expected found, e.cause = .unexpected expected found → ∀ u : Token, u.kind = expected →
        BeginsStmt (read ++ [u]) := by
  let l := Lexer.ofSource source file
  let c : Cursor := ⟨((segments (.ofSource source file)).drop i).flatten, l.stop⟩
  obtain rfl : t = Turn.ofCursor c := turns_getElem? ht
  have hsuffix : c.ahead <:+ l.tokens := by
    refine ⟨((segments (.ofSource source file)).take i).flatten, ?_⟩
    rw [← List.flatten_append, List.take_append_drop, flatten_segments]
    rfl
  have hlimit : l.limit ≤ maxOffset := Lexer.limit_ofSource_le hlength
  have hascending : Ascending (c.ahead ++ [l.endToken]) :=
    (Lexer.ascending_tokens hlimit).sublist (hsuffix.sublist.append_right _)
  cases hr : (Parser.statement Parser.expression).run c with
  | ok s d => simp [Turn.ofCursor_of_ok hr] at he
  | error e' d =>
    obtain rfl : e' = e := by simpa [Turn.ofCursor_of_error hr] using he
    have hjust : Parser.Justified FlatStmt c (.error e' d : Outcome Stmt) :=
      hr ▸ Parser.justified_statement (Parser.expressionWithin_justified Parser.maxNesting)
    obtain ⟨read, hx⟩ := hjust hdeep
    have hstop : (e'.cause.site d).stop = c.stop :=
      (e'.cause.stop_site d).trans (hr ▸ (Parser.statement Parser.expression).forward c).stop
    obtain ⟨rest, hrest⟩ := (e'.cause.site d).exists_current
    rw [Cursor.endToken, hstop] at hrest
    have hsplit : c.ahead ++ [l.endToken] = read ++ (e'.cause.site d).current :: rest := by
      rw [hx.ahead, List.append_assoc, ← hrest]
      rfl
    refine ⟨read, (e'.cause.site d).current, rest, hsplit, hx.position.symm, ?_,
      beginsStmt_iff.mpr hx.viable, ?_, ?_⟩
    · intro us u vs heq hu
      rw [hsplit] at hascending
      obtain ⟨rfl, rfl⟩ := hascending.split_unique heq (hx.position.symm.trans hu.symm)
      exact ⟨rfl, rfl⟩
    · exact fun h => not_viable_of_error hr hdeep hx.ahead (beginsStmt_iff.mp h)
    · exact fun kind found hk u hu => beginsStmt_iff.mpr (hx.expected kind found hk u hu)

/-- A definition without `=`: a number cannot stand behind the name, but `=` can. -/
theorem ofSource_earliest_define :
    let source := String.ofList ['l', 'e', 't', ' ', 'x', ' ', '5']
    let turn := Turn.ofCursor (.ofSource source none)
    let e : Diagnostic := ⟨.unexpected .assign .integer, ⟨6, "shell"⟩⟩
    let word : Token := ⟨.letWord, "let", .ofOffsets "shell" 0 3⟩
    let name : Token := ⟨.identifier, "x", .ofOffsets "shell" 4 5⟩
    let number : Token := ⟨.integer, "5", .ofOffsets "shell" 6 7⟩
    source.utf8ByteSize < 4294967296 ∧ (turns (.ofSource source none))[0]? = some turn ∧
      turn.item = .error e ∧ (∀ n, e.cause ≠ .tooDeep n) ∧
      BeginsStmt [word, name] ∧ ¬BeginsStmt [word, name, number] ∧
      ∀ u : Token, u.kind = .assign → BeginsStmt [word, name, u] := by
  intro source turn e word name number
  have hsource : Lexer.ofSource source none =
      ⟨['l', 'e', 't', ' ', 'x', ' ', '5'], 0, "shell"⟩ := by
    decide
  have hcursor : Cursor.ofSource source none = ⟨[word, name, number], ⟨7, "shell"⟩⟩ := by
    change Cursor.ofLexer (Lexer.ofSource source none) = _
    rw [hsource, Cursor.ofLexer, Lexer.tokens_of_next?_some rfl, Lexer.tokens_of_next?_some rfl,
      Lexer.tokens_of_next?_some rfl, Lexer.tokens_of_next?_none rfl]
    decide
  have hlength : source.utf8ByteSize < 4294967296 := by
    rw [utf8ByteSize_ofList]
    decide
  have hturn : (turns (.ofSource source none))[0]? = some turn := by
    rw [turns_of_ne_nil (by simp [hcursor])]
    rfl
  have hrun : (Parser.statement Parser.expression).run (.ofSource source none) =
      .error e ⟨[name, number], ⟨7, "shell"⟩⟩ := by
    rw [hcursor]
    rfl
  have hitem : turn.item = .error e := congrArg Turn.item (Turn.ofCursor_of_error hrun)
  have hdeep : ∀ n, e.cause ≠ .tooDeep n := by simp [e]
  obtain ⟨read, offending, rest, hsplit, -, hunique, hread, hnot, hexpected⟩ :=
    ofSource_earliest hlength hturn hitem hdeep
  rw [List.drop_zero, flatten_segments, hcursor] at hsplit
  obtain ⟨rfl, rfl⟩ := hunique [word, name] number _ hsplit.symm rfl
  exact ⟨hlength, hturn, hitem, hdeep, hread, hnot, hexpected _ _ rfl⟩

end ScriptReader
