import ScriptReader.Proofs.RoundTrip

/-! Phrases are unambiguous, however deep their expressions lie within one
another. So the text of a program tells it from all programs that differ from it
in more than their tokens. -/

namespace ScriptReader

variable {ts : List Token} {ss ss' : List Stmt}

/-- Tokens are a phrase for at most one row of statements, if each is apart from the next. -/
theorem StmtsDerivation.unique (D : StmtsDerivation ts ss) (D' : StmtsDerivation ts ss')
    (h : D.Separated) (h' : D'.Separated) : ss = ss' := by
  -- In front of a closing brace, a reader that allows for the nesting of both reads either.
  let closing : Token := ⟨.rightBrace, "\x7d", ⟨.null, .null⟩⟩
  let c : Cursor := ⟨ts ++ [closing], .null⟩
  let d : Cursor := ⟨[closing], .null⟩
  let n := max D.depth D'.depth
  have hread := (D.reads h (n := n) (c := c) (d := d) rfl rfl rfl).eq
    (D.deepest_starts ▸ Nat.le_max_left _ _)
  have hread' := (D'.reads h' (n := n) (c := c) (d := d) rfl rfl rfl).eq
    (D'.deepest_starts ▸ Nat.le_max_right _ _)
  exact (Outcome.ok.inj (hread.symm.trans hread')).1

theorem StatementsHavePhrase.unique (h : StatementsHavePhrase ss ts)
    (h' : StatementsHavePhrase ss' ts) : mapStatements .blank ss = mapStatements .blank ss' := by
  obtain ⟨read, D, hmap, -, hsep⟩ := h
  obtain ⟨read', D', hmap', -, hsep'⟩ := h'
  rw [← hmap, ← hmap', D.unique D' hsep hsep']

/-- Programs with the same text are the same but for their tokens. -/
theorem Program.bare_eq_of_text_eq {p q : Program} (hp : p.WellFormed) (hq : q.WellFormed)
    (h : p.text = q.text) : p.bare = q.bare := by
  have hphrase := Program.hasPhrase_text hp none
  have hphrase' := Program.hasPhrase_text hq none
  rw [← h] at hphrase'
  have hbare := hphrase.unique hphrase'
  rw [mapStatements_eq_map, mapStatements_eq_map] at hbare
  exact congrArg Program.mk hbare

/-- A function is defined and called, with tokens from two places. -/
theorem Program.bare_eq_of_text_eq_call :
    let t (k : TokenKind) (text : String) (n : Nat) : Token := ⟨k, text, .ofOffsets "shell" n n⟩
    let name (n : Nat) : Identifier := ⟨t .identifier "x" n, "x"⟩
    let p (n : Nat) : Program :=
      ⟨[.define (t .letWord "let" n) (name n)
          (.function (t .fnWord "fn" n) [name n]
            ⟨t .leftBrace "\x7b" n, [.returning (t .returnWord "return" n)
              (.unary (t .bang "!" n) "!" (.identifier (name n)))]⟩),
        .expression (t .identifier "x" n)
          (.call (t .leftParen "(" n) (.identifier (name n)) [.integer (t .integer "05" n) 5])]⟩
    (p 0).WellFormed ∧ (p 1).WellFormed ∧ (p 0).text = (p 1).text ∧ p 0 ≠ p 1 ∧
      (p 0).bare = (p 1).bare := by
  intro t name p
  have hname (n : Nat) : (name n).WellFormed := by
    change "x" ≠ "" ∧ (∀ c ∈ "x".toList, isWordChar c = true) ∧
      "x" ∉ TokenKind.reservedWords.map Prod.fst
    exact ⟨by decide, List.all_eq_true.mp (by decide), by decide⟩
  have hp (n : Nat) : (p n).WellFormed := by
    have hbody : (Stmt.returning (t .returnWord "return" n)
        (.unary (t .bang "!" n) "!" (.identifier (name n)))).WellFormed :=
      ⟨rfl, by decide, hname n⟩
    have hfive : (0 : Int) ≤ 5 ∧ (5 : Int) ≤ Parser.maxInteger := by decide
    refine List.forall_mem_cons.mpr ⟨?_, List.forall_mem_singleton.mpr ?_⟩
    · exact ⟨rfl, hname n, rfl, List.forall_mem_singleton.mpr (hname n), hbody, trivial⟩
    · exact ⟨hname n, hfive, trivial⟩
  have htext : (p 0).text = (p 1).text := rfl
  exact ⟨hp 0, hp 1, htext, by decide +kernel, Program.bare_eq_of_text_eq (hp 0) (hp 1) htext⟩

end ScriptReader
