import ScriptReader.Proofs.Grammar.Basic

/-! How phrases begin and end. -/

namespace ScriptReader

namespace TokenKind

def expressionStarts : List TokenKind :=
  [identifier, integer, trueWord, falseWord, bang, minus, leftParen, ifWord, fnWord]

def expressionEnds : List TokenKind :=
  [identifier, integer, trueWord, falseWord, rightParen, rightBrace]

end TokenKind

theorem ExprDerivation.head {l : Level} {ts : List Token} {e : Expr} :
    ExprDerivation l ts e → ∃ t us, ts = t :: us ∧ t.kind ∈ TokenKind.expressionStarts
  | .tighter _ d => d.head
  | .binary _ _ dl _ => by
    obtain ⟨t, us, rfl, ht⟩ := dl.head
    exact ⟨t, _, rfl, ht⟩
  | .call _ _ d => by
    obtain ⟨t, us, rfl, ht⟩ := d.head
    exact ⟨t, _, rfl, ht⟩
  | .callWith _ _ d _ => by
    obtain ⟨t, us, rfl, ht⟩ := d.head
    exact ⟨t, _, rfl, ht⟩
  | .unary ho _ => by
    refine ⟨_, _, rfl, ?_⟩
    rcases List.mem_cons.mp ho with h | h <;> simp_all [TokenKind.expressionStarts]
  | .identifier h | .integer h _ | .yes h | .no h | .grouping h _ _ | .conditional h _ _ _ _
  | .conditionalElse h _ _ _ _ _ _ | .function h _ _ _ _ =>
    ⟨_, _, rfl, by simp [h, TokenKind.expressionStarts]⟩

theorem ExprDerivation.ne_nil {l : Level} {ts : List Token} {e : Expr}
    (d : ExprDerivation l ts e) : ts ≠ [] := by
  obtain ⟨t, us, rfl, -⟩ := d.head
  simp

theorem ArgumentsDerivation.head {ts : List Token} {es : List Expr} :
    ArgumentsDerivation ts es → ∃ t us, ts = t :: us ∧ t.kind ∈ TokenKind.expressionStarts
  | .one d => d.head
  | .more _ d _ => by
    obtain ⟨t, us, rfl, ht⟩ := d.head
    exact ⟨t, _, rfl, ht⟩

theorem ArgumentsDerivation.ne_nil {ts : List Token} {es : List Expr}
    (d : ArgumentsDerivation ts es) : ts ≠ [] := by
  obtain ⟨t, us, rfl, -⟩ := d.head
  simp

theorem StmtDerivation.head {ts : List Token} {s : Stmt} (d : StmtDerivation ts s) :
    ∃ t us, ts = t :: us ∧ t.kind ∈ .letWord :: .returnWord :: TokenKind.expressionStarts := by
  cases d with
  | define hw | returning hw => exact ⟨_, _, rfl, by simp [hw]⟩
  | expression d =>
    obtain ⟨t, us, h, ht⟩ := d.head
    obtain ⟨rfl, -⟩ := List.cons.inj h
    exact ⟨_, _, rfl, List.mem_cons_of_mem _ (List.mem_cons_of_mem _ ht)⟩

theorem StmtDerivation.ne_nil {ts : List Token} {s : Stmt} (d : StmtDerivation ts s) :
    ts ≠ [] := by
  obtain ⟨t, us, rfl, -⟩ := d.head
  simp

theorem BlockDerivation.head {ts : List Token} {b : Block} (d : BlockDerivation ts b) :
    ∃ t us, ts = t :: us ∧ t.kind = .leftBrace := by
  cases d with
  | braces ho => exact ⟨_, _, rfl, ho⟩

theorem BlockDerivation.ne_nil {ts : List Token} {b : Block} (d : BlockDerivation ts b) :
    ts ≠ [] := by
  cases d
  simp

theorem BlockDerivation.last {ts : List Token} {b : Block} (d : BlockDerivation ts b) :
    ∃ us t, ts = us ++ [t] ∧ t.kind = .rightBrace := by
  cases d with
  | braces _ hc _ => exact ⟨_, _, (List.cons_append ..).symm, hc⟩

/-- An expression ends with a token that can end one. In particular this is no semicolon. -/
theorem ExprDerivation.last {l : Level} {ts : List Token} {e : Expr} :
    ExprDerivation l ts e → ∃ us t, ts = us ++ [t] ∧ t.kind ∈ TokenKind.expressionEnds
  | .tighter _ d => d.last
  | @ExprDerivation.binary _ _ op ls _ _ _ _ _ _ dr => by
    obtain ⟨us, t, rfl, ht⟩ := dr.last
    exact ⟨ls ++ op :: us, t, by simp, ht⟩
  | @ExprDerivation.unary op _ _ _ d => by
    obtain ⟨us, t, rfl, ht⟩ := d.last
    exact ⟨op :: us, t, rfl, ht⟩
  | .identifier h | .integer h _ | .yes h | .no h =>
    ⟨[], _, rfl, by simp [h, TokenKind.expressionEnds]⟩
  | @ExprDerivation.call opening closing fs _ _ h _ =>
    ⟨fs ++ [opening], closing, by simp, by simp [h, TokenKind.expressionEnds]⟩
  | @ExprDerivation.callWith opening closing fs ts _ _ _ h _ _ =>
    ⟨fs ++ opening :: ts, closing, by simp, by simp [h, TokenKind.expressionEnds]⟩
  | @ExprDerivation.grouping opening closing ts _ _ h _ =>
    ⟨opening :: ts, closing, rfl, by simp [h, TokenKind.expressionEnds]⟩
  | @ExprDerivation.conditional word opening closing cs _ _ _ _ _ _ _ db => by
    obtain ⟨us, t, rfl, ht⟩ := db.last
    exact ⟨word :: opening :: (cs ++ closing :: us), t, by simp,
      by simp [ht, TokenKind.expressionEnds]⟩
  | @ExprDerivation.conditionalElse word opening closing other cs bs _ _ _ _ _ _ _ _ _ _ da => by
    obtain ⟨us, t, rfl, ht⟩ := da.last
    exact ⟨word :: opening :: (cs ++ closing :: (bs ++ other :: us)), t, by simp,
      by simp [ht, TokenKind.expressionEnds]⟩
  | @ExprDerivation.function word opening closing ps _ _ _ _ _ _ _ db => by
    obtain ⟨us, t, rfl, ht⟩ := db.last
    exact ⟨word :: opening :: (ps ++ closing :: us), t, by simp,
      by simp [ht, TokenKind.expressionEnds]⟩

end ScriptReader
