import ScriptReader.Proofs.Grammar.Flat

/-! Token lists of the language without levels are phrases by levels: operands
and operators are grouped anew, and a statement that could go on with the next
one does. -/

namespace ScriptReader

/-- The tokens are a phrase of the level for some tree, with the statements in its blocks apart. -/
def Phrase (l : Level) (ts : List Token) : Prop :=
  ∃ e : Expr, ∃ D : ExprDerivation l ts e, D.Separated

def PhraseArguments (ts : List Token) : Prop :=
  ∃ es : List Expr, ∃ D : ArgumentsDerivation ts es, D.Separated

def PhraseStmt (ts : List Token) : Prop := ∃ s : Stmt, ∃ D : StmtDerivation ts s, D.Separated

def PhraseStmts (ts : List Token) : Prop :=
  ∃ ss : List Stmt, ∃ D : StmtsDerivation ts ss, D.Separated

def PhraseBlock (ts : List Token) : Prop := ∃ b : Block, ∃ D : BlockDerivation ts b, D.Separated

namespace Level

theorem next?_of_operators {l : Level} {k : TokenKind} (h : k ∈ l.operators) :
    ∃ l' : Level, l.next? = some l' ∧ l'.rank ≤ Level.unary.rank := by
  cases l <;> first | exact ⟨_, rfl, by decide⟩ | contradiction

theorem rank_lt_of_operators {l : Level} {k : TokenKind} (h : k ∈ l.operators) :
    l.rank < Level.unary.rank := by
  obtain ⟨l', hl, hle⟩ := next?_of_operators h
  have hrank := rank_of_next? hl
  omega

theorem rank_lt_of_ne {l m : Level} (h : l.rank ≤ m.rank) (hne : l ≠ m) : l.rank < m.rank := by
  refine Nat.lt_of_le_of_ne h fun he => hne ?_
  cases l <;> cases m <;> first | rfl | contradiction

end Level

namespace Phrase

variable {l l' : Level} {op : Token} {ts us ls rs : List Token}

theorem looser (h : Phrase l' ts) (hl : l.rank ≤ l'.rank) : Phrase l ts := by
  obtain ⟨e, D, hs⟩ := h
  obtain ⟨D', -, hs'⟩ := D.exists_looser hl
  exact ⟨e, D', hs'.mpr hs⟩

theorem ne_nil (h : Phrase l ts) : ts ≠ [] := by
  obtain ⟨e, D, -⟩ := h
  exact D.ne_nil

theorem tighter (hn : l.next? = some l') (h : Phrase l' ts) : Phrase l ts := by
  obtain ⟨e, D, hs⟩ := h
  exact ⟨e, .tighter hn D, hs⟩

theorem binary (hn : l.next? = some l') (ho : op.kind ∈ l.operators) (hl : Phrase l ls)
    (hr : Phrase l' rs) : Phrase l (ls ++ op :: rs) := by
  obtain ⟨e, L, hls⟩ := hl
  obtain ⟨e', R, hrs⟩ := hr
  exact ⟨_, .binary hn ho L R, hls, hrs⟩

theorem unary (ho : op.kind ∈ [.bang, .minus]) (h : Phrase .unary ts) :
    Phrase .unary (op :: ts) := by
  obtain ⟨e, D, hs⟩ := h
  exact ⟨_, .unary ho D, hs⟩

/-- Phrases down to calls, by what they are put together from. -/
theorem induction {P : Level → List Token → Prop} (call : ∀ {ts}, Phrase .call ts → P .call ts)
    (unary : ∀ {op : Token} {ts}, op.kind ∈ [.bang, .minus] → Phrase .unary ts → P .unary ts →
      P .unary (op :: ts))
    (tighter : ∀ {l l' : Level} {ts}, l.next? = some l' → Phrase l' ts → P l' ts → P l ts)
    (binary : ∀ {l l' : Level} {op : Token} {ls rs}, l.next? = some l' → op.kind ∈ l.operators →
      Phrase l ls → Phrase l' rs → P l ls → P l' rs → P l (ls ++ op :: rs))
    (h : Phrase l ts) (hl : l.rank ≤ Level.call.rank) : P l ts := by
  obtain ⟨e, D, hs⟩ := h
  exact go D hs hl
where
  go {l : Level} {ts : List Token} {e : Expr} (D : ExprDerivation l ts e) (hs : D.Separated)
      (hl : l.rank ≤ Level.call.rank) : P l ts := by
    by_cases hcall : l = .call
    · subst hcall
      exact call ⟨e, D, hs⟩
    have hlt := Level.rank_lt_of_ne hl hcall
    cases D with
    | tighter hn D =>
      have hnext := Level.rank_of_next? hn
      exact tighter hn ⟨_, D, hs⟩ (go D hs (by omega))
    | binary hn ho L R =>
      have hnext := Level.rank_of_next? hn
      exact binary hn ho ⟨_, L, hs.1⟩ ⟨_, R, hs.2⟩ (go L hs.1 hl) (go R hs.2 (by omega))
    | unary ho D => exact unary ho ⟨_, D, hs⟩ (go D hs hl)
    | call | callWith | identifier | integer | yes | no | grouping | conditional
    | conditionalElse | function => exact absurd hlt (by decide)

/-- One more operator and operand behind a phrase, where the operator binds no looser than those of
its level. Operands at the end of the phrase go to the operator if it binds tighter. -/
theorem operand {m : Level} (ho : op.kind ∈ m.operators) (hu : Phrase .unary us)
    (h : Phrase l ls) (hl : l.rank ≤ m.rank) : Phrase l (ls ++ op :: us) := by
  have hm := Level.rank_lt_of_operators ho
  have whole {ls : List Token} (h : Phrase m ls) : Phrase m (ls ++ op :: us) := by
    obtain ⟨l', hn, hrank⟩ := Level.next?_of_operators ho
    exact binary hn ho h (hu.looser hrank)
  have hcall : l.rank ≤ Level.call.rank := Nat.le_trans hl (Nat.le_of_lt (Nat.lt_succ_of_lt hm))
  revert hl
  refine induction (P := fun l ls => l.rank ≤ m.rank → Phrase l (ls ++ op :: us))
    ?_ ?_ ?_ ?_ h hcall
  · intro ts _ hl
    exact absurd (Nat.lt_of_le_of_lt hl hm) (by decide)
  · intro sign ts _ _ _ hl
    exact absurd (Nat.lt_of_le_of_lt hl hm) (by decide)
  · intro l l' ts hn h ih hl
    by_cases hlm : l = m
    · subst hlm
      exact whole (h.tighter hn)
    · have hlt := Level.rank_lt_of_ne hl hlm
      exact (ih (Level.rank_of_next? hn ▸ hlt)).tighter hn
  · intro l l' op' ls rs hn ho' h h' _ ih hl
    by_cases hlm : l = m
    · subst hlm
      exact whole (h.binary hn ho' h')
    · have hlt := Level.rank_lt_of_ne hl hlm
      rw [List.append_assoc, List.cons_append]
      exact h.binary hn ho' (ih (Level.rank_of_next? hn ▸ hlt))

/-- An operator and any expression behind a phrase. The operands of the expression are taken one
after the other. -/
theorem operation (ho : op.kind ∈ TokenKind.binaryOperators) (hl : Phrase .equality ls)
    (h : Phrase .equality rs) : Phrase .equality (ls ++ op :: rs) := by
  have next {ls us : List Token} {op : Token} (ho : op.kind ∈ TokenKind.binaryOperators)
      (hl : Phrase .equality ls) (hu : Phrase .unary us) : Phrase .equality (ls ++ op :: us) := by
    obtain ⟨m, hm⟩ := TokenKind.mem_binaryOperators_iff.mp ho
    exact operand hm hu hl (Nat.zero_le _)
  refine induction (P := fun _ rs => ∀ {op : Token} {ls}, op.kind ∈ TokenKind.binaryOperators →
    Phrase .equality ls → Phrase .equality (ls ++ op :: rs)) ?_ ?_ ?_ ?_ h (by decide) ho hl
  · intro rs h op ls ho hl
    exact next ho hl (h.tighter rfl)
  · intro sign rs hs h _ op ls ho hl
    exact next ho hl (h.unary hs)
  · intro l l' rs _ _ ih
    exact ih
  · intro l l' op' ls' rs' _ ho' _ _ ihl ihr op ls ho hl
    rw [← List.cons_append, ← List.append_assoc]
    exact ihr (TokenKind.mem_binaryOperators_iff.mpr ⟨l, ho'⟩) (ihl ho hl)

theorem signed (ho : op.kind ∈ [.bang, .minus]) (h : Phrase .equality ts) :
    Phrase .equality (op :: ts) := by
  refine induction (P := fun l ts => l.rank ≤ Level.unary.rank → Phrase l (op :: ts))
    ?_ ?_ ?_ ?_ h (by decide) (by decide)
  -- The sign goes to the first operand, that is, to the left in the last case.
  · intro ts _ hl
    exact absurd hl (by decide)
  · intro sign ts hs h _ _
    exact unary ho (h.unary hs)
  · intro l l' ts hn h ih hl
    by_cases hlu : l = .unary
    · subst hlu
      exact unary ho (h.tighter hn)
    · have hlt := Level.rank_lt_of_ne hl hlu
      exact (ih (Level.rank_of_next? hn ▸ hlt)).tighter hn
  · intro l l' op' ls rs hn ho' _ hr ih _ hl
    exact (ih hl).binary hn ho' hr

end Phrase

/-- The tokens apply what stands before them, as one call or several in a row. -/
def Applies (us : List Token) : Prop := ∀ ⦃fs⦄, Phrase .call fs → Phrase .call (fs ++ us)

theorem applies_call {opening closing : Token} (ho : opening.kind = .leftParen)
    (hc : closing.kind = .rightParen) : Applies [opening, closing] := by
  rintro fs ⟨e, D, hs⟩
  exact ⟨_, .call ho hc D, hs⟩

theorem applies_callWith {opening closing : Token} {ts : List Token}
    (ho : opening.kind = .leftParen) (hc : closing.kind = .rightParen) (ha : PhraseArguments ts) :
    Applies (opening :: (ts ++ [closing])) := by
  rintro fs ⟨e, D, hs⟩
  obtain ⟨es, A, has⟩ := ha
  exact ⟨_, .callWith ho hc D A, hs, has⟩

theorem Applies.append {ts us : List Token} (h : Applies ts) (h' : Applies us) :
    Applies (ts ++ us) := by
  intro fs hf
  rw [← List.append_assoc]
  exact h' (h hf)

theorem Phrase.applied {l : Level} {ts us : List Token} (hu : Applies us) (h : Phrase l ts)
    (hl : l.rank ≤ Level.call.rank) : Phrase l (ts ++ us) := by
  -- The calls go to the last operand.
  refine induction (P := fun l ts => Phrase l (ts ++ us)) (@hu) ?_ ?_ ?_ h hl
  · intro op ts ho _ ih
    exact ih.unary ho
  · intro l l' ts hn _ ih
    exact ih.tighter hn
  · intro l l' op ls rs hn ho hl _ _ ih
    rw [List.append_assoc, List.cons_append]
    exact hl.binary hn ho ih

/-- The first token goes on with expressions. -/
def GoesOn (ts : List Token) : Prop := ∃ t, ts.head? = some t ∧ t.kind.Continues

theorem goesOn_append {ts us : List Token} (hne : ts ≠ []) : GoesOn (ts ++ us) ↔ GoesOn ts := by
  rw [GoesOn, GoesOn, List.head?_append_of_ne_nil _ hne]

theorem continues_of_goesOn {t : Token} {ts : List Token} (h : GoesOn (t :: ts)) :
    t.kind.Continues := by
  obtain ⟨_, ⟨⟩, ht⟩ := h
  exact ht

theorem not_goesOn {t : Token} {ts : List Token} {k : TokenKind} (ht : t.kind = k)
    (hk : ¬k.Continues) : ¬GoesOn (t :: ts) := fun h => hk (ht ▸ continues_of_goesOn h)

/-- A phrase in one piece, or calls of one, can only go on with another as arguments of it. -/
theorem ExprDerivation.applies {l : Level} {ts : List Token} {e : Expr} (hg : GoesOn ts)
    (D : ExprDerivation l ts e) (hs : D.Separated) (hrank : Level.call.rank ≤ l.rank) :
    Applies ts := by
  cases D with
  | tighter hn D =>
    have hnext := Level.rank_of_next? hn
    exact D.applies hg hs (by omega)
  | call ho hc D =>
    exact (D.applies ((goesOn_append D.ne_nil).mp hg) hs (by decide)).append (applies_call ho hc)
  | callWith ho hc D A =>
    exact (D.applies ((goesOn_append D.ne_nil).mp hg) hs.1 (by decide)).append
      (applies_callWith ho hc ⟨_, A, hs.2⟩)
  | grouping ho hc D => exact applies_callWith ho hc ⟨_, .one D, hs⟩
  | binary _ ho =>
    exact absurd (Nat.lt_of_le_of_lt hrank (Level.rank_lt_of_operators ho)) (by decide)
  | unary => exact absurd hrank (by decide)
  | identifier h | integer h | yes h | no h | conditional h | conditionalElse h | function h =>
    exact absurd hg (not_goesOn h (by decide))

/-- A phrase behind another whose first token goes on with expressions: together they are one. -/
theorem Phrase.append {ls rs : List Token} (hg : GoesOn rs) (hl : Phrase .equality ls)
    (h : Phrase .equality rs) : Phrase .equality (ls ++ rs) := by
  refine induction (P := fun _ rs => GoesOn rs → Phrase .equality (ls ++ rs))
    ?_ ?_ ?_ ?_ h (by decide) hg
  · rintro rs ⟨e, D, hs⟩ hg
    exact applied (D.applies hg hs (by decide)) hl (by decide)
  · intro op rs ho h _ hg
    have hminus : op.kind ∈ TokenKind.binaryOperators := by
      rcases List.mem_cons.mp ho with hbang | hminus
      · exact absurd hg (not_goesOn hbang (by decide))
      · rw [List.mem_singleton.mp hminus]
        decide
    exact operation hminus hl (h.looser (Nat.zero_le _))
  · intro l l' rs _ _ ih
    exact ih
  · intro l l' op ls' rs' _ ho hl' hr' ih _ hg
    rw [← List.append_assoc]
    exact operation (TokenKind.mem_binaryOperators_iff.mpr ⟨l, ho⟩)
      (ih ((goesOn_append hl'.ne_nil).mp hg)) (hr'.looser (Nat.zero_le _))

theorem Terminator.eq_nil {ends : List Token} (h : Terminator ends) (ts : List Token)
    (hopen : ¬∃ t, (ts ++ ends).getLast? = some t ∧ t.kind = .semicolon) : ends = [] := by
  cases h with
  | none => rfl
  | semicolon ht => exact absurd ⟨_, by simp, ht⟩ hopen

section Statements

variable {word name assign : Token} {ts us ends : List Token}

theorem Phrase.define (hw : word.kind = .letWord) (hn : name.kind = .identifier)
    (ha : assign.kind = .assign) (h : Phrase .equality ts) (he : Terminator ends) :
    PhraseStmt (word :: name :: assign :: (ts ++ ends)) := by
  obtain ⟨e, D, hs⟩ := h
  exact ⟨_, .define hw hn ha D he, hs⟩

theorem Phrase.returning (hw : word.kind = .returnWord) (h : Phrase .equality ts)
    (he : Terminator ends) : PhraseStmt (word :: (ts ++ ends)) := by
  obtain ⟨e, D, hs⟩ := h
  exact ⟨_, .returning hw D he, hs⟩

theorem Phrase.expression (h : Phrase .equality ts) (he : Terminator ends) :
    PhraseStmt (ts ++ ends) := by
  obtain ⟨e, D, hs⟩ := h
  cases ts with
  | nil => exact absurd rfl D.ne_nil
  | cons t ts => exact ⟨_, .expression D he, hs⟩

/-- What goes on with expressions goes on with the last one of a statement, unless a semicolon ends
it. -/
theorem PhraseStmt.append (h : PhraseStmt ts)
    (hopen : ¬∃ t, ts.getLast? = some t ∧ t.kind = .semicolon) (hg : GoesOn us)
    (hu : Phrase .equality us) (he : Terminator ends) : PhraseStmt (ts ++ (us ++ ends)) := by
  obtain ⟨s, D, hs⟩ := h
  cases D with
  | @define word name assign vs _ _ hw hn ha D he' =>
    obtain rfl := he'.eq_nil (word :: name :: assign :: vs) hopen
    have h : Phrase .equality (vs ++ us) := .append hg ⟨_, D, hs⟩ hu
    simpa using h.define hw hn ha he
  | @returning word vs _ _ hw D he' =>
    obtain rfl := he'.eq_nil (word :: vs) hopen
    have h : Phrase .equality (vs ++ us) := .append hg ⟨_, D, hs⟩ hu
    simpa using h.returning hw he
  | @expression first vs _ _ D he' =>
    obtain rfl := he'.eq_nil (first :: vs) hopen
    have h : Phrase .equality (first :: vs ++ us) := .append hg ⟨_, D, hs⟩ hu
    simpa using h.expression he

theorem StmtDerivation.value_of_goesOn {s : Stmt} (D : StmtDerivation ts s) (hs : D.Separated)
    (hg : GoesOn ts) :
    ∃ vs ends, ts = vs ++ ends ∧ GoesOn vs ∧ Phrase .equality vs ∧ Terminator ends := by
  cases D with
  | define hw => exact absurd hg (not_goesOn hw (by decide))
  | returning hw => exact absurd hg (not_goesOn hw (by decide))
  | expression D he =>
    exact ⟨_, _, (List.cons_append ..).symm, ⟨_, rfl, continues_of_goesOn hg⟩, ⟨_, D, hs⟩, he⟩

theorem PhraseStmts.cons (h : PhraseStmt ts) (hu : PhraseStmts us) : PhraseStmts (ts ++ us) := by
  obtain ⟨s, D, hs⟩ := id h
  obtain ⟨ss, DS, hss⟩ := hu
  by_cases hap : Apart ts us
  · exact ⟨_, .cons D DS, hs, hss, hap⟩
  · -- The first of the others is an expression, which becomes part of the statement.
    rw [Apart, not_or] at hap
    obtain ⟨hopen, hgo⟩ := hap
    have hg : GoesOn us := by simpa [GoesOn] using hgo
    cases DS with
    | nil => simp [GoesOn] at hg
    | cons D' DS =>
      obtain ⟨hs', hss', hap'⟩ := hss
      obtain ⟨vs, ends, rfl, hgv, hv, he⟩ :=
        D'.value_of_goesOn hs' ((goesOn_append D'.ne_nil).mp hg)
      obtain ⟨s, M, hM⟩ := h.append hopen hgv hv he
      rw [← List.append_assoc]
      refine ⟨_, .cons M DS, hM, hss', hap'.imp_left ?_⟩
      rintro ⟨t, ht, hk⟩
      exact ⟨t, by rw [List.getLast?_append, ht, Option.some_or], hk⟩

end Statements

/-! Derivations without levels have a tree with its statements apart. -/

mutual

theorem FlatExpr.phrase {ts : List Token} : FlatExpr ts → Phrase .equality ts
  | .identifier ht => Phrase.looser ⟨_, .identifier ht, trivial⟩ (Nat.zero_le _)
  | .integer ht hv => Phrase.looser ⟨_, .integer ht hv, trivial⟩ (Nat.zero_le _)
  | .yes ht => Phrase.looser ⟨_, .yes ht, trivial⟩ (Nat.zero_le _)
  | .no ht => Phrase.looser ⟨_, .no ht, trivial⟩ (Nat.zero_le _)
  | .unary ho d => d.phrase.signed ho
  | .binary ho dl dr => .operation ho dl.phrase dr.phrase
  | .grouping ho hc d => by
    obtain ⟨e, D, hs⟩ := d.phrase
    exact Phrase.looser ⟨_, .grouping ho hc D, hs⟩ (Nat.zero_le _)
  | .call ho hc d => d.phrase.applied (applies_call ho hc) (by decide)
  | .callWith ho hc d as => d.phrase.applied (applies_callWith ho hc as.phrase) (by decide)
  | .conditional hw ho hc dc db => by
    obtain ⟨e, C, hcs⟩ := dc.phrase
    obtain ⟨b, B, hbs⟩ := db.phrase
    exact Phrase.looser ⟨_, .conditional hw ho hc C B, hcs, hbs⟩ (Nat.zero_le _)
  | .conditionalElse hw ho hc he dc db da => by
    obtain ⟨e, C, hcs⟩ := dc.phrase
    obtain ⟨b, B, hbs⟩ := db.phrase
    obtain ⟨a, A, has⟩ := da.phrase
    exact Phrase.looser ⟨_, .conditionalElse hw ho hc he C B A, hcs, hbs, has⟩ (Nat.zero_le _)
  | .function hw ho hc hp db => by
    obtain ⟨b, B, hbs⟩ := db.phrase
    exact Phrase.looser ⟨_, .function hw ho hc hp B, hbs⟩ (Nat.zero_le _)

theorem FlatArguments.phrase {ts : List Token} : FlatArguments ts → PhraseArguments ts
  | .one d => by
    obtain ⟨e, D, hs⟩ := d.phrase
    exact ⟨_, .one D, hs⟩
  | .more hc d as => by
    obtain ⟨e, D, hs⟩ := d.phrase
    obtain ⟨es, A, has⟩ := as.phrase
    exact ⟨_, .more hc D A, hs, has⟩

theorem FlatStmt.phrase {ts : List Token} : FlatStmt ts → PhraseStmt ts
  | .define hw hn ha d he => d.phrase.define hw hn ha he
  | .returning hw d he => d.phrase.returning hw he
  | .expression d he => d.phrase.expression he

theorem FlatStmts.phrase {ts : List Token} : FlatStmts ts → PhraseStmts ts
  | .nil => ⟨_, .nil, trivial⟩
  | .cons d ds => .cons d.phrase ds.phrase

theorem FlatBlock.phrase {ts : List Token} : FlatBlock ts → PhraseBlock ts
  | .braces ho hc ds => by
    obtain ⟨ss, DS, hs⟩ := ds.phrase
    exact ⟨_, .braces ho hc DS, hs⟩

end

end ScriptReader
