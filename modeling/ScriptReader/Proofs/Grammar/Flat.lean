import ScriptReader.Proofs.Grammar.Precedence
import ScriptReader.Proofs.Grammar.Shape

/-! The same language without levels. Operators stand between any expressions,
and statements in a row need not be apart, so that many token lists have several
derivations. -/

namespace ScriptReader

def TokenKind.binaryOperators : List TokenKind :=
  [plus, minus, asterisk, slash, lessThan, greaterThan, equal, notEqual]

mutual

inductive FlatExpr : List Token → Prop
  | identifier {t : Token} (ht : t.kind = .identifier) : FlatExpr [t]
  | integer {t : Token} {value : Nat} (ht : t.kind = .integer) (hv : Numeral t.text value) :
      FlatExpr [t]
  | yes {t : Token} (ht : t.kind = .trueWord) : FlatExpr [t]
  | no {t : Token} (ht : t.kind = .falseWord) : FlatExpr [t]
  | unary {op : Token} {ts : List Token} (ho : op.kind ∈ [.bang, .minus]) (d : FlatExpr ts) :
      FlatExpr (op :: ts)
  | binary {op : Token} {ls rs : List Token} (ho : op.kind ∈ TokenKind.binaryOperators)
      (dl : FlatExpr ls) (dr : FlatExpr rs) : FlatExpr (ls ++ op :: rs)
  | grouping {opening closing : Token} {ts : List Token} (ho : opening.kind = .leftParen)
      (hc : closing.kind = .rightParen) (d : FlatExpr ts) : FlatExpr (opening :: (ts ++ [closing]))
  | call {opening closing : Token} {fs : List Token} (ho : opening.kind = .leftParen)
      (hc : closing.kind = .rightParen) (d : FlatExpr fs) : FlatExpr (fs ++ [opening, closing])
  | callWith {opening closing : Token} {fs ts : List Token} (ho : opening.kind = .leftParen)
      (hc : closing.kind = .rightParen) (d : FlatExpr fs) (as : FlatArguments ts) :
      FlatExpr (fs ++ opening :: (ts ++ [closing]))
  | conditional {word opening closing : Token} {cs bs : List Token} (hw : word.kind = .ifWord)
      (ho : opening.kind = .leftParen) (hc : closing.kind = .rightParen) (dc : FlatExpr cs)
      (db : FlatBlock bs) : FlatExpr (word :: opening :: (cs ++ closing :: bs))
  | conditionalElse {word opening closing other : Token} {cs bs as : List Token}
      (hw : word.kind = .ifWord) (ho : opening.kind = .leftParen) (hc : closing.kind = .rightParen)
      (he : other.kind = .elseWord) (dc : FlatExpr cs) (db : FlatBlock bs) (da : FlatBlock as) :
      FlatExpr (word :: opening :: (cs ++ closing :: (bs ++ other :: as)))
  | function {word opening closing : Token} {ps bs : List Token} {parameters : List Identifier}
      (hw : word.kind = .fnWord) (ho : opening.kind = .leftParen) (hc : closing.kind = .rightParen)
      (hp : ParametersDerivation ps parameters) (db : FlatBlock bs) :
      FlatExpr (word :: opening :: (ps ++ closing :: bs))

inductive FlatArguments : List Token → Prop
  | one {ts : List Token} (d : FlatExpr ts) : FlatArguments ts
  | more {comma : Token} {ts us : List Token} (hc : comma.kind = .comma) (d : FlatExpr ts)
      (as : FlatArguments us) : FlatArguments (ts ++ comma :: us)

inductive FlatStmt : List Token → Prop
  | define {word name assign : Token} {ts ends : List Token} (hw : word.kind = .letWord)
      (hn : name.kind = .identifier) (ha : assign.kind = .assign) (d : FlatExpr ts)
      (he : Terminator ends) : FlatStmt (word :: name :: assign :: (ts ++ ends))
  | returning {word : Token} {ts ends : List Token} (hw : word.kind = .returnWord)
      (d : FlatExpr ts) (he : Terminator ends) : FlatStmt (word :: (ts ++ ends))
  | expression {ts ends : List Token} (d : FlatExpr ts) (he : Terminator ends) :
      FlatStmt (ts ++ ends)

inductive FlatStmts : List Token → Prop
  | nil : FlatStmts []
  | cons {ts us : List Token} (d : FlatStmt ts) (ds : FlatStmts us) : FlatStmts (ts ++ us)

inductive FlatBlock : List Token → Prop
  | braces {opening closing : Token} {ts : List Token} (ho : opening.kind = .leftBrace)
      (hc : closing.kind = .rightBrace) (ds : FlatStmts ts) :
      FlatBlock (opening :: (ts ++ [closing]))

end

namespace TokenKind

theorem mem_binaryOperators_iff {k : TokenKind} :
    k ∈ binaryOperators ↔ ∃ l : Level, k ∈ l.operators := by
  constructor
  · intro h
    simp only [binaryOperators, List.mem_cons, List.not_mem_nil, or_false] at h
    rcases h with rfl | rfl | rfl | rfl | rfl | rfl | rfl | rfl
    · exact ⟨.additive, by decide⟩
    · exact ⟨.additive, by decide⟩
    · exact ⟨.multiplicative, by decide⟩
    · exact ⟨.multiplicative, by decide⟩
    · exact ⟨.relational, by decide⟩
    · exact ⟨.relational, by decide⟩
    · exact ⟨.equality, by decide⟩
    · exact ⟨.equality, by decide⟩
  · rintro ⟨l, h⟩
    cases l <;> simp only [Level.operators, List.mem_cons, List.not_mem_nil, or_false] at h <;>
      rcases h with rfl | rfl <;> decide

end TokenKind

/-! Derivations by levels are derivations without them. -/

mutual

theorem ExprDerivation.flat {l : Level} {ts : List Token} {e : Expr} :
    ExprDerivation l ts e → FlatExpr ts
  | .tighter _ d => d.flat
  | .binary _ ho dl dr => .binary (TokenKind.mem_binaryOperators_iff.mpr ⟨_, ho⟩) dl.flat dr.flat
  | .unary ho d => .unary ho d.flat
  | .call ho hc d => .call ho hc d.flat
  | .callWith ho hc d as => .callWith ho hc d.flat as.flat
  | .identifier ht => .identifier ht
  | .integer ht hv => .integer ht hv
  | .yes ht => .yes ht
  | .no ht => .no ht
  | .grouping ho hc d => .grouping ho hc d.flat
  | .conditional hw ho hc dc db => .conditional hw ho hc dc.flat db.flat
  | .conditionalElse hw ho hc he dc db da => .conditionalElse hw ho hc he dc.flat db.flat da.flat
  | .function hw ho hc hp db => .function hw ho hc hp db.flat

theorem ArgumentsDerivation.flat {ts : List Token} {es : List Expr} :
    ArgumentsDerivation ts es → FlatArguments ts
  | .one d => .one d.flat
  | .more hc d as => .more hc d.flat as.flat

theorem StmtDerivation.flat {ts : List Token} {s : Stmt} : StmtDerivation ts s → FlatStmt ts
  | .define hw hn ha d he => .define hw hn ha d.flat he
  | .returning hw d he => .returning hw d.flat he
  | .expression d he => .expression d.flat he

theorem StmtsDerivation.flat {ts : List Token} {ss : List Stmt} :
    StmtsDerivation ts ss → FlatStmts ts
  | .nil => .nil
  | .cons d ds => .cons d.flat ds.flat

theorem BlockDerivation.flat {ts : List Token} {b : Block} : BlockDerivation ts b → FlatBlock ts
  | .braces ho hc ds => .braces ho hc ds.flat

end

/-! Phrases in a row, one more at the end. -/

theorem FlatArguments.append {comma : Token} {ts us : List Token} (hc : comma.kind = .comma)
    (du : FlatExpr us) : FlatArguments ts → FlatArguments (ts ++ comma :: us)
  | .one d => .more hc d (.one du)
  | .more ho d as => by
    rw [List.append_assoc, List.cons_append]
    exact .more ho d (as.append hc du)

theorem FlatStmts.append {ts us : List Token} (du : FlatStmt us) :
    FlatStmts ts → FlatStmts (ts ++ us)
  | .nil => by simpa using FlatStmts.cons du .nil
  | .cons d ds => by
    rw [List.append_assoc]
    exact .cons d (ds.append du)

/-- The token may stand in a phrase: it is neither an end nor a text that is no token, and in range
if it is a number. -/
structure Token.Legal (t : Token) : Prop where
  ne_eof : t.kind ≠ .eof
  ne_illegal : t.kind ≠ .illegal
  numeral (h : t.kind = .integer) : ∃ value, Numeral t.text value

def Legal (ts : List Token) : Prop := ∀ t ∈ ts, t.Legal

theorem legal_nil : Legal [] := by simp [Legal]

theorem Legal.append {ts us : List Token} (h : Legal ts) (h' : Legal us) : Legal (ts ++ us) :=
  List.forall_mem_append.mpr ⟨h, h'⟩

/-- The kinds of tokens for which it depends on the text whether they are legal, or which never
are. -/
def TokenKind.doubtful : List TokenKind := [eof, illegal, integer]

theorem Legal.cons {t : Token} {ts : List Token} {k : TokenKind} (ht : t.kind = k)
    (hk : k ∉ TokenKind.doubtful) (h : Legal ts) : Legal (t :: ts) := by
  simp only [TokenKind.doubtful, List.mem_cons, List.not_mem_nil, or_false, not_or] at hk
  subst ht
  exact List.forall_mem_cons.mpr ⟨⟨hk.1, hk.2.1, fun h => absurd h hk.2.2⟩, h⟩

theorem legal_singleton {t : Token} {k : TokenKind} (ht : t.kind = k)
    (hk : k ∉ TokenKind.doubtful) : Legal [t] := legal_nil.cons ht hk

theorem Numeral.legal {t : Token} {value : Nat} (ht : t.kind = .integer)
    (h : Numeral t.text value) : Legal [t] :=
  List.forall_mem_singleton.mpr ⟨by simp [ht], by simp [ht], fun _ => ⟨value, h⟩⟩

theorem TokenKind.not_doubtful_of_unary : ∀ k ∈ [bang, minus], k ∉ doubtful := by decide

theorem TokenKind.not_doubtful_of_binary : ∀ k ∈ binaryOperators, k ∉ doubtful := by decide

theorem ParametersDerivation.legal {ps : List Token} {ns : List Identifier}
    (h : ParametersDerivation ps ns) : Legal ps := by
  induction h with
  | nil => exact legal_nil
  | one ht => exact legal_singleton ht (by decide)
  | more ht hc _ ih => exact (ih.cons hc (by decide)).cons ht (by decide)

theorem Terminator.legal {ts : List Token} (h : Terminator ts) : Legal ts := by
  cases h with
  | none => exact legal_nil
  | semicolon ht => exact legal_singleton ht (by decide)

/-! Phrases consist of legal tokens. -/

mutual

theorem FlatExpr.legal {ts : List Token} : FlatExpr ts → Legal ts
  | .identifier h | .yes h | .no h => legal_singleton h (by decide)
  | .integer ht hv => hv.legal ht
  | .unary ho d => d.legal.cons rfl (TokenKind.not_doubtful_of_unary _ ho)
  | .binary ho dl dr =>
    dl.legal.append (dr.legal.cons rfl (TokenKind.not_doubtful_of_binary _ ho))
  | .grouping ho hc d => (d.legal.append (legal_singleton hc (by decide))).cons ho (by decide)
  | .call ho hc d => d.legal.append ((legal_singleton hc (by decide)).cons ho (by decide))
  | .callWith ho hc d as =>
    d.legal.append ((as.legal.append (legal_singleton hc (by decide))).cons ho (by decide))
  | .conditional hw ho hc dc db =>
    ((dc.legal.append (db.legal.cons hc (by decide))).cons ho (by decide)).cons hw (by decide)
  | .conditionalElse hw ho hc he dc db da =>
    ((dc.legal.append ((db.legal.append (da.legal.cons he (by decide))).cons hc (by decide))).cons
      ho (by decide)).cons hw (by decide)
  | .function hw ho hc hp db =>
    ((hp.legal.append (db.legal.cons hc (by decide))).cons ho (by decide)).cons hw (by decide)

theorem FlatArguments.legal {ts : List Token} : FlatArguments ts → Legal ts
  | .one d => d.legal
  | .more hc d as => d.legal.append (as.legal.cons hc (by decide))

theorem FlatStmt.legal {ts : List Token} : FlatStmt ts → Legal ts
  | .define hw hn ha d he =>
    (((d.legal.append he.legal).cons ha (by decide)).cons hn (by decide)).cons hw (by decide)
  | .returning hw d he => (d.legal.append he.legal).cons hw (by decide)
  | .expression d he => d.legal.append he.legal

theorem FlatStmts.legal {ts : List Token} : FlatStmts ts → Legal ts
  | .nil => legal_nil
  | .cons d ds => d.legal.append ds.legal

theorem FlatBlock.legal {ts : List Token} : FlatBlock ts → Legal ts
  | .braces ho hc ds => (ds.legal.append (legal_singleton hc (by decide))).cons ho (by decide)

end

end ScriptReader
