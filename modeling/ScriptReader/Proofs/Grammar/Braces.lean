import ScriptReader.Proofs.Grammar.Starts

/-! Braces among tokens. Phrases open and close theirs in pairs. -/

namespace ScriptReader

def TokenKind.isBrace : TokenKind → Bool
  | leftBrace | rightBrace => true
  | _ => false

/-- The tokens close `n` braces that are open before them. -/
def Closes : Nat → List Token → Prop
  | 0, _ => True
  | _ + 1, [] => False
  | n + 1, t :: ts =>
    if t.kind = .leftBrace then Closes (n + 2) ts
    else if t.kind = .rightBrace then Closes n ts
    else Closes (n + 1) ts

/-- Each opening brace is closed further on. Closing braces that close none do not count. -/
def BracesClosed : List Token → Prop
  | [] => True
  | t :: ts => (t.kind = .leftBrace → Closes 1 ts) ∧ BracesClosed ts

theorem closes_zero (ts : List Token) : Closes 0 ts := by
  cases ts <;> trivial

instance decidableCloses : ∀ (n : Nat) (ts : List Token), Decidable (Closes n ts)
  | 0, _ => .isTrue (closes_zero _)
  | _ + 1, [] => .isFalse id
  | n + 1, t :: ts =>
    have := decidableCloses (n + 2) ts
    have := decidableCloses n ts
    have := decidableCloses (n + 1) ts
    inferInstanceAs (Decidable (if t.kind = .leftBrace then Closes (n + 2) ts
      else if t.kind = .rightBrace then Closes n ts else Closes (n + 1) ts))

instance decidableBracesClosed : ∀ ts : List Token, Decidable (BracesClosed ts)
  | [] => .isTrue trivial
  | t :: ts =>
    have := decidableBracesClosed ts
    inferInstanceAs (Decidable ((t.kind = .leftBrace → Closes 1 ts) ∧ BracesClosed ts))

theorem Closes.ne_nil {n : Nat} {ts : List Token} (h : Closes (n + 1) ts) : ts ≠ [] := by
  rintro rfl
  exact h

theorem BracesClosed.of_suffix {ts us : List Token} (h : BracesClosed ts) (hs : us <:+ ts) :
    BracesClosed us := by
  induction ts with
  | nil =>
    obtain rfl := List.suffix_nil.mp hs
    exact h
  | cons t ts ih =>
    rcases List.suffix_cons_iff.mp hs with rfl | hs
    · exact h
    · exact ih h.2 hs

/-- The braces among the tokens come in pairs, which close none that are open before. -/
def Paired (ts : List Token) : Prop := ∀ n us, Closes (n + 1) (ts ++ us) ↔ Closes (n + 1) us

theorem paired_nil : Paired [] := fun _ _ => .rfl

theorem Paired.append {ts us : List Token} (h : Paired ts) (h' : Paired us) :
    Paired (ts ++ us) := by
  intro n vs
  rw [List.append_assoc, h, h']

theorem paired_singleton {t : Token} {k : TokenKind} (ht : t.kind = k) (hk : k.isBrace = false) :
    Paired [t] := by
  intro n us
  have ho : t.kind ≠ .leftBrace := by
    rintro h
    simp [← ht, h, TokenKind.isBrace] at hk
  have hc : t.kind ≠ .rightBrace := by
    rintro h
    simp [← ht, h, TokenKind.isBrace] at hk
  rw [List.singleton_append, Closes, if_neg ho, if_neg hc]

theorem Paired.cons {t : Token} {ts : List Token} {k : TokenKind} (ht : t.kind = k)
    (hk : k.isBrace = false) (h : Paired ts) : Paired (t :: ts) :=
  (paired_singleton ht hk).append h

theorem Paired.braces {opening closing : Token} {ts : List Token} (ho : opening.kind = .leftBrace)
    (hc : closing.kind = .rightBrace) (h : Paired ts) : Paired (opening :: (ts ++ [closing])) := by
  intro n us
  have hnot : closing.kind ≠ .leftBrace := by simp [hc]
  rw [List.cons_append, Closes, if_pos ho, List.append_assoc, h, List.singleton_append, Closes,
    if_neg hnot, if_pos hc]

theorem ParametersDerivation.paired {ts : List Token} {is : List Identifier}
    (h : ParametersDerivation ts is) : Paired ts := by
  induction h with
  | nil => exact paired_nil
  | one ht => exact paired_singleton ht rfl
  | more ht hc _ ih => exact .cons ht rfl (.cons hc rfl ih)

theorem Terminator.paired {ts : List Token} (h : Terminator ts) : Paired ts := by
  cases h with
  | none => exact paired_nil
  | semicolon ht => exact paired_singleton ht rfl

theorem paired_operator {t : Token} {l : Level} (h : t.kind ∈ l.operators) : Paired [t] := by
  refine paired_singleton rfl ?_
  cases l <;> simp only [Level.operators, List.mem_cons, List.not_mem_nil, or_false] at h <;>
    rcases h with h | h <;> rw [h] <;> rfl

mutual

theorem ExprDerivation.paired {l : Level} {ts : List Token} {e : Expr} :
    ExprDerivation l ts e → Paired ts
  | .tighter _ d => d.paired
  | .binary _ ho dl dr => dl.paired.append ((paired_operator ho).append dr.paired)
  | .unary ho d => by
    refine .cons rfl ?_ d.paired
    rcases List.mem_cons.mp ho with h | h
    · rw [h]
      rfl
    · rw [List.mem_singleton.mp h]
      rfl
  | .call ho hc d =>
    d.paired.append (.cons ho rfl (paired_singleton hc rfl))
  | .callWith ho hc d as =>
    d.paired.append (.cons ho rfl (as.paired.append (paired_singleton hc rfl)))
  | .identifier h | .integer h _ | .yes h | .no h => paired_singleton h rfl
  | .grouping ho hc d =>
    .cons ho rfl (d.paired.append (paired_singleton hc rfl))
  | .conditional hw ho hc dc db =>
    .cons hw rfl (.cons ho rfl (dc.paired.append (.cons hc rfl db.paired)))
  | .conditionalElse hw ho hc he dc db da =>
    .cons hw rfl (.cons ho rfl
      (dc.paired.append (.cons hc rfl
        (db.paired.append (.cons he rfl da.paired)))))
  | .function hw ho hc hp db =>
    .cons hw rfl (.cons ho rfl (hp.paired.append (.cons hc rfl db.paired)))

theorem ArgumentsDerivation.paired {ts : List Token} {es : List Expr} :
    ArgumentsDerivation ts es → Paired ts
  | .one d => d.paired
  | .more hc d as => d.paired.append (.cons hc rfl as.paired)

theorem StmtDerivation.paired {ts : List Token} {s : Stmt} : StmtDerivation ts s → Paired ts
  | .define hw hn ha d he =>
    .cons hw rfl (.cons hn rfl (.cons ha rfl (d.paired.append he.paired)))
  | .returning hw d he => .cons hw rfl (d.paired.append he.paired)
  | .expression d he => d.paired.append he.paired

theorem StmtsDerivation.paired {ts : List Token} {ss : List Stmt} :
    StmtsDerivation ts ss → Paired ts
  | .nil => paired_nil
  | .cons d ds => d.paired.append ds.paired

theorem BlockDerivation.paired {ts : List Token} {b : Block} : BlockDerivation ts b → Paired ts
  | .braces ho hc ds => .braces ho hc ds.paired

end

end ScriptReader
