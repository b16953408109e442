import ScriptReader.Proofs.RoundTrip
import ScriptReader.Proofs.Vocabulary

/-! Printing what was read. Every program that is read from a source is well
formed, and so its text is read back, if no statement of it is printed with more
expressions within one another than there may be. That may be so although the
source had fewer: operators are printed with parentheses around them. -/

namespace ScriptReader

namespace Token.Spelled

variable {t : Token}

theorem text_mem {k : TokenKind} {texts : List String} (h : t.Spelled) (hk : t.kind = k)
    (hfixed : k ∉ variableKinds) (htexts : ∀ p ∈ spellings, p.2 = k → p.1 ∈ texts) :
    t.text ∈ texts :=
  htexts _ (h.text_of_kind hk hfixed) rfl

theorem text_eq {k : TokenKind} {text : String} (h : t.Spelled) (hk : t.kind = k)
    (hfixed : k ∉ variableKinds) (htext : ∀ p ∈ spellings, p.2 = k → p.1 ∈ [text]) :
    t.text = text :=
  List.mem_singleton.mp (h.text_mem hk hfixed htext)

theorem wellFormed_ofToken (h : t.Spelled) (hk : t.kind = .identifier) :
    (Identifier.ofToken t).WellFormed := by
  obtain ⟨hw, hreserved⟩ := Spelling.of_identifier h hk
  rw [String.ofList_toList] at hreserved
  have hne : t.text ≠ "" := by simpa using Spelling.ne_nil h
  exact ⟨hne, hw, hreserved⟩

theorem unaryOperator (h : t.Spelled) (hk : t.kind ∈ [.bang, .minus]) :
    t.text ∈ unaryOperators.map Prod.fst := by
  simp only [List.mem_cons, List.not_mem_nil, or_false] at hk
  rcases hk with hk | hk <;> exact h.text_mem hk (by decide) (by decide)

theorem binaryOperator {l : Level} (h : t.Spelled) (hk : t.kind ∈ l.operators) :
    t.text ∈ binaryOperators.map Prod.fst := by
  cases l <;> simp only [Level.operators, List.mem_cons, List.not_mem_nil, or_false] at hk <;>
    rcases hk with hk | hk <;> exact h.text_mem hk (by decide) (by decide)

end Token.Spelled

theorem ParametersDerivation.wellFormed {ts : List Token} {is : List Identifier}
    (h : ParametersDerivation ts is) (hs : ∀ t ∈ ts, t.Spelled) : ∀ i ∈ is, i.WellFormed := by
  induction h with
  | nil => simp
  | one ht =>
    rw [List.forall_mem_singleton] at hs ⊢
    exact hs.wellFormed_ofToken ht
  | more ht _ _ ih =>
    rw [List.forall_mem_cons, List.forall_mem_cons] at hs
    exact List.forall_mem_cons.mpr ⟨hs.1.wellFormed_ofToken ht, ih hs.2.2⟩

/-! Phrases of tokens as they are spelled in sources stand for well-formed trees. -/

mutual

theorem ExprDerivation.wellFormed {l : Level} {ts : List Token} {e : Expr} :
    ExprDerivation l ts e → (∀ t ∈ ts, t.Spelled) → e.WellFormed
  | .tighter _ d, h => d.wellFormed h
  | .binary _ ho dl dr, h => by
    rw [List.forall_mem_append, List.forall_mem_cons] at h
    exact ⟨dl.wellFormed h.1, h.2.1.binaryOperator ho, dr.wellFormed h.2.2⟩
  | .unary ho d, h => by
    rw [List.forall_mem_cons] at h
    exact ⟨h.1.unaryOperator ho, d.wellFormed h.2⟩
  | .call _ _ d, h => by
    rw [List.forall_mem_append] at h
    exact ⟨d.wellFormed h.1, trivial⟩
  | .callWith _ _ d as, h => by
    rw [List.forall_mem_append, List.forall_mem_cons, List.forall_mem_append] at h
    exact ⟨d.wellFormed h.1, as.wellFormed h.2.2.1⟩
  | .identifier ht, h => (List.forall_mem_singleton.mp h).wellFormed_ofToken ht
  | .integer _ hv, _ => ⟨Int.natCast_nonneg _, Int.ofNat_le.mpr hv.le⟩
  | .yes _, _ | .no _, _ => trivial
  | .grouping _ _ d, h => by
    rw [List.forall_mem_cons, List.forall_mem_append] at h
    exact d.wellFormed h.2.1
  | .conditional _ _ _ dc db, h => by
    rw [List.forall_mem_cons, List.forall_mem_cons, List.forall_mem_append,
      List.forall_mem_cons] at h
    exact ⟨dc.wellFormed h.2.2.1, db.wellFormed h.2.2.2.2, trivial⟩
  | .conditionalElse _ _ _ _ dc db da, h => by
    rw [List.forall_mem_cons, List.forall_mem_cons, List.forall_mem_append, List.forall_mem_cons,
      List.forall_mem_append, List.forall_mem_cons] at h
    exact ⟨dc.wellFormed h.2.2.1, db.wellFormed h.2.2.2.2.1, da.wellFormed h.2.2.2.2.2.2⟩
  | .function hw _ _ hp db, h => by
    rw [List.forall_mem_cons, List.forall_mem_cons, List.forall_mem_append,
      List.forall_mem_cons] at h
    exact ⟨h.1.text_eq hw (by decide) (by decide), hp.wellFormed h.2.2.1, db.wellFormed h.2.2.2.2⟩

theorem ArgumentsDerivation.wellFormed {ts : List Token} {es : List Expr} :
    ArgumentsDerivation ts es → (∀ t ∈ ts, t.Spelled) → wellFormedArguments es
  | .one d, h => ⟨d.wellFormed h, trivial⟩
  | .more _ d as, h => by
    rw [List.forall_mem_append, List.forall_mem_cons] at h
    exact ⟨d.wellFormed h.1, as.wellFormed h.2.2⟩

theorem StmtDerivation.wellFormed {ts : List Token} {s : Stmt} :
    StmtDerivation ts s → (∀ t ∈ ts, t.Spelled) → s.WellFormed
  | .define hw hn _ d _, h => by
    rw [List.forall_mem_cons, List.forall_mem_cons, List.forall_mem_cons,
      List.forall_mem_append] at h
    exact ⟨h.1.text_eq hw (by decide) (by decide), h.2.1.wellFormed_ofToken hn,
      d.wellFormed h.2.2.2.1⟩
  | .returning hw d _, h => by
    rw [List.forall_mem_cons, List.forall_mem_append] at h
    exact ⟨h.1.text_eq hw (by decide) (by decide), d.wellFormed h.2.1⟩
  | .expression d _, h => by
    rw [← List.cons_append, List.forall_mem_append] at h
    exact d.wellFormed h.1

theorem StmtsDerivation.wellFormed {ts : List Token} {ss : List Stmt} :
    StmtsDerivation ts ss → (∀ t ∈ ts, t.Spelled) → wellFormedStatements ss
  | .nil, _ => trivial
  | .cons d ds, h => by
    rw [List.forall_mem_append] at h
    exact ⟨d.wellFormed h.1, ds.wellFormed h.2⟩

theorem BlockDerivation.wellFormed {ts : List Token} {b : Block} :
    BlockDerivation ts b → (∀ t ∈ ts, t.Spelled) → b.WellFormed
  | .braces _ _ ds, h => by
    rw [List.forall_mem_cons, List.forall_mem_append] at h
    exact ds.wellFormed h.2.1

end

/-- What is read of spelled tokens is well formed. -/
theorem wellFormed_ofTurns {c : Cursor} (h : ∀ t ∈ c.ahead, t.Spelled) :
    (Report.ofTurns (turns c)).program.WellFormed := by
  intro s hs
  obtain ⟨seg, hseg, D, -, -⟩ := exists_derivation_of_mem_statements hs
  refine D.wellFormed fun t ht => h t ?_
  rw [← flatten_segments c]
  exact List.mem_flatten_of_mem hseg ht

theorem wellFormed_ofLexer (l : Lexer) : (Report.ofLexer l).program.WellFormed :=
  wellFormed_ofTurns fun _ => Lexer.spelled_of_mem_tokens

theorem diagnostics_text_eq_nil_iff {p : Program} (h : p.WellFormed) (file : Option String) :
    (Report.ofSource p.text file).diagnostics = [] ↔ ∀ s ∈ p.statements, s.nesting ≤ 256 := by
  obtain ⟨ss, D, -, hD, hsep⟩ := Program.hasPhrase_text h file
  rw [← nestingStatements_le_iff, ← hD]
  exact diagnostics_eq_nil_iff D hsep rfl

/-- The text of a program that was read is read without diagnostics just if no statement of it is
nested deeper than the bound, as it is printed. -/
theorem ofSource_text_ofSource (source : String) (file file' : Option String) :
    (Report.ofSource (Report.ofSource source file).program.text file').diagnostics = [] ↔
      ∀ s ∈ (Report.ofSource source file).program.statements, s.nesting ≤ 256 :=
  diagnostics_text_eq_nil_iff (wellFormed_ofLexer _) file'

/-- 128 signs in front of a name are read, but printed they lie too deep within one another. -/
theorem ofSource_text_signs :
    ¬∀ (source : String) (file : Option String), (Report.ofSource source file).diagnostics = [] →
      (Report.ofSource (Report.ofSource source file).program.text file).diagnostics = [] := by
  let l : Lexer := ⟨List.replicate 128 '!' ++ ['x'], 0, "shell"⟩
  have hreport : Report.ofSource (String.ofList l.rest) none = Report.ofLexer l := by
    rw [Report.ofSource, Lexer.ofSource, String.toList_ofList]
    rfl
  have hread : (Report.ofLexer l).diagnostics = [] := by decide +kernel
  have hdeep : ¬∀ s ∈ (Report.ofLexer l).program.statements, s.nesting ≤ 256 := by decide +kernel
  intro h
  have htext := h (String.ofList l.rest) none (hreport ▸ hread)
  rw [hreport] at htext
  exact hdeep ((diagnostics_text_eq_nil_iff (wellFormed_ofLexer l) none).mp htext)

end ScriptReader
