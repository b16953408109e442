import ScriptReader.Proofs.Printing
import ScriptReader.Proofs.Programs
import ScriptReader.Proofs.Tree.Tokens

/-! Printed trees are read back. The tokens of what is printed are a phrase for
the same tree, as deep as the tree is nested. -/

namespace ScriptReader

variable {ts : List Token}

/-- The tokens are a phrase for a tree that is `e` but for its tokens. -/
def Expr.HasPhrase (e : Expr) (l : Level) (ts : List Token) : Prop :=
  ∃ e' : Expr, ∃ D : ExprDerivation l ts e',
    e'.mapTokens .blank = e.mapTokens .blank ∧ D.depth = e.nesting ∧ D.Separated

def Stmt.HasPhrase (s : Stmt) (ts : List Token) : Prop :=
  ∃ s' : Stmt, ∃ D : StmtDerivation ts s',
    s'.mapTokens .blank = s.mapTokens .blank ∧ D.depth = s.nesting ∧ D.Separated

def Block.HasPhrase (b : Block) (ts : List Token) : Prop :=
  ∃ b' : Block, ∃ D : BlockDerivation ts b',
    b'.mapTokens .blank = b.mapTokens .blank ∧ D.depth = b.nesting ∧ D.Separated

def ArgumentsHavePhrase (es : List Expr) (ts : List Token) : Prop :=
  ∃ es' : List Expr, ∃ D : ArgumentsDerivation ts es',
    mapArguments .blank es' = mapArguments .blank es ∧ D.depth = nestingArguments es ∧ D.Separated

def StatementsHavePhrase (ss : List Stmt) (ts : List Token) : Prop :=
  ∃ ss' : List Stmt, ∃ D : StmtsDerivation ts ss',
    mapStatements .blank ss' = mapStatements .blank ss ∧ D.depth = nestingStatements ss ∧
      D.Separated

theorem Expr.HasPhrase.looser {e : Expr} {l l' : Level} (h : e.HasPhrase l' ts)
    (hl : l.rank ≤ l'.rank) : e.HasPhrase l ts := by
  obtain ⟨e', D, he, hd, hs⟩ := h
  obtain ⟨D', hd', hs'⟩ := D.exists_looser hl
  exact ⟨e', D', he, hd'.trans hd, hs'.mpr hs⟩

theorem Token.kind_of_sign {t : Token} {k : TokenKind} {s : String} (h : t.sign = (k, s)) :
    t.kind = k := congrArg Prod.fst h

theorem Token.text_of_sign {t : Token} {k : TokenKind} {s : String} (h : t.sign = (k, s)) :
    t.text = s := congrArg Prod.snd h

theorem hasPhrase_identifier {name : Identifier}
    (h : ts.map Token.sign = [(.identifier, name.value)]) :
    (Expr.identifier name).HasPhrase .primary ts := by
  obtain ⟨t, rfl, ht⟩ := List.map_eq_singleton_iff.mp h
  refine ⟨_, .identifier (Token.kind_of_sign ht), ?_, rfl, trivial⟩
  simp [Expr.mapTokens, Identifier.mapTokens, Identifier.ofToken, Token.text_of_sign ht,
    Token.blank]

/-- The digits of a number in range are a numeral for it. -/
theorem numeral_decimal {n : Nat} (h : n ≤ Parser.maxInteger) : Numeral (Text.decimal n) n := by
  have hchars : (Text.decimal n).toList = Nat.toDigits 10 n := String.toList_ofList
  refine ⟨hchars ▸ Nat.toDigits_ne_nil, fun c hc => ?_, ?_, h⟩
  · rw [hchars] at hc
    exact Nat.isDigit_of_mem_toDigits (by decide) (by decide) hc
  · rw [hchars]
    exact Text.digitsValue_decimalChars n

theorem hasPhrase_integer {token : Token} {value : Int} (hv : (Expr.integer token value).WellFormed)
    (h : ts.map Token.sign = [(.integer, Text.decimal value)]) :
    (Expr.integer token value).HasPhrase .primary ts := by
  obtain ⟨t, rfl, ht⟩ := List.map_eq_singleton_iff.mp h
  obtain ⟨n, rfl⟩ := Int.eq_ofNat_of_zero_le hv.1
  have hn := numeral_decimal (Int.ofNat_le.mp hv.2)
  rw [← Token.text_of_sign ht] at hn
  exact ⟨_, .integer (Token.kind_of_sign ht) hn, rfl, rfl, trivial⟩

theorem hasPhrase_boolean {token : Token} {value : Bool}
    (h : ts.map Token.sign = [if value then (.trueWord, "true") else (.falseWord, "false")]) :
    (Expr.boolean token value).HasPhrase .primary ts := by
  obtain ⟨t, rfl, ht⟩ := List.map_eq_singleton_iff.mp h
  cases value with
  | true => exact ⟨_, .yes (Token.kind_of_sign ht), rfl, rfl, trivial⟩
  | false => exact ⟨_, .no (Token.kind_of_sign ht), rfl, rfl, trivial⟩

theorem hasPhrase_unary {token : Token} {operator : String} {right : Expr}
    (ho : operator ∈ unaryOperators.map Prod.fst)
    (h : ts.map Token.sign = (Expr.unary token operator right).signs)
    (hr : ∀ us, us.map Token.sign = right.signs → right.HasPhrase .call us) :
    (Expr.unary token operator right).HasPhrase .primary ts := by
  simp only [Expr.signs, List.map_eq_cons_iff, List.map_eq_append_iff, List.map_eq_nil_iff] at h
  obtain ⟨opening, _, rfl, hopen, op, _, rfl, hop, us, _, rfl, hus, closing, _, rfl, hclose,
    rfl⟩ := h
  obtain ⟨right', D, hright, hd, hs⟩ := hr us hus
  have hkinds : ∀ o ∈ unaryOperators.map Prod.fst,
      operatorKind unaryOperators o ∈ [TokenKind.bang, .minus] := by decide
  have hk : op.kind ∈ [.bang, .minus] := Token.kind_of_sign hop ▸ hkinds _ ho
  obtain ⟨D', hd', hs'⟩ := (ExprDerivation.unary hk (.tighter rfl D)).exists_looser
    (l := .equality) (Nat.zero_le _)
  refine ⟨_, .grouping (Token.kind_of_sign hopen) (Token.kind_of_sign hclose) D', ?_, ?_,
    hs'.mpr hs⟩
  · simp [Expr.mapTokens, Token.blank, Token.text_of_sign hop, hright]
  · simp only [ExprDerivation.depth, hd', hd, Expr.nesting]
    omega

theorem exists_level_of_operator {operator : String}
    (h : operator ∈ binaryOperators.map Prod.fst) :
    ∃ l l' : Level, l.next? = some l' ∧ operatorKind binaryOperators operator ∈ l.operators ∧
      l'.rank ≤ Level.call.rank := by
  have hlevels : ∀ o ∈ binaryOperators.map Prod.fst,
      ∃ l ∈ [Level.equality, .relational, .additive, .multiplicative],
        operatorKind binaryOperators o ∈ l.operators := by decide
  obtain ⟨l, hl, hk⟩ := hlevels operator h
  simp only [List.mem_cons, List.not_mem_nil, or_false] at hl
  rcases hl with rfl | rfl | rfl | rfl <;> exact ⟨_, _, rfl, hk, by decide⟩

theorem hasPhrase_binary {token : Token} {left right : Expr} {operator : String}
    (ho : operator ∈ binaryOperators.map Prod.fst)
    (h : ts.map Token.sign = (Expr.binary token left operator right).signs)
    (hl : ∀ us, us.map Token.sign = left.signs → left.HasPhrase .call us)
    (hr : ∀ us, us.map Token.sign = right.signs → right.HasPhrase .call us) :
    (Expr.binary token left operator right).HasPhrase .primary ts := by
  simp only [Expr.signs, List.map_eq_cons_iff, List.map_eq_append_iff, List.map_eq_nil_iff] at h
  obtain ⟨opening, _, rfl, hopen, us, _, rfl, hus, op, _, rfl, hop, vs, _, rfl, hvs, closing, _,
    rfl, hclose, rfl⟩ := h
  obtain ⟨l, l', hn, hk, hrank⟩ := exists_level_of_operator ho
  rw [← Token.kind_of_sign hop] at hk
  have hlrank := Level.rank_of_next? hn
  obtain ⟨left', L, hleft, hL, hLs⟩ := (hl us hus).looser (l := l) (by omega)
  obtain ⟨right', R, hright, hR, hRs⟩ := (hr vs hvs).looser hrank
  obtain ⟨D, hD, hDs⟩ := (ExprDerivation.binary hn hk L R).exists_looser
    (l := .equality) (Nat.zero_le _)
  have hassoc : us ++ op :: (vs ++ [closing]) = us ++ op :: vs ++ [closing] := by simp
  rw [hassoc]
  refine ⟨_, .grouping (Token.kind_of_sign hopen) (Token.kind_of_sign hclose) D, ?_, ?_,
    hDs.mpr ⟨hLs, hRs⟩⟩
  · simp [Expr.mapTokens, Token.blank, Token.text_of_sign hop, hleft, hright]
  · simp only [ExprDerivation.depth, hD, hL, hR, Expr.nesting]
    omega

theorem hasPhrase_conditional {token : Token} {condition : Expr} {consequence : Block}
    (h : ts.map Token.sign = (Expr.conditional token condition consequence none).signs)
    (hc : ∀ us, us.map Token.sign = condition.signs → condition.HasPhrase .call us)
    (hb : ∀ us, us.map Token.sign = consequence.signs → consequence.HasPhrase us) :
    (Expr.conditional token condition consequence none).HasPhrase .primary ts := by
  simp only [Expr.signs, alternativeSigns, List.append_nil, List.map_eq_cons_iff,
    List.map_eq_append_iff] at h
  obtain ⟨word, _, rfl, hword, opening, _, rfl, hopen, us, _, rfl, hus, closing, vs, rfl, hclose,
    hvs⟩ := h
  obtain ⟨condition', C, hcond, hC, hCs⟩ := (hc us hus).looser (l := .equality) (Nat.zero_le _)
  obtain ⟨consequence', B, hcons, hB, hBs⟩ := hb vs hvs
  refine ⟨_, .conditional (Token.kind_of_sign hword) (Token.kind_of_sign hopen)
    (Token.kind_of_sign hclose) C B, ?_, ?_, hCs, hBs⟩
  · simp [Expr.mapTokens, Token.blank, hcond, hcons, mapAlternative]
  · simp only [ExprDerivation.depth, hC, hB, Expr.nesting, nestingAlternative]
    omega

theorem hasPhrase_conditionalElse {token : Token} {condition : Expr}
    {consequence alternative : Block}
    (h : ts.map Token.sign =
      (Expr.conditional token condition consequence (some alternative)).signs)
    (hc : ∀ us, us.map Token.sign = condition.signs → condition.HasPhrase .call us)
    (hb : ∀ us, us.map Token.sign = consequence.signs → consequence.HasPhrase us)
    (ha : ∀ us, us.map Token.sign = alternative.signs → alternative.HasPhrase us) :
    (Expr.conditional token condition consequence (some alternative)).HasPhrase .primary ts := by
  simp only [Expr.signs, alternativeSigns, List.map_eq_cons_iff, List.map_eq_append_iff] at h
  obtain ⟨word, _, rfl, hword, opening, _, rfl, hopen, us, _, rfl, hus, closing, _, rfl, hclose,
    vs, _, rfl, hvs, other, ws, rfl, hother, hws⟩ := h
  obtain ⟨condition', C, hcond, hC, hCs⟩ := (hc us hus).looser (l := .equality) (Nat.zero_le _)
  obtain ⟨consequence', B, hcons, hB, hBs⟩ := hb vs hvs
  obtain ⟨alternative', A, halt, hA, hAs⟩ := ha ws hws
  refine ⟨_, .conditionalElse (Token.kind_of_sign hword) (Token.kind_of_sign hopen)
    (Token.kind_of_sign hclose) (Token.kind_of_sign hother) C B A, ?_, ?_, hCs, hBs, hAs⟩
  · simp [Expr.mapTokens, Token.blank, hcond, hcons, halt, mapAlternative]
  · simp only [ExprDerivation.depth, hC, hB, hA, Expr.nesting, nestingAlternative]

theorem parametersDerivation_of_signs {is : List Identifier}
    (h : ts.map Token.sign = parameterSigns is) :
    ∃ is', ParametersDerivation ts is' ∧
      is'.map (Identifier.mapTokens .blank) = is.map (Identifier.mapTokens .blank) := by
  induction is using parameterSigns.induct generalizing ts with
  | case1 =>
    obtain rfl := List.map_eq_nil_iff.mp h
    exact ⟨[], .nil, rfl⟩
  | case2 i =>
    obtain ⟨t, rfl, ht⟩ := List.map_eq_singleton_iff.mp h
    refine ⟨_, .one (Token.kind_of_sign ht), ?_⟩
    simp [Identifier.mapTokens, Identifier.ofToken, Token.text_of_sign ht, Token.blank]
  | case3 i j is ih =>
    simp only [parameterSigns, List.map_eq_cons_iff] at h
    obtain ⟨t, _, rfl, ht, comma, us, rfl, hcomma, hus⟩ := h
    obtain ⟨is', hd, hmap⟩ := ih hus
    cases us with
    | nil => cases is <;> simp [parameterSigns] at hus
    | cons u us =>
      refine ⟨_, .more (Token.kind_of_sign ht) (Token.kind_of_sign hcomma) hd, ?_⟩
      rw [List.map_cons, hmap]
      simp [Identifier.mapTokens, Identifier.ofToken, Token.text_of_sign ht, Token.blank]

theorem hasPhrase_function {token : Token} {parameters : List Identifier} {body : Block}
    (h : ts.map Token.sign = (Expr.function token parameters body).signs)
    (hb : ∀ us, us.map Token.sign = body.signs → body.HasPhrase us) :
    (Expr.function token parameters body).HasPhrase .primary ts := by
  simp only [Expr.signs, List.map_eq_cons_iff, List.map_eq_append_iff] at h
  obtain ⟨word, _, rfl, hword, opening, _, rfl, hopen, us, _, rfl, hus, closing, vs, rfl, hclose,
    hvs⟩ := h
  obtain ⟨parameters', hp, hmap⟩ := parametersDerivation_of_signs hus
  obtain ⟨body', B, hbody, hB, hBs⟩ := hb vs hvs
  refine ⟨_, .function (Token.kind_of_sign hword) (Token.kind_of_sign hopen)
    (Token.kind_of_sign hclose) hp B, ?_, ?_, hBs⟩
  · simp [Expr.mapTokens, Token.blank, hbody, hmap]
  · simp only [ExprDerivation.depth, hB, Expr.nesting]

theorem hasPhrase_call {token : Token} {callee : Expr} {arguments : List Expr}
    (h : ts.map Token.sign = (Expr.call token callee arguments).signs)
    (hf : ∀ us, us.map Token.sign = callee.signs → callee.HasPhrase .call us)
    (ha : arguments ≠ [] → ∀ us, us.map Token.sign = argumentSigns arguments →
      ArgumentsHavePhrase arguments us) :
    (Expr.call token callee arguments).HasPhrase .call ts := by
  simp only [Expr.signs, List.map_eq_cons_iff, List.map_eq_append_iff, List.map_eq_nil_iff] at h
  obtain ⟨us, _, rfl, hus, opening, _, rfl, hopen, vs, _, rfl, hvs, closing, _, rfl, hclose,
    rfl⟩ := h
  obtain ⟨callee', F, hcallee, hF, hFs⟩ := hf us hus
  cases arguments with
  | nil =>
    obtain rfl := List.map_eq_nil_iff.mp hvs
    refine ⟨_, .call (Token.kind_of_sign hopen) (Token.kind_of_sign hclose) F, ?_, ?_, hFs⟩
    · simp [Expr.mapTokens, Token.blank, hcallee, mapArguments]
    · rw [ExprDerivation.depth, hF, Expr.nesting]
  | cons e es =>
    obtain ⟨arguments', A, hargs, hA, hAs⟩ := ha (by simp) vs hvs
    refine ⟨_, .callWith (Token.kind_of_sign hopen) (Token.kind_of_sign hclose) F A, ?_, ?_, hFs,
      hAs⟩
    · simp [Expr.mapTokens, Token.blank, hcallee, hargs]
    · simp only [ExprDerivation.depth, hF, hA, Expr.nesting]

theorem hasPhrase_define {token : Token} {name : Identifier} {value : Expr}
    (h : ts.map Token.sign = (Stmt.define token name value).signs)
    (hv : ∀ us, us.map Token.sign = value.signs → value.HasPhrase .call us) :
    (Stmt.define token name value).HasPhrase ts := by
  simp only [Stmt.signs, List.map_eq_cons_iff, List.map_eq_append_iff, List.map_eq_nil_iff] at h
  obtain ⟨word, _, rfl, hword, i, _, rfl, hi, assign, _, rfl, hassign, us, _, rfl, hus, t, _, rfl,
    ht, rfl⟩ := h
  obtain ⟨value', D, hvalue, hD, hDs⟩ := (hv us hus).looser (l := .equality) (Nat.zero_le _)
  refine ⟨_, .define (Token.kind_of_sign hword) (Token.kind_of_sign hi)
    (Token.kind_of_sign hassign) D (.semicolon (Token.kind_of_sign ht)), ?_, hD, hDs⟩
  simp [Stmt.mapTokens, Token.blank, hvalue, Identifier.mapTokens, Identifier.ofToken,
    Token.text_of_sign hi]

theorem hasPhrase_returning {token : Token} {value : Expr}
    (h : ts.map Token.sign = (Stmt.returning token value).signs)
    (hv : ∀ us, us.map Token.sign = value.signs → value.HasPhrase .call us) :
    (Stmt.returning token value).HasPhrase ts := by
  simp only [Stmt.signs, List.map_eq_cons_iff, List.map_eq_append_iff, List.map_eq_nil_iff] at h
  obtain ⟨word, _, rfl, hword, us, _, rfl, hus, t, _, rfl, ht, rfl⟩ := h
  obtain ⟨value', D, hvalue, hD, hDs⟩ := (hv us hus).looser (l := .equality) (Nat.zero_le _)
  refine ⟨_, .returning (Token.kind_of_sign hword) D (.semicolon (Token.kind_of_sign ht)), ?_, hD,
    hDs⟩
  simp [Stmt.mapTokens, Token.blank, hvalue]

theorem hasPhrase_expression {token : Token} {e : Expr} {us ends : List Token}
    (h : e.HasPhrase .call us) (he : Terminator ends) :
    (Stmt.expression token e).HasPhrase (us ++ ends) := by
  obtain ⟨e', D, hmap, hD, hDs⟩ := h.looser (l := .equality) (Nat.zero_le _)
  cases us with
  | nil => exact absurd rfl D.ne_nil
  | cons t us =>
    refine ⟨_, .expression D he, ?_, hD, hDs⟩
    simp [Stmt.mapTokens, Token.blank, hmap]

/-- With what has to stand behind a statement when another follows, it is apart from the other. -/
theorem apart_of_signs {s : Stmt} {us : List Token}
    (h : ts.map Token.sign = s.signs ++ terminatorSigns s) : Apart ts us := by
  obtain ⟨pre, hpre⟩ : ∃ pre, s.signs ++ terminatorSigns s = pre ++ [symbol ';'] := by
    cases s with
    | define t name value =>
      exact ⟨(.letWord, "let") :: (.identifier, name.value) :: symbol '=' :: value.signs,
        by simp [Stmt.signs, terminatorSigns]⟩
    | returning t value =>
      exact ⟨(.returnWord, "return") :: value.signs, by simp [Stmt.signs, terminatorSigns]⟩
    | expression t e => exact ⟨e.signs, rfl⟩
  rw [hpre, List.map_eq_append_iff] at h
  obtain ⟨vs, ws, rfl, -, hws⟩ := h
  obtain ⟨t, rfl, ht⟩ := List.map_eq_singleton_iff.mp hws
  exact .inl ⟨t, by simp, Token.kind_of_sign ht⟩

mutual

theorem Expr.hasPhrase : ∀ e : Expr, e.WellFormed → ∀ ts : List Token,
    ts.map Token.sign = e.signs → e.HasPhrase .call ts
  | .identifier _, _, _, hs => (hasPhrase_identifier hs).looser (by decide)
  | .integer _ _, h, _, hs => (hasPhrase_integer h hs).looser (by decide)
  | .boolean _ _, _, _, hs => (hasPhrase_boolean hs).looser (by decide)
  | .unary _ _ right, h, _, hs =>
    (hasPhrase_unary h.1 hs (right.hasPhrase h.2)).looser (by decide)
  | .binary _ left _ right, h, _, hs =>
    (hasPhrase_binary h.2.1 hs (left.hasPhrase h.1) (right.hasPhrase h.2.2)).looser (by decide)
  | .conditional _ condition consequence none, h, _, hs =>
    (hasPhrase_conditional hs (condition.hasPhrase h.1)
      (consequence.hasPhrase h.2.1)).looser (by decide)
  | .conditional _ condition consequence (some alternative), h, _, hs =>
    (hasPhrase_conditionalElse hs (condition.hasPhrase h.1) (consequence.hasPhrase h.2.1)
      (alternative.hasPhrase h.2.2)).looser (by decide)
  | .function _ _ body, h, _, hs =>
    (hasPhrase_function hs (body.hasPhrase h.2.2)).looser (by decide)
  | .call _ callee arguments, h, _, hs =>
    hasPhrase_call hs (callee.hasPhrase h.1) (argumentsHavePhrase arguments h.2)

theorem Stmt.hasPhrase : ∀ s : Stmt, s.WellFormed → ∀ (ts : List Token)
    (ends : List (TokenKind × String)), (ends = [] ∨ ends = terminatorSigns s) →
    ts.map Token.sign = s.signs ++ ends → s.HasPhrase ts
  | .define _ _ value, h, _, _, he, hs => by
    obtain rfl := he.elim id id
    exact hasPhrase_define (by rwa [List.append_nil] at hs) (value.hasPhrase h.2.2)
  | .returning _ value, h, _, _, he, hs => by
    obtain rfl := he.elim id id
    exact hasPhrase_returning (by rwa [List.append_nil] at hs) (value.hasPhrase h.2)
  | .expression _ e, h, _, _, he, hs => by
    obtain ⟨us, vs, rfl, hus, hvs⟩ := List.map_eq_append_iff.mp hs
    refine hasPhrase_expression (e.hasPhrase h us hus) ?_
    rcases he with rfl | rfl
    · obtain rfl := List.map_eq_nil_iff.mp hvs
      exact .none
    · obtain ⟨t, rfl, ht⟩ := List.map_eq_singleton_iff.mp hvs
      exact .semicolon (Token.kind_of_sign ht)

theorem Block.hasPhrase : ∀ b : Block, b.WellFormed → ∀ ts : List Token,
    ts.map Token.sign = b.signs → b.HasPhrase ts
  | ⟨_, statements⟩, h, ts, hs => by
    simp only [Block.signs, List.map_eq_cons_iff, List.map_eq_append_iff, List.map_eq_nil_iff] at hs
    obtain ⟨opening, _, rfl, hopen, us, _, rfl, hus, closing, _, rfl, hclose, rfl⟩ := hs
    obtain ⟨statements', D, hstmts, hD, hDs⟩ := statementsHavePhrase statements h us hus
    refine ⟨_, .braces (Token.kind_of_sign hopen) (Token.kind_of_sign hclose) D, ?_, hD, hDs⟩
    simp [Block.mapTokens, Token.blank, hstmts]

theorem argumentsHavePhrase : ∀ es : List Expr, wellFormedArguments es → es ≠ [] →
    ∀ ts : List Token, ts.map Token.sign = argumentSigns es → ArgumentsHavePhrase es ts
  | [], _, hne, _, _ => absurd rfl hne
  | [e], h, _, ts, hs => by
    obtain ⟨e', D, he, hD, hDs⟩ := (e.hasPhrase h.1 ts hs).looser (l := .equality) (Nat.zero_le _)
    refine ⟨_, .one D, ?_, ?_, hDs⟩
    · simp [mapArguments, he]
    · simp [ArgumentsDerivation.depth, nestingArguments, hD]
  | e :: e' :: es, h, _, ts, hs => by
    simp only [argumentSigns, List.map_eq_cons_iff, List.map_eq_append_iff] at hs
    obtain ⟨us, _, rfl, hus, comma, vs, rfl, hcomma, hvs⟩ := hs
    obtain ⟨e₁, D, he, hD, hDs⟩ := (e.hasPhrase h.1 us hus).looser (l := .equality) (Nat.zero_le _)
    obtain ⟨es₁, A, hes, hA, hAs⟩ := argumentsHavePhrase (e' :: es) h.2 (by simp) vs hvs
    refine ⟨_, .more (Token.kind_of_sign hcomma) D A, ?_, ?_, hDs, hAs⟩
    · rw [mapArguments, he, hes, ← mapArguments]
    · rw [ArgumentsDerivation.depth, hD, hA, ← nestingArguments]

theorem statementsHavePhrase : ∀ ss : List Stmt, wellFormedStatements ss → ∀ ts : List Token,
    ts.map Token.sign = statementSigns ss → StatementsHavePhrase ss ts
  | [], _, ts, hs => by
    obtain rfl := List.map_eq_nil_iff.mp hs
    exact ⟨_, .nil, rfl, rfl, trivial⟩
  | [s], h, ts, hs => by
    obtain ⟨s₁, D, hmap, hD, hDs⟩ :=
      s.hasPhrase h.1 ts [] (.inl rfl) (by rw [List.append_nil, hs, statementSigns])
    rw [← List.append_nil ts]
    refine ⟨_, .cons D .nil, ?_, ?_, hDs, trivial, .inr fun t ht => ?_⟩
    · simp only [mapStatements, hmap]
    · rw [StmtsDerivation.depth, hD]
      rfl
    · contradiction
  | s :: s' :: ss, h, ts, hs => by
    rw [statementSigns, ← List.append_assoc, List.map_eq_append_iff] at hs
    obtain ⟨us, vs, rfl, hus, hvs⟩ := hs
    obtain ⟨s₁, D, hmap, hD, hDs⟩ := s.hasPhrase h.1 us _ (.inr rfl) hus
    obtain ⟨ss₁, DS, hmaps, hDS, hDSs⟩ := statementsHavePhrase (s' :: ss) h.2 vs hvs
    refine ⟨_, .cons D DS, ?_, ?_, hDs, hDSs, apart_of_signs hus⟩
    · rw [mapStatements, hmap, hmaps, ← mapStatements]
    · rw [StmtsDerivation.depth, hD, hDS, ← nestingStatements]

end

/-- The tokens of the text of a program are a phrase for its statements. -/
theorem Program.hasPhrase_text {p : Program} (h : p.WellFormed) (file : Option String) :
    StatementsHavePhrase p.statements (Lexer.ofSource p.text file).tokens :=
  statementsHavePhrase p.statements (wellFormedStatements_iff.mpr h) _
    ((Lexer.map_sign_tokens _).trans (Program.signs_text h))

/-- The text of a program is read without diagnostics just if no statement of it is nested deeper
than the bound, and then as the program itself. -/
theorem ofSource_text {p : Program} (h : p.WellFormed) (file : Option String) :
    ((Report.ofSource p.text file).diagnostics = [] ↔ ∀ s ∈ p.statements, s.nesting ≤ 256) ∧
      ((∀ s ∈ p.statements, s.nesting ≤ 256) →
        (Report.ofSource p.text file).program.bare = p.bare) := by
  obtain ⟨ss, D, hmap, hD, hsep⟩ := Program.hasPhrase_text h file
  rw [mapStatements_eq_map, mapStatements_eq_map] at hmap
  rw [← nestingStatements_le_iff, ← hD]
  have hread : D.depth ≤ 256 → Report.ofSource p.text file = ⟨⟨ss⟩, []⟩ :=
    ofTurns_of_depth_le D hsep rfl
  refine ⟨⟨fun hnil => ?_, fun hd => by rw [hread hd]⟩, fun hd => ?_⟩
  · exact Nat.not_lt.mp fun hlt => diagnostics_ne_nil_of_lt_depth D hsep rfl hlt hnil
  · rw [hread hd]
    exact congrArg Program.mk hmap

/-- A definition with a sign in it is read as it is printed. -/
theorem ofSource_text_define :
    let t : Token := .ofEnd .null
    let p : Program :=
      ⟨[.define ⟨.letWord, "let", t.span⟩ ⟨t, "x"⟩ (.unary t "!" (.integer t 5))]⟩
    p.WellFormed ∧ (Report.ofSource p.text none).diagnostics = [] ∧
      (Report.ofSource p.text none).program.bare = p.bare := by
  intro t p
  have hp : p.WellFormed := by
    intro s hs
    obtain rfl := List.mem_singleton.mp hs
    have hx : Identifier.WellFormed ⟨t, "x"⟩ :=
      ⟨by decide, List.all_eq_true.mp (by decide), by decide⟩
    have hfive : (0 : Int) ≤ 5 ∧ (5 : Int) ≤ Parser.maxInteger := by decide
    exact ⟨rfl, hx, by decide, hfive⟩
  have hn : ∀ s ∈ p.statements, s.nesting ≤ 256 := by simp [p, Stmt.nesting, Expr.nesting]
  have h := ofSource_text hp none
  exact ⟨hp, h.1.mpr hn, h.2 hn⟩

end ScriptReader
