import ScriptReader.Proofs.Failing.Basic
import ScriptReader.Proofs.Soundness

/-! What is read before a diagnostic begins a statement: whatever is open there
can be completed. -/

namespace ScriptReader

theorem ParametersDerivation.append {comma t : Token} {ps : List Token} {ns : List Identifier}
    (hc : comma.kind = .comma) (ht : t.kind = .identifier) (h : ParametersDerivation ps ns)
    (hne : ps ≠ []) : ParametersDerivation (ps ++ [comma, t]) (ns ++ [.ofToken t]) := by
  induction h with
  | nil => contradiction
  | one h => exact .more h hc (.one ht)
  | more h hc' _ ih => exact .more h hc' (ih (by simp))

/-! The shortest phrases, with which others are completed. -/

/-- A token of a kind that determines everything that a phrase asks for. -/
def Token.plain (kind : TokenKind) : Token := ⟨kind, "", ⟨.null, .null⟩⟩

theorem flatExpr_plain : FlatExpr [.plain .identifier] := .identifier rfl

theorem flatBlock_plain {opening : Token} (ho : opening.kind = .leftBrace) :
    FlatBlock [opening, .plain .rightBrace] := .braces ho rfl .nil

theorem viable_expr_nil : Viable FlatExpr [] := ⟨_, flatExpr_plain⟩

namespace Parser

variable {n : Nat} {expr : BindingPower → Parser Expr} {c d m : Cursor}

def FailsJustified (expr : BindingPower → Parser Expr) : Prop :=
  ∀ ⦃power c⦄, Justified FlatExpr c ((expr power).run c)

theorem flat_of_read (he : ReadsExpressions n expr) {power : BindingPower} {e : Expr}
    (h : (expr power).run c = .ok e d) : ∃ ts, c.Spans ts d ∧ FlatExpr ts := by
  obtain ⟨ts, hs, ⟨D, -⟩, -⟩ := he h
  exact ⟨ts, hs, D.flat⟩

theorem flat_of_statement (he : ReadsExpressions n expr) {s : Stmt}
    (h : (statement expr).run c = .ok s d) : ∃ ts, c.Spans ts d ∧ FlatStmt ts := by
  obtain ⟨ts, hs, ⟨D, -⟩, -⟩ := statement_sound he h
  exact ⟨ts, hs, D.flat⟩

theorem flat_of_block (he : ReadsExpressions n expr) {b : Block}
    (hk : c.current.kind = .leftBrace) (h : (block expr).run c = .ok b d) :
    ∃ ts, c.Spans ts d ∧ FlatBlock ts := by
  obtain ⟨ts, hs, D, -⟩ := block_sound he hk h
  exact ⟨ts, hs, D.flat⟩

theorem justified_value (hj : FailsJustified expr) (pre : List Token)
    (hc : c.ahead = pre ++ m.ahead) (hf : ∀ ts, FlatExpr ts → FlatStmt (pre ++ ts))
    (f : Expr → Stmt) :
    Justified FlatStmt c
      ((do
        let value ← expr .lowest
        let _ ← accept .semicolon
        pure (f value)).run m) := by
  refine Justified.bind ?_ fun e d _ => (justified_accept _).bind fun _ _ _ => justified_pure _
  exact hj.within hc fun ts hts => viable_of_phrase (hf ts hts)

theorem justified_define (hj : FailsJustified expr) (hk : c.current.kind = .letWord) :
    Justified FlatStmt c ((define expr).run c) := by
  have hword := Cursor.spans_current (c := c) (by simp [hk])
  rw [define, bind_current]
  refine Justified.bind ?_ fun name d hn => ?_
  · -- Whatever the name is, `=` and a value complete the definition, and so on for each step.
    refine justified_expect hword (by decide) fun u hu => ?_
    exact ⟨[.plain .assign, .plain .identifier],
      by simpa using FlatStmt.define hk hu rfl flatExpr_plain .none⟩
  obtain ⟨hname, -, rfl⟩ := expect_ok_iff.mp hn
  have hspan := hword.trans (Cursor.spans_peek (c := c) (by simp [hname]))
  refine Justified.bind ?_ fun _ d ha => ?_
  · refine justified_expect hspan (by decide) fun u hu => ?_
    exact ⟨[.plain .identifier],
      by simpa using FlatStmt.define hk hname hu flatExpr_plain .none⟩
  obtain ⟨hassign, -, rfl⟩ := expect_ok_iff.mp ha
  have hspan' := hspan.trans (Cursor.spans_peek (c := c.advance) (by simp [hassign]))
  rw [bind_advance]
  refine justified_value hj _ (m := c.advance.advance.advance) hspan'.ahead (fun ts hts => ?_) _
  simpa using FlatStmt.define hk hname hassign hts .none

theorem justified_returning (hj : FailsJustified expr) (hk : c.current.kind = .returnWord) :
    Justified FlatStmt c ((returning expr).run c) := by
  have hword := Cursor.spans_current (c := c) (by simp [hk])
  rw [returning, bind_current, bind_advance]
  refine justified_value hj _ (m := c.advance) hword.ahead (fun ts hts => ?_) _
  simpa using FlatStmt.returning hk hts .none

theorem justified_statement (hj : FailsJustified expr) :
    Justified FlatStmt c ((statement expr).run c) := by
  rw [statement, bind_current]
  split
  · rename_i hk
    exact justified_define hj hk
  · rename_i hk
    exact justified_returning hj hk
  · rw [expressionStatement, bind_current]
    refine justified_value hj [] rfl (fun ts hts => ?_) _
    simpa using FlatStmt.expression hts .none

/-- The next statement of a block, behind those that have been read, or the brace that closes it. -/
theorem justified_blockItem (hj : FailsJustified expr) {opening : Token} {ts : List Token}
    (hk : opening.kind = .leftBrace) (hc : c.ahead = opening :: ts ++ m.ahead)
    (hts : FlatStmts ts) : Justified FlatBlock c ((blockItem expr).run m) := by
  have hclosed : ∀ u : Token, u.kind = .rightBrace → FlatBlock (opening :: ts ++ [u]) :=
    fun u hu => .braces hk hu hts
  rw [blockItem, bind_current]
  split
  · exact justified_pure _
  split
  · rintro -
    refine ⟨opening :: ts, hc, rfl, ⟨_, hclosed (.plain .rightBrace) rfl⟩, ?_⟩
    rintro _ _ ⟨⟩ u hu
    exact viable_of_phrase (hclosed u hu)
  · refine Justified.bind ?_ fun s d _ => trivial
    refine (justified_statement hj).within hc fun us hus => ⟨[.plain .rightBrace], ?_⟩
    simpa using FlatBlock.braces hk rfl (hts.append hus)

theorem justified_block (he : ReadsExpressions n expr) (hj : FailsJustified expr)
    (hk : c.current.kind = .leftBrace) : Justified FlatBlock c ((block expr).run c) := by
  rw [block, bind_current, bind_advance]
  refine Justified.bind ?_ fun ss d _ => justified_pure _
  refine justified_many (I := fun m => ∃ ts, c.ahead = c.current :: ts ++ m.ahead ∧ FlatStmts ts)
    ?_ ?_ ⟨[], (Cursor.spans_current (by simp [hk])).ahead, .nil⟩
  · rintro m ⟨ts, hc, hts⟩
    exact justified_blockItem hj hk hc hts
  · rintro m s d ⟨ts, hc, hts⟩ hs
    obtain ⟨-, -, m', hread, rfl⟩ := blockItem_some_iff.mp hs
    obtain ⟨us, hus, hflat⟩ := flat_of_statement he hread
    exact ⟨ts ++ us, by rw [hc, hus.ahead]; simp, hts.append hflat⟩

theorem justified_call (he : ReadsExpressions n expr) (hj : FailsJustified expr) {callee : Expr}
    {fs : List Token} (hs : c.Spans fs m) (hf : FlatExpr fs) (hk : m.peek.kind = .leftParen) :
    Justified FlatExpr c ((call expr callee).run m.advance) := by
  have hopen := hs.trans (Cursor.spans_peek (c := m) (by simp [hk]))
  have hclosed : ∀ {us : List Token} {u : Token}, FlatArguments us → u.kind = .rightParen →
      FlatExpr (fs ++ [m.peek] ++ us ++ [u]) := by
    intro us u hus hu
    simpa using FlatExpr.callWith hk hu hf hus
  rw [call, bind_current]
  refine Justified.bind ?_ fun args d _ => justified_pure _
  -- Behind the opening parenthesis and behind each comma, an argument is wanted.
  refine justified_commaList
    (I := fun k => ∃ us, c.Spans (fs ++ [m.peek] ++ us) k ∧
      ∀ vs, FlatExpr vs → FlatArguments (us ++ vs))
    (J := fun k => ∃ us, c.Spans (fs ++ [m.peek] ++ us) k ∧ FlatArguments us)
    ?_ ?_ ?_ ?_ ⟨[], by simpa using hopen, fun vs => .one⟩
  · rintro k ⟨us, hus, hnext⟩
    rw [run_argument]
    refine hj.within (m := k.advance) hus.ahead fun vs hvs => ⟨[.plain .rightParen], ?_⟩
    rw [List.append_assoc _ us]
    exact hclosed (hnext vs hvs) rfl
  · rintro k e d ⟨us, hus, hnext⟩ hread
    rw [run_argument] at hread
    obtain ⟨vs, hvs, hflat⟩ := flat_of_read he hread
    exact ⟨us ++ vs, by simpa using hus.trans hvs, hnext vs hflat⟩
  · rintro k ⟨us, hus, hargs⟩ hp
    have hcomma := hus.trans (Cursor.spans_peek (c := k) (by simp [hp]))
    refine ⟨us ++ [k.peek], by simpa using hcomma, fun vs hvs => ?_⟩
    simpa using hargs.append hp hvs
  · rintro k ⟨us, hus, hargs⟩
    exact justified_expect hus (by decide) fun u hu => viable_of_phrase (hclosed hargs hu)

theorem justified_operation (he : ReadsExpressions n expr) (hj : FailsJustified expr)
    {left : Expr} {fs : List Token} {o : Operator} (hs : c.Spans fs m) (hf : FlatExpr fs)
    (ho : m.peek.kind.operator? = some o) :
    Justified FlatExpr c ((operation expr left o).run m.advance) := by
  rcases TokenKind.operator?_cases ho with ⟨hk, rfl⟩ | ⟨l, -, -, hk, rfl⟩
  · exact justified_call he hj hs hf hk
  · have hop := hs.trans (Cursor.spans_peek (c := m) (TokenKind.ne_eof_of_mem hk))
    change Justified FlatExpr c ((binary expr left l.power).run m.advance)
    rw [binary, bind_current, bind_advance]
    refine Justified.bind ?_ fun e d _ => justified_pure _
    refine hj.within (m := m.advance.advance) hop.ahead fun us hus => viable_of_phrase ?_
    simpa using FlatExpr.binary (TokenKind.mem_binaryOperators_iff.mpr ⟨l, hk⟩) hf hus

theorem justified_operations (he : ReadsExpressions n expr) (hj : FailsJustified expr)
    {power : BindingPower} {left : Expr} {k : Level} (hleft : OperandRead (n + 1) k c left m) :
    Justified FlatExpr c ((operations expr power left).run m) := by
  -- Along the tokens, as the operand grows with each operator.
  induction hn : m.ahead.length using Nat.strongRecOn generalizing m left k with
  | ind _ ih =>
    rw [run_operations]
    cases ho : m.peek.kind.operator? with
    | none => trivial
    | some o =>
      by_cases hp : power < o.power
      · simp only [hp, if_true]
        obtain ⟨fs, l, hs, ⟨D, -⟩, -⟩ := id hleft
        refine (justified_operation he hj hs D.flat ho).bind fun e d hr => ?_
        have hlt : (operationAbove expr power left).run m = .ok (some e) d := by
          rw [run_operationAbove]
          simp [ho, hp, hr]
        obtain ⟨l', -, hread⟩ := operation_sound he hleft ho hr
        exact ih _ (hn ▸ operationAbove_advances expr power left hlt) hread rfl
      · simp only [hp, if_false]
        trivial

/-! Operands. -/

theorem justified_unary (hj : FailsJustified expr) (hk : c.current.kind ∈ [.bang, .minus]) :
    Justified FlatExpr c ((unary expr).run c) := by
  have hsign := Cursor.spans_current (c := c) (by intro h; simp [h] at hk)
  rw [unary, bind_current, bind_advance]
  refine Justified.bind ?_ fun e d _ => justified_pure _
  exact hj.within (m := c.advance) hsign.ahead fun ts hts => viable_of_phrase (.unary hk hts)

theorem justified_grouping (he : ReadsExpressions n expr) (hj : FailsJustified expr)
    (hk : c.current.kind = .leftParen) : Justified FlatExpr c ((grouping expr).run c) := by
  have hopen := Cursor.spans_current (c := c) (by simp [hk])
  rw [grouping, bind_advance]
  refine Justified.bind ?_ fun e d hr => ?_
  · exact hj.within (m := c.advance) hopen.ahead fun ts hts =>
      ⟨[.plain .rightParen], .grouping hk rfl hts⟩
  obtain ⟨ts, hs, hts⟩ := flat_of_read he hr
  refine Justified.bind ?_ fun _ _ _ => justified_pure _
  exact justified_expect (hopen.trans hs) (by decide) fun u hu =>
    viable_of_phrase (.grouping hk hu hts)

theorem justified_alternative (he : ReadsExpressions n expr) (hj : FailsJustified expr)
    {ts : List Token} (hs : c.Spans ts m)
    (hf : ∀ {other : Token} {as : List Token}, other.kind = .elseWord → FlatBlock as →
      FlatExpr (ts ++ other :: as)) :
    Justified FlatExpr c ((alternative expr).run m) := by
  rw [alternative]
  refine (justified_accept _).bind fun b d hb => ?_
  cases b with
  | false => exact justified_pure _
  | true =>
    obtain ⟨hw, rfl⟩ := accept_true_iff.mp hb
    have hword := hs.trans (Cursor.spans_peek (c := m) (by simp [hw]))
    refine Justified.bind ?_ fun _ d hbrace => ?_
    · refine justified_expect hword (by decide) fun u hu => ⟨[.plain .rightBrace], ?_⟩
      simpa using hf hw (flatBlock_plain hu)
    obtain ⟨hp, -, rfl⟩ := expect_ok_iff.mp hbrace
    refine Justified.bind ?_ fun _ _ _ => justified_pure _
    refine (justified_block he hj (c := m.advance.advance) hp).within hword.ahead fun as has => ?_
    simpa using viable_of_phrase (hf hw has)

theorem justified_conditional (he : ReadsExpressions n expr) (hj : FailsJustified expr)
    (hk : c.current.kind = .ifWord) : Justified FlatExpr c ((conditional expr).run c) := by
  have hword := Cursor.spans_current (c := c) (by simp [hk])
  rw [run_conditional, bind_current]
  refine Justified.bind ?_ fun _ c₁ hopen => ?_
  · refine justified_expect hword (by decide) fun u hu => ?_
    exact ⟨[.plain .identifier, .plain .rightParen, .plain .leftBrace, .plain .rightBrace],
      by simpa using FlatExpr.conditional hk hu rfl flatExpr_plain (flatBlock_plain rfl)⟩
  obtain ⟨ho, -, rfl⟩ := expect_ok_iff.mp hopen
  have hs₁ := hword.trans (Cursor.spans_peek (c := c) (by simp [ho]))
  rw [bind_advance]
  refine Justified.bind ?_ fun condition c₂ hcond => ?_
  · refine hj.within (m := c.advance.advance) hs₁.ahead fun cs hcs => ?_
    exact ⟨[.plain .rightParen, .plain .leftBrace, .plain .rightBrace],
      by simpa using FlatExpr.conditional hk ho rfl hcs (flatBlock_plain rfl)⟩
  obtain ⟨cs, hcs, hflat⟩ := flat_of_read he hcond
  have hs₂ := hs₁.trans hcs
  refine Justified.bind ?_ fun _ c₃ hclose => ?_
  · refine justified_expect hs₂ (by decide) fun u hu => ?_
    exact ⟨[.plain .leftBrace, .plain .rightBrace],
      by simpa using FlatExpr.conditional hk ho hu hflat (flatBlock_plain rfl)⟩
  obtain ⟨hc, -, rfl⟩ := expect_ok_iff.mp hclose
  have hs₃ := hs₂.trans (Cursor.spans_peek (c := c₂) (by simp [hc]))
  refine Justified.bind ?_ fun _ c₄ hbrace => ?_
  · refine justified_expect hs₃ (by decide) fun u hu => ⟨[.plain .rightBrace], ?_⟩
    simpa using FlatExpr.conditional hk ho hc hflat (flatBlock_plain hu)
  obtain ⟨hb, -, rfl⟩ := expect_ok_iff.mp hbrace
  refine Justified.bind ?_ fun consequence c₅ hcons => ?_
  · refine (justified_block he hj (c := c₂.advance.advance) hb).within hs₃.ahead fun bs hbs => ?_
    simpa using viable_of_phrase (FlatExpr.conditional hk ho hc hflat hbs)
  obtain ⟨bs, hbs, hblock⟩ := flat_of_block (c := c₂.advance.advance) he hb hcons
  refine Justified.bind ?_ fun _ _ _ => justified_pure _
  refine justified_alternative he hj (hs₃.trans hbs) fun hw has => ?_
  simpa using FlatExpr.conditionalElse hk ho hc hw hflat hblock has

theorem justified_parameters {pre : List Token} (hs : c.Spans pre m)
    (hf : ∀ {ps : List Token} {ns : List Identifier}, ParametersDerivation ps ns →
      ∀ closing : Token, closing.kind = .rightParen → Viable FlatExpr (pre ++ ps ++ [closing])) :
    Justified FlatExpr c ((commaList (expect .identifier)).run m) := by
  refine justified_commaList
    (I := fun k => ∃ ps, c.Spans (pre ++ ps) k ∧
      ∀ t : Token, t.kind = .identifier → ∃ ns, ParametersDerivation (ps ++ [t]) ns)
    (J := fun k => ∃ ps ns, c.Spans (pre ++ ps) k ∧ ps ≠ [] ∧ ParametersDerivation ps ns)
    ?_ ?_ ?_ ?_ ⟨[], by simpa using hs, fun t ht => ⟨_, .one ht⟩⟩
  · rintro k ⟨ps, hps, hnext⟩
    refine justified_expect hps (by decide) fun u hu => ?_
    obtain ⟨ns, hns⟩ := hnext u hu
    rw [List.append_assoc]
    exact (hf hns (.plain .rightParen) rfl).of_append
  · rintro k t d ⟨ps, hps, hnext⟩ hread
    obtain ⟨ht, rfl, rfl⟩ := expect_ok_iff.mp hread
    obtain ⟨ns, hns⟩ := hnext _ ht
    have hname := hps.trans (Cursor.spans_peek (c := k) (by simp [ht]))
    exact ⟨ps ++ [k.peek], ns, by simpa using hname, by simp, hns⟩
  · rintro k ⟨ps, ns, hps, hne, hns⟩ hp
    have hcomma := hps.trans (Cursor.spans_peek (c := k) (by simp [hp]))
    refine ⟨ps ++ [k.peek], by simpa using hcomma, fun t ht => ⟨ns ++ [.ofToken t], ?_⟩⟩
    simpa using hns.append hp ht hne
  · rintro k ⟨ps, ns, hps, -, hns⟩
    exact justified_expect hps (by decide) (hf hns)

theorem justified_function (he : ReadsExpressions n expr) (hj : FailsJustified expr)
    (hk : c.current.kind = .fnWord) : Justified FlatExpr c ((function expr).run c) := by
  have hword := Cursor.spans_current (c := c) (by simp [hk])
  rw [function, bind_current]
  refine Justified.bind ?_ fun _ c₁ hopen => ?_
  · refine justified_expect hword (by decide) fun u hu => ?_
    exact ⟨[.plain .rightParen, .plain .leftBrace, .plain .rightBrace],
      .function hk hu rfl .nil (flatBlock_plain rfl)⟩
  obtain ⟨ho, -, rfl⟩ := expect_ok_iff.mp hopen
  have hs₁ := hword.trans (Cursor.spans_peek (c := c) (by simp [ho]))
  refine Justified.bind ?_ fun names c₂ hnames => ?_
  · refine justified_parameters (m := c.advance) hs₁ fun {ps ns} hps closing hc => ?_
    refine ⟨[.plain .leftBrace, .plain .rightBrace], ?_⟩
    simpa using FlatExpr.function hk ho hc hps (flatBlock_plain rfl)
  obtain ⟨ps, closing, hc, hps, hparams⟩ := parameters_sound hnames
  have hs₂ := hs₁.trans hps
  refine Justified.bind ?_ fun _ c₃ hbrace => ?_
  · refine justified_expect hs₂ (by decide) fun u hu => ⟨[.plain .rightBrace], ?_⟩
    simpa using FlatExpr.function hk ho hc hparams (flatBlock_plain hu)
  obtain ⟨hb, -, rfl⟩ := expect_ok_iff.mp hbrace
  refine Justified.bind ?_ fun body c₄ _ => justified_pure _
  refine (justified_block he hj (c := c₂.advance) hb).within hs₂.ahead fun bs hbs => ?_
  simpa using viable_of_phrase (FlatExpr.function hk ho hc hparams hbs)

theorem justified_operand (he : ReadsExpressions n expr) (hj : FailsJustified expr) :
    Justified FlatExpr c ((operand expr).run c) := by
  rw [operand, bind_current]
  cases hk : c.current.kind <;> simp only [TokenKind.operandForm?]
  case identifier => exact justified_pure _
  case integer =>
    rw [integer, bind_current]
    cases integerValue? c.current.text with
    | some value => exact justified_pure _
    | none => exact justified_failAt viable_expr_nil (by simp)
  case trueWord | falseWord => exact justified_pure _
  case bang | minus => exact justified_unary hj (by simp [hk])
  case leftParen => exact justified_grouping he hj hk
  case ifWord => exact justified_conditional he hj hk
  case fnWord => exact justified_function he hj hk
  case illegal =>
    rw [illegal, bind_current]
    exact justified_failAt viable_expr_nil (by simp)
  all_goals exact justified_failAt viable_expr_nil (by simp)

theorem expressionWithin_justified (n : Nat) : FailsJustified (expressionWithin n) := by
  induction n with
  | zero =>
    intro power c hdeep
    exact absurd rfl (hdeep maxNesting)
  | succ n ih =>
    intro power c
    have he := expressionWithin_sound n
    refine (justified_operand he ih).bind fun left d hleft => ?_
    exact justified_operations he ih (operand_sound he hleft)

end Parser

end ScriptReader
