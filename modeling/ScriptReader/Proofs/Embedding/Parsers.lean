import ScriptReader.Proofs.Embedding.Basic
import ScriptReader.Proofs.Soundness
import ScriptReader.Proofs.Tree.Tokens

/-! Expressions and statements are read alike in a source and where it stands
within another. -/

namespace ScriptReader.Embedding

open ScriptReader.Parser

variable {m : Embedding} {R : m.Region} {c d : Cursor}

theorem Agrees.at_of_ok {α γ : Type} {μ : α → γ} {o : Outcome α} {o' : Outcome γ} {a : α}
    (h : Agrees R μ o o') (ho : o = .ok a d) : R.At d := by
  have hat := h.2
  rwa [ho] at hat

section Lists

variable {α : Type} {μ : α → α} {item : Parser α}

theorem agrees_commaItem
    (hitem : ∀ ⦃c⦄, R.At c → c.current.kind ≠ .semicolon →
      Agrees R μ (item.run c) (item.run (m.cursor c)))
    (h : R.At c) (hk : c.current.kind ≠ .semicolon) :
    Agrees R (Option.map μ) ((commaItem item).run c) ((commaItem item).run (m.cursor c)) := by
  rw [commaItem, bind_peek, bind_peek, peek_cursor h hk, m.kind_token]
  by_cases hp : c.peek.kind = .comma
  · rw [if_pos hp, bind_advance, bind_advance, advance_cursor h]
    have hcomma : c.advance.current.kind ≠ .semicolon := by simp [hp]
    exact (hitem (R.advance h hk) hcomma).bind fun a d _ hd => agrees_pure hd rfl
  · rw [if_neg hp]
    exact agrees_pure h rfl

/-- Items with commas between them are read alike if each of them is, and none of them ends with
a semicolon. -/
theorem agrees_commaItems
    (hitem : ∀ ⦃c⦄, R.At c → c.current.kind ≠ .semicolon →
      Agrees R μ (item.run c) (item.run (m.cursor c)))
    (hend : ∀ ⦃c a d⦄, item.run c = .ok a d → d.current.kind ≠ .semicolon)
    (h : R.At c) (hk : c.current.kind ≠ .semicolon) :
    Agrees R (List.map μ) ((commaItems item).run c) ((commaItems item).run (m.cursor c)) := by
  refine (hitem h hk).bind fun a d ha hd => ?_
  refine Agrees.bind (μ := List.map μ) ?_ fun as d' _ hd' => agrees_pure hd' rfl
  refine agrees_many (I := fun c => R.At c ∧ c.current.kind ≠ .semicolon)
    (fun c hc => agrees_commaItem hitem hc.1 hc.2) (fun c a d hc hr => ?_) ⟨hd, hend ha⟩
  have hat := (agrees_commaItem hitem hc.1 hc.2).at_of_ok hr
  exact ⟨hat, hend (commaItem_some_iff.mp hr).2⟩

theorem commaItems_end (hend : ∀ ⦃c a d⦄, item.run c = .ok a d → d.current.kind ≠ .semicolon)
    {as : List α} (h : (commaItems item).run c = .ok as d) : d.current.kind ≠ .semicolon := by
  simp only [commaItems, bind_ok_iff, pure_ok_iff] at h
  obtain ⟨a, k, ha, as, _, has, -, rfl⟩ := h
  have hk := hend ha
  clear ha
  induction as generalizing k with
  | nil =>
    obtain ⟨-, rfl⟩ := commaItem_none_iff.mp (many_nil_iff.mp has)
    exact hk
  | cons b bs ih =>
    obtain ⟨k', hb, has⟩ := many_cons_iff.mp has
    exact ih k' has (hend (commaItem_some_iff.mp hb).2)

theorem agrees_commaList
    (hitem : ∀ ⦃c⦄, R.At c → c.current.kind ≠ .semicolon →
      Agrees R μ (item.run c) (item.run (m.cursor c)))
    (hend : ∀ ⦃c a d⦄, item.run c = .ok a d → d.current.kind ≠ .semicolon)
    (h : R.At c) (hk : c.current.kind ≠ .semicolon) :
    Agrees R (List.map μ) ((commaList item).run c) ((commaList item).run (m.cursor c)) := by
  rw [run_commaList, run_commaList, peek_cursor h hk, m.kind_token]
  by_cases hp : c.peek.kind = .rightParen
  · rw [if_pos hp, if_pos hp, advance_cursor h]
    exact ⟨rfl, R.advance h hk⟩
  · rw [if_neg hp, if_neg hp]
    refine (agrees_commaItems hitem hend h hk).bind fun as d has hd => ?_
    exact (agrees_expect hd (commaItems_end hend has) _).bind fun _ _ _ hd' => agrees_pure hd' rfl

end Lists

/-- Expressions that begin at the same token are read alike. -/
def ReadsAlike (R : m.Region) (expr : BindingPower → Parser Expr) : Prop :=
  ∀ ⦃power c⦄, R.At c →
    Agrees R (Expr.mapTokens m.token) ((expr power).run c) ((expr power).run (m.cursor c))

variable {n : Nat} {expr : BindingPower → Parser Expr}

theorem current_ne_semicolon {l : Level} {ts : List Token} {e : Expr} (D : ExprDerivation l ts e)
    (hs : c.Spans ts d) : d.current.kind ≠ .semicolon := by
  obtain ⟨us, t, rfl, ht⟩ := D.last
  have hlast := hs.last
  rw [List.getLast?_append_of_ne_nil _ (by simp), List.getLast?_singleton] at hlast
  rw [Cursor.current_of_head? hlast.symm]
  intro hk
  simp [hk, TokenKind.expressionEnds] at ht

theorem read_end (he : ReadsExpressions n expr) {power : BindingPower} {e : Expr}
    (h : (expr power).run c = .ok e d) : d.current.kind ≠ .semicolon := by
  obtain ⟨ts, hs, ⟨D, -⟩, -⟩ := he h
  exact current_ne_semicolon D hs

theorem expect_end {kind : TokenKind} {t : Token} (hk : kind ≠ .semicolon)
    (h : (expect kind).run c = .ok t d) : d.current.kind ≠ .semicolon := by
  obtain ⟨hp, -, rfl⟩ := expect_ok_iff.mp h
  rw [Cursor.current_advance, hp]
  exact hk

theorem agrees_argument (ha : ReadsAlike R expr) (h : R.At c) (hk : c.current.kind ≠ .semicolon) :
    Agrees R (Expr.mapTokens m.token) ((argument expr).run c)
      ((argument expr).run (m.cursor c)) := by
  rw [run_argument, run_argument, advance_cursor h]
  exact ha (R.advance h hk)

theorem mapArguments_map (f : Token → Token) : List.map (Expr.mapTokens f) = mapArguments f := by
  funext es
  exact (mapArguments_eq_map f es).symm

theorem agrees_call (he : ReadsExpressions n expr) (ha : ReadsAlike R expr) (h : R.At c)
    (hk : c.current.kind ≠ .semicolon) (callee : Expr) :
    Agrees R (Expr.mapTokens m.token) ((call expr callee).run c)
      ((call expr (callee.mapTokens m.token)).run (m.cursor c)) := by
  rw [call, call, bind_current, bind_current, current_cursor h]
  refine (agrees_commaList (fun c => agrees_argument ha) (fun c e d he' => ?_) h hk).bind
    fun args d _ hd => agrees_pure hd ?_
  · rw [run_argument] at he'
    exact read_end he he'
  · rw [mapArguments_map, Expr.mapTokens]

theorem agrees_binary (ha : ReadsAlike R expr) (h : R.At c)
    (hk : c.current.kind ≠ .semicolon) (left : Expr) (power : BindingPower) :
    Agrees R (Expr.mapTokens m.token) ((binary expr left power).run c)
      ((binary expr (left.mapTokens m.token) power).run (m.cursor c)) := by
  rw [binary, binary, bind_current, bind_current, bind_advance, bind_advance, current_cursor h,
    advance_cursor h, m.text_token]
  refine (ha (R.advance h hk)).bind fun right d _ hd => agrees_pure hd ?_
  rw [Expr.mapTokens]

theorem agrees_operation (he : ReadsExpressions n expr) (ha : ReadsAlike R expr) (h : R.At c)
    (hk : c.current.kind ≠ .semicolon) (left : Expr) (o : Operator) :
    Agrees R (Expr.mapTokens m.token) ((operation expr left o).run c)
      ((operation expr (left.mapTokens m.token) o).run (m.cursor c)) := by
  obtain ⟨form, power⟩ := o
  cases form with
  | binary => exact agrees_binary ha h hk left power
  | call => exact agrees_call he ha h hk left

theorem operation_end (he : ReadsExpressions n expr) {left e : Expr} {o : Operator}
    (h : (operation expr left o).run c = .ok e d) : d.current.kind ≠ .semicolon := by
  obtain ⟨form, power⟩ := o
  cases form with
  | binary =>
    change (binary expr left power).run c = _ at h
    simp only [binary, bind_current, bind_advance, bind_ok_iff, pure_ok_iff] at h
    obtain ⟨right, _, h, -, rfl⟩ := h
    exact read_end he h
  | call =>
    change (call expr left).run c = _ at h
    simp only [call, bind_current, bind_ok_iff, pure_ok_iff] at h
    obtain ⟨args, _, h, -, rfl⟩ := h
    simp [(commaList_ok h).1]

/-- Operators in a row, behind an operand that does not end with a semicolon. -/
theorem agrees_operations (he : ReadsExpressions n expr) (ha : ReadsAlike R expr)
    (power : BindingPower) (left : Expr) (h : R.At c) (hk : c.current.kind ≠ .semicolon) :
    Agrees R (Expr.mapTokens m.token) ((operations expr power left).run c)
      ((operations expr power (left.mapTokens m.token)).run (m.cursor c)) := by
  -- Along the tokens, as the operand grows with each operator.
  induction hn : c.ahead.length using Nat.strongRecOn generalizing c left with
  | ind n ih =>
    rw [run_operations, run_operations, peek_cursor h hk, m.kind_token]
    cases ho : c.peek.kind.operator? with
    | none => exact ⟨rfl, h⟩
    | some o =>
      by_cases hp : power < o.power
      · simp only [hp, if_true]
        have hop : c.advance.current.kind ≠ .semicolon := by
          rw [Cursor.current_advance]
          intro hs
          simp [hs, TokenKind.operator?] at ho
        rw [advance_cursor h]
        refine (agrees_operation he ha (R.advance h hk) hop left o).bind fun e d hr hd => ?_
        have hlt : (operationAbove expr power left).run c = .ok (some e) d := by
          rw [run_operationAbove]
          simp [ho, hp, hr]
        exact ih _ (hn ▸ operationAbove_advances expr power left hlt) e hd (operation_end he hr) rfl
      · simp only [hp, if_false]
        exact ⟨rfl, h⟩

theorem agrees_value (he : ReadsExpressions n expr) (ha : ReadsAlike R expr) (h : R.At c)
    {f g : Expr → Stmt} (hg : ∀ e, g (e.mapTokens m.token) = (f e).mapTokens m.token) :
    Agrees R (Stmt.mapTokens m.token)
      ((do
        let value ← expr .lowest
        let _ ← accept .semicolon
        pure (f value)).run c)
      ((do
        let value ← expr .lowest
        let _ ← accept .semicolon
        pure (g value)).run (m.cursor c)) := by
  refine (ha h).bind fun e d hr hd => ?_
  refine (agrees_accept hd (read_end he hr) .semicolon).bind fun _ _ _ hd' => ?_
  exact agrees_pure hd' (hg e)

theorem agrees_define (he : ReadsExpressions n expr) (ha : ReadsAlike R expr) (h : R.At c)
    (hk : c.current.kind = .letWord) :
    Agrees R (Stmt.mapTokens m.token) ((define expr).run c) ((define expr).run (m.cursor c)) := by
  rw [define, bind_current, bind_current, current_cursor h]
  refine (agrees_expect h (by simp [hk]) .identifier).bind fun name d hn hd => ?_
  have hname := expect_end (by decide) hn
  refine (agrees_expect hd hname .assign).bind fun _ d' ha' hd' => ?_
  rw [bind_advance, bind_advance, advance_cursor hd']
  refine agrees_value he ha (R.advance hd' (expect_end (by decide) ha')) fun e => ?_
  simp [Stmt.mapTokens, Identifier.mapTokens, Identifier.ofToken, m.text_token]

theorem agrees_returning (he : ReadsExpressions n expr) (ha : ReadsAlike R expr) (h : R.At c)
    (hk : c.current.kind = .returnWord) :
    Agrees R (Stmt.mapTokens m.token) ((returning expr).run c)
      ((returning expr).run (m.cursor c)) := by
  rw [returning, bind_current, bind_current, current_cursor h, bind_advance, bind_advance,
    advance_cursor h]
  refine agrees_value he ha (R.advance h (by simp [hk])) fun e => ?_
  rw [Stmt.mapTokens]

theorem agrees_statement (he : ReadsExpressions n expr) (ha : ReadsAlike R expr) (h : R.At c) :
    Agrees R (Stmt.mapTokens m.token) ((statement expr).run c)
      ((statement expr).run (m.cursor c)) := by
  rw [statement, bind_current, bind_current, current_cursor h, m.kind_token]
  split
  · rename_i hk
    exact agrees_define he ha h hk
  · rename_i hk
    exact agrees_returning he ha h hk
  · rw [expressionStatement, bind_current, bind_current, current_cursor h]
    refine agrees_value he ha h fun e => ?_
    rw [Stmt.mapTokens]

theorem agrees_blockItem (he : ReadsExpressions n expr) (ha : ReadsAlike R expr)
    (h : R.InBlock c) :
    Agrees R (Option.map (Stmt.mapTokens m.token)) ((blockItem expr).run c)
      ((blockItem expr).run (m.cursor c)) := by
  have hat := R.inside h
  rw [blockItem, bind_current, bind_current, current_cursor hat, m.kind_token]
  by_cases hb : c.current.kind = .rightBrace
  · rw [if_pos hb, if_pos hb]
    exact agrees_pure hat rfl
  · rw [if_neg hb, if_neg hb]
    by_cases hf : c.current.kind = .eof
    · rw [if_pos hf, if_pos hf]
      exact agrees_failAt hat _ _
    · rw [if_neg hf, if_neg hf]
      refine (agrees_statement he ha hat).bind fun s d hs hd => ?_
      obtain ⟨ts, hts, ⟨D, -⟩, -⟩ := statement_sound he hs
      rw [bind_advance, bind_advance, advance_cursor hd]
      exact agrees_pure (R.inside (R.statement h hts D)) rfl

theorem agrees_block (he : ReadsExpressions n expr) (ha : ReadsAlike R expr) (h : R.At c)
    (hk : c.current.kind = .leftBrace) :
    Agrees R (Block.mapTokens m.token) ((block expr).run c) ((block expr).run (m.cursor c)) := by
  rw [block, bind_current, bind_current, current_cursor h, bind_advance, bind_advance,
    advance_cursor h]
  refine Agrees.bind (μ := List.map (Stmt.mapTokens m.token)) ?_
    fun ss d _ hd => agrees_pure hd ?_
  · refine agrees_many (fun c => agrees_blockItem he ha) (fun c s d hc hs => ?_) (R.enter h hk)
    obtain ⟨-, -, d', hs', rfl⟩ := blockItem_some_iff.mp hs
    obtain ⟨ts, hts, ⟨D, -⟩, -⟩ := statement_sound he hs'
    exact R.statement hc hts D
  · rw [Block.mapTokens, mapStatements_eq_map]

theorem block_end (he : ReadsExpressions n expr) {b : Block} (hk : c.current.kind = .leftBrace)
    (h : (block expr).run c = .ok b d) : d.current.kind ≠ .semicolon := by
  obtain ⟨ts, hs, D, -⟩ := block_sound he hk h
  obtain ⟨us, t, rfl, ht⟩ := D.last
  have hlast := hs.last
  rw [List.getLast?_append_of_ne_nil _ (by simp), List.getLast?_singleton] at hlast
  rw [Cursor.current_of_head? hlast.symm, ht]
  decide

/-! Operands. -/

theorem agrees_unary (ha : ReadsAlike R expr) (h : R.At c) (hk : c.current.kind ≠ .semicolon) :
    Agrees R (Expr.mapTokens m.token) ((unary expr).run c) ((unary expr).run (m.cursor c)) := by
  rw [unary, bind_current, bind_current, bind_advance, bind_advance, current_cursor h,
    advance_cursor h, m.text_token]
  refine (ha (R.advance h hk)).bind fun right d _ hd => agrees_pure hd ?_
  rw [Expr.mapTokens]

theorem agrees_grouping (he : ReadsExpressions n expr) (ha : ReadsAlike R expr) (h : R.At c)
    (hk : c.current.kind ≠ .semicolon) :
    Agrees R (Expr.mapTokens m.token) ((grouping expr).run c)
      ((grouping expr).run (m.cursor c)) := by
  rw [grouping, bind_advance, bind_advance, advance_cursor h]
  refine (ha (R.advance h hk)).bind fun e d hr hd => ?_
  exact (agrees_expect hd (read_end he hr) _).bind fun _ _ _ hd' => agrees_pure hd' rfl

theorem agrees_alternative (he : ReadsExpressions n expr) (ha : ReadsAlike R expr) (h : R.At c)
    (hk : c.current.kind ≠ .semicolon) :
    Agrees R (mapAlternative m.token) ((alternative expr).run c)
      ((alternative expr).run (m.cursor c)) := by
  rw [alternative]
  refine (agrees_accept h hk .elseWord).bind fun b d hb hd => ?_
  cases b with
  | false => exact agrees_pure hd rfl
  | true =>
    obtain ⟨hp, rfl⟩ := accept_true_iff.mp hb
    have helse : c.advance.current.kind ≠ .semicolon := by simp [hp]
    refine (agrees_expect hd helse .leftBrace).bind fun _ d' hbrace hd' => ?_
    obtain ⟨hp, -, rfl⟩ := expect_ok_iff.mp hbrace
    exact (agrees_block he ha hd' hp).bind fun _ _ _ hd'' => agrees_pure hd'' rfl

theorem agrees_conditional (he : ReadsExpressions n expr) (ha : ReadsAlike R expr) (h : R.At c)
    (hk : c.current.kind ≠ .semicolon) :
    Agrees R (Expr.mapTokens m.token) ((conditional expr).run c)
      ((conditional expr).run (m.cursor c)) := by
  rw [run_conditional, run_conditional, bind_current, bind_current, current_cursor h]
  refine (agrees_expect h hk .leftParen).bind fun _ c₁ hopen h₁ => ?_
  rw [bind_advance, bind_advance, advance_cursor h₁]
  refine (ha (R.advance h₁ (expect_end (by decide) hopen))).bind fun condition c₂ hcond h₂ => ?_
  refine (agrees_expect h₂ (read_end he hcond) .rightParen).bind fun _ c₃ hclose h₃ => ?_
  refine (agrees_expect h₃ (expect_end (by decide) hclose) .leftBrace).bind
    fun _ c₄ hbrace h₄ => ?_
  obtain ⟨hp, -, rfl⟩ := expect_ok_iff.mp hbrace
  refine (agrees_block he ha h₄ hp).bind fun consequence c₅ hcons h₅ => ?_
  have hend := block_end (c := c₃.advance) he hp hcons
  refine (agrees_alternative he ha h₅ hend).bind fun other c₆ _ h₆ => ?_
  refine agrees_pure h₆ ?_
  rw [Expr.mapTokens]

theorem agrees_function (he : ReadsExpressions n expr) (ha : ReadsAlike R expr) (h : R.At c)
    (hk : c.current.kind ≠ .semicolon) :
    Agrees R (Expr.mapTokens m.token) ((function expr).run c)
      ((function expr).run (m.cursor c)) := by
  rw [function, bind_current, bind_current, current_cursor h]
  refine (agrees_expect h hk .leftParen).bind fun _ c₁ hopen h₁ => ?_
  have hlist := agrees_commaList (fun c hc hk => agrees_expect hc hk .identifier)
    (fun c t d => expect_end (by decide)) h₁ (expect_end (by decide) hopen)
  refine hlist.bind fun names c₂ hnames h₂ => ?_
  have hclose : c₂.current.kind ≠ .semicolon := by simp [(commaList_ok hnames).1]
  refine (agrees_expect h₂ hclose .leftBrace).bind fun _ c₃ hbrace h₃ => ?_
  obtain ⟨hp, -, rfl⟩ := expect_ok_iff.mp hbrace
  refine (agrees_block he ha h₃ hp).bind fun body c₄ _ h₄ => agrees_pure h₄ ?_
  simp [Expr.mapTokens, Identifier.mapTokens, Identifier.ofToken, m.text_token]

theorem agrees_operand (he : ReadsExpressions n expr) (ha : ReadsAlike R expr) (h : R.At c) :
    Agrees R (Expr.mapTokens m.token) ((operand expr).run c)
      ((operand expr).run (m.cursor c)) := by
  rw [operand, bind_current, bind_current, current_cursor h, m.kind_token]
  cases hk : c.current.kind <;> simp only [TokenKind.operandForm?]
  case identifier =>
    rw [identifier, bind_current, bind_current, current_cursor h]
    refine agrees_pure h ?_
    simp [Expr.mapTokens, Identifier.mapTokens, Identifier.ofToken, m.text_token]
  case integer =>
    rw [integer, bind_current, bind_current, current_cursor h, m.text_token]
    cases integerValue? c.current.text with
    | some value => exact agrees_pure h (by rw [Expr.mapTokens])
    | none => exact agrees_failAt h _ _
  case trueWord | falseWord =>
    rw [boolean, bind_current, bind_current, current_cursor h, m.kind_token]
    exact agrees_pure h (by rw [Expr.mapTokens])
  case bang | minus => exact agrees_unary ha h (by simp [hk])
  case leftParen => exact agrees_grouping he ha h (by simp [hk])
  case ifWord => exact agrees_conditional he ha h (by simp [hk])
  case fnWord => exact agrees_function he ha h (by simp [hk])
  case illegal =>
    rw [illegal, bind_current, bind_current, current_cursor h, m.text_token]
    exact agrees_failAt h _ _
  all_goals exact agrees_failAt h _ _

theorem expressionWithin_alike (n : Nat) : ReadsAlike R (expressionWithin n) := by
  induction n with
  | zero =>
    intro power c h
    rw [expressionWithin, bind_current, bind_current, current_cursor h]
    exact agrees_failAt h _ _
  | succ n ih =>
    intro power c h
    have he := expressionWithin_sound n
    refine (agrees_operand he ih h).bind fun left d hleft hd => ?_
    obtain ⟨ts, l, hs, ⟨D, -⟩, -⟩ := operand_sound he hleft
    exact agrees_operations he ih power left hd (current_ne_semicolon D hs)

end ScriptReader.Embedding
