import ScriptReader.Proofs.Grammar.Precedence
import ScriptReader.Proofs.Grammar.Shape
import ScriptReader.Proofs.Parser.Steps

/-! Whatever is read is a phrase of the grammar, from its first token to its
last, and the tree that is given for it is the tree of the phrase. -/

namespace ScriptReader.Parser

/-- What `expr` reads are expressions of the grammar, which end before an operator that binds no
tighter. -/
def ReadsExpressions (n : Nat) (expr : BindingPower → Parser Expr) : Prop :=
  ∀ ⦃power c e d⦄, (expr power).run c = .ok e d →
    ∃ ts, c.Spans ts d ∧ Derivable n power.level ts e ∧ d.peek.kind.power ≤ power

variable {n : Nat} {expr : BindingPower → Parser Expr} {c d : Cursor}

theorem integerValue?_eq_some {text : String} {value : Int} (h : integerValue? text = some value) :
    ∃ v : Nat, value = v ∧ Numeral text v := by
  unfold integerValue? at h
  dsimp only at h
  split at h
  · rename_i hc
    obtain ⟨hn, ha, hv⟩ := hc
    exact ⟨_, (Option.some.inj h).symm, hn, List.all_eq_true.mp ha, rfl, hv⟩
  · contradiction

theorem accept_semicolon {m : Cursor} {ts : List Token} {b : Bool} (hs : c.Spans ts m)
    (h : (accept .semicolon).run m = .ok b d) :
    ∃ ends, Terminator ends ∧ c.Spans (ts ++ ends) d ∧
      ((∃ t, ends = [t] ∧ t.kind = .semicolon) ∨ ends = [] ∧ d = m) := by
  cases b with
  | true =>
    obtain ⟨hk, rfl⟩ := accept_true_iff.mp h
    exact ⟨_, .semicolon hk, hs.trans (Cursor.spans_peek (by simp [hk])), .inl ⟨_, rfl, hk⟩⟩
  | false =>
    obtain ⟨-, rfl⟩ := accept_false_iff.mp h
    exact ⟨_, .none, by simpa using hs, .inr ⟨rfl, rfl⟩⟩

/-- The tokens end with a semicolon, or what is peeked at does not go on with an expression. -/
def EndsApart (ts : List Token) (d : Cursor) : Prop :=
  (∃ t, ts.getLast? = some t ∧ t.kind = .semicolon) ∨ ¬d.peek.kind.Continues

theorem EndsApart.append_left {ts : List Token} (h : EndsApart ts d) (us : List Token) :
    EndsApart (us ++ ts) d := by
  rcases h with ⟨t, ht, hk⟩ | h
  · exact .inl ⟨t, by simp [ht], hk⟩
  · exact .inr h

def StatementRead (n : Nat) (c : Cursor) (s : Stmt) (d : Cursor) : Prop :=
  ∃ ts, c.Spans ts d ∧ (∃ D : StmtDerivation ts s, D.depth ≤ n ∧ D.Separated) ∧ EndsApart ts d

theorem value_sound (he : ReadsExpressions n expr) {m : Cursor} {e : Expr} {b : Bool}
    (h : (expr .lowest).run c = .ok e m) (h' : (accept .semicolon).run m = .ok b d) :
    ∃ ts ends, c.Spans (ts ++ ends) d ∧ Derivable n .equality ts e ∧ Terminator ends ∧
      EndsApart (ts ++ ends) d := by
  obtain ⟨ts, hs, hd, hp⟩ := he h
  obtain ⟨ends, ht, hs', ⟨t, rfl, hk⟩ | ⟨rfl, rfl⟩⟩ := accept_semicolon hs h'
  · exact ⟨ts, _, hs', hd, ht, .inl ⟨t, by simp, hk⟩⟩
  · exact ⟨ts, _, hs', hd, ht, .inr (TokenKind.power_eq_lowest_iff.mp hp)⟩

theorem define_sound (he : ReadsExpressions n expr) {s : Stmt} (hw : c.current.kind = .letWord)
    (h : (define expr).run c = .ok s d) : StatementRead n c s d := by
  simp only [define, bind_current, bind_advance, bind_ok_iff, expect_ok_iff, pure_ok_iff] at h
  obtain ⟨_, _, ⟨hn, rfl, rfl⟩, _, _, ⟨ha, rfl, rfl⟩, value, m, hv, b, _, hb, rfl, rfl⟩ := h
  obtain ⟨ts, ends, hs, ⟨D, hd, hsep⟩, ht, hend⟩ := value_sound he hv hb
  have hc := Cursor.spans_current (c := c) (by simp [hw])
  have hname := Cursor.spans_peek (c := c) (by simp [hn])
  have hassign := Cursor.spans_peek (c := c.advance) (by simp [ha])
  exact ⟨c.current :: c.peek :: c.advance.peek :: (ts ++ ends),
    hc.trans (hname.trans (hassign.trans hs)), ⟨.define hw hn ha D ht, hd, hsep⟩,
    hend.append_left [_, _, _]⟩

theorem returning_sound (he : ReadsExpressions n expr) {s : Stmt}
    (hw : c.current.kind = .returnWord) (h : (returning expr).run c = .ok s d) :
    StatementRead n c s d := by
  simp only [returning, bind_current, bind_advance, bind_ok_iff, pure_ok_iff] at h
  obtain ⟨value, m, hv, b, _, hb, rfl, rfl⟩ := h
  obtain ⟨ts, ends, hs, ⟨D, hd, hsep⟩, ht, hend⟩ := value_sound he hv hb
  have hc := Cursor.spans_current (c := c) (by simp [hw])
  exact ⟨c.current :: (ts ++ ends), hc.trans hs, ⟨.returning hw D ht, hd, hsep⟩,
    hend.append_left [_]⟩

theorem expressionStatement_sound (he : ReadsExpressions n expr) {s : Stmt}
    (h : (expressionStatement expr).run c = .ok s d) : StatementRead n c s d := by
  simp only [expressionStatement, bind_current, bind_ok_iff, pure_ok_iff] at h
  obtain ⟨value, m, hv, b, _, hb, rfl, rfl⟩ := h
  obtain ⟨ts, ends, hs, ⟨D, hd, hsep⟩, ht, hend⟩ := value_sound he hv hb
  cases ts with
  | nil => exact absurd rfl D.ne_nil
  | cons t ts =>
    obtain rfl := hs.current
    exact ⟨_, hs, ⟨.expression D ht, hd, hsep⟩, hend⟩

theorem statement_sound (he : ReadsExpressions n expr) {s : Stmt}
    (h : (statement expr).run c = .ok s d) : StatementRead n c s d := by
  rw [statement, bind_current] at h
  split at h
  · rename_i hk
    exact define_sound he hk h
  · rename_i hk
    exact returning_sound he hk h
  · exact expressionStatement_sound he h

/-- The statements of a block, up to the brace that closes it. -/
theorem blockItems_sound (he : ReadsExpressions n expr) {ss : List Stmt}
    (h : (many (blockItem expr) (blockItem_advances expr)).run c = .ok ss d) :
    ∃ ts, c.ahead = ts ++ d.ahead ∧ d.stop = c.stop ∧ d.current.kind = .rightBrace ∧
      ∃ D : StmtsDerivation ts ss, D.depth ≤ n ∧ D.Separated := by
  induction ss generalizing c with
  | nil =>
    rw [many_nil_iff, blockItem_none_iff] at h
    obtain ⟨hk, rfl⟩ := h
    exact ⟨[], rfl, rfl, hk, .nil, Nat.zero_le _, trivial⟩
  | cons s ss ih =>
    rw [many_cons_iff] at h
    obtain ⟨_, hi, h⟩ := h
    obtain ⟨-, -, m, hs, rfl⟩ := blockItem_some_iff.mp hi
    obtain ⟨us, hu, hstop, hk, D', hd', hsep'⟩ := ih h
    obtain ⟨ts, ht, ⟨D, hd, hsep⟩, hend⟩ := statement_sound he hs
    rw [Cursor.ahead_advance] at hu
    refine ⟨ts ++ us, by rw [ht.ahead, hu, List.append_assoc], hstop.trans ht.stop, hk,
      .cons D D', Nat.max_le.mpr ⟨hd, hd'⟩, hsep, hsep', hend.imp_right ?_⟩
    -- The first token of what follows is the one that was peeked at behind the statement.
    intro hp t hhead
    have hpeek : m.peek = t := Cursor.current_of_head? (c := m.advance) (by simp [hu, hhead])
    rwa [← hpeek]

theorem block_sound (he : ReadsExpressions n expr) {b : Block}
    (hw : c.current.kind = .leftBrace) (h : (block expr).run c = .ok b d) :
    ∃ ts, c.Spans ts d ∧ ∃ D : BlockDerivation ts b, D.depth ≤ n ∧ D.Separated := by
  simp only [block, bind_current, bind_advance, bind_ok_iff, pure_ok_iff] at h
  obtain ⟨ss, _, h, rfl, rfl⟩ := h
  obtain ⟨ts, ht, hstop, hk, D, hd, hsep⟩ := blockItems_sound he h
  have hc := Cursor.spans_current (c := c) (by simp [hw])
  have hd' := Cursor.spans_of_ahead ht hstop (by simp [hk])
  exact ⟨c.current :: (ts ++ [d.current]), hc.trans hd', .braces hw hk D, hd, hsep⟩

theorem commaList_ok {α : Type} {item : Parser α} {as : List α}
    (h : (commaList item).run c = .ok as d) :
    d.current.kind = .rightParen ∧
      ((as = [] ∧ d = c.advance) ∨
        ∃ a as' m m', as = a :: as' ∧ item.run c = .ok a m ∧
          (many (commaItem item) (commaItem_advances item)).run m = .ok as' m' ∧
          d = m'.advance) := by
  rw [run_commaList] at h
  by_cases hk : c.peek.kind = .rightParen
  · simp only [hk, if_true, Outcome.ok.injEq] at h
    obtain ⟨rfl, rfl⟩ := h
    exact ⟨hk, .inl ⟨rfl, rfl⟩⟩
  · simp only [hk, if_false, commaItems, bind_ok_iff, expect_ok_iff, pure_ok_iff] at h
    obtain ⟨_, m', ⟨a, m, ha, as', _, has, rfl, rfl⟩, _, _, ⟨hr, rfl, rfl⟩, rfl, rfl⟩ := h
    exact ⟨hr, .inr ⟨a, as', m, m', rfl, ha, has, rfl⟩⟩

theorem moreParameters_sound {names : List Token} {t : Token} {m : Cursor}
    (hs : c.Spans [t] m) (hk : t.kind = .identifier)
    (h : (many (commaItem (expect .identifier)) (commaItem_advances _)).run m = .ok names d) :
    ∃ ts, c.Spans (t :: ts) d ∧
      ParametersDerivation (t :: ts) (.ofToken t :: names.map .ofToken) := by
  induction names generalizing c m t with
  | nil =>
    rw [many_nil_iff, commaItem_none_iff] at h
    obtain ⟨-, rfl⟩ := h
    exact ⟨[], hs, .one hk⟩
  | cons name names ih =>
    simp only [many_cons_iff, commaItem_some_iff, expect_ok_iff] at h
    obtain ⟨_, ⟨hc, hn, rfl, rfl⟩, h⟩ := h
    have hcomma := Cursor.spans_peek (c := m) (by simp [hc])
    have hname := Cursor.spans_peek (c := m.advance) (by simp [hn])
    obtain ⟨ts, hts, hp⟩ := ih hname hn h
    exact ⟨m.peek :: m.advance.peek :: ts, hs.trans (hcomma.trans hts), .more hk hc hp⟩

theorem moreArguments_sound (he : ReadsExpressions n expr) {args : List Expr} {e : Expr}
    {ts : List Token} {m : Cursor} (hs : c.Spans ts m) (hd : Derivable n .equality ts e)
    (h : (many (commaItem (argument expr)) (commaItem_advances _)).run m = .ok args d) :
    ∃ us, c.Spans us d ∧ ∃ D : ArgumentsDerivation us (e :: args), D.depth ≤ n ∧ D.Separated := by
  induction args generalizing c m e ts with
  | nil =>
    rw [many_nil_iff, commaItem_none_iff] at h
    obtain ⟨-, rfl⟩ := h
    obtain ⟨D, hD, hsep⟩ := hd
    exact ⟨ts, hs, .one D, hD, hsep⟩
  | cons arg args ih =>
    simp only [many_cons_iff, commaItem_some_iff, argument, bind_advance] at h
    obtain ⟨m', ⟨hc, ha⟩, h⟩ := h
    obtain ⟨vs, hvs, hd', -⟩ := he ha
    obtain ⟨us, hus, A, hA, hAsep⟩ := ih hvs hd' h
    obtain ⟨D, hD, hsep⟩ := hd
    have hcomma := Cursor.spans_peek (c := m) (by simp [hc])
    exact ⟨ts ++ m.peek :: us, hs.trans (hcomma.trans hus), .more hc D A,
      Nat.max_le.mpr ⟨hD, hA⟩, hsep, hAsep⟩

theorem call_sound (he : ReadsExpressions n expr) {callee e : Expr} {fs : List Token}
    (hw : c.current.kind = .leftParen) (hf : Derivable (n + 1) .call fs callee)
    (h : (call expr callee).run c = .ok e d) :
    ∃ ts, c.Spans ts d ∧ Derivable (n + 1) .call (fs ++ ts) e := by
  obtain ⟨F, hF, hFsep⟩ := hf
  simp only [call, bind_current, bind_ok_iff, pure_ok_iff] at h
  obtain ⟨args, _, h, rfl, rfl⟩ := h
  have hc := Cursor.spans_current (c := c) (by simp [hw])
  obtain ⟨hr, ⟨rfl, rfl⟩ | ⟨arg, args, m, m', rfl, ha, has, rfl⟩⟩ := commaList_ok h
  · have hclose := Cursor.spans_peek (c := c) (by simp [← Cursor.current_advance, hr])
    exact ⟨[c.current, c.peek], hc.trans hclose, .call hw hr F, hF, hFsep⟩
  · have hclose := Cursor.spans_peek (c := m') (by simp [← Cursor.current_advance, hr])
    obtain ⟨ts, hts, hd, -⟩ := he ha
    obtain ⟨us, hus, A, hA, hAsep⟩ := moreArguments_sound he hts hd has
    refine ⟨c.current :: (us ++ [m'.peek]), hc.trans (hus.trans hclose), .callWith hw hr F A,
      Nat.max_le.mpr ⟨hF, by omega⟩, hFsep, hAsep⟩

/-- An expression that has been read, of a level at least as tight as `k`. Its last operand is not
taken apart by what follows. -/
def OperandRead (n : Nat) (k : Level) (c : Cursor) (e : Expr) (d : Cursor) : Prop :=
  ∃ ts l, c.Spans ts d ∧ Derivable n l ts e ∧ d.peek.kind.power ≤ l.power ∧ k.rank ≤ l.rank

theorem binary_sound (he : ReadsExpressions n expr) {left e : Expr} {fs : List Token}
    {l l' : Level} {m : Cursor} (hs : c.Spans fs m) (hleft : Derivable (n + 1) l fs left)
    (hl : l.next? = some l') (hk : m.peek.kind ∈ l.operators)
    (h : (binary expr left l.power).run m.advance = .ok e d) : OperandRead (n + 1) l c e d := by
  simp only [binary, bind_current, bind_advance, bind_ok_iff, pure_ok_iff] at h
  obtain ⟨right, _, h, rfl, rfl⟩ := h
  obtain rfl := TokenKind.level_power_of_mem hk hl
  obtain ⟨L, hL, hLsep⟩ := hleft
  obtain ⟨ts, hts, ⟨R, hR, hRsep⟩, hp⟩ := he h
  have hop := Cursor.spans_peek (c := m) (TokenKind.ne_eof_of_mem hk)
  exact ⟨fs ++ m.peek :: ts, l, hs.trans (hop.trans hts),
    ⟨.binary hl hk L R, Nat.max_le.mpr ⟨hL, by omega⟩, hLsep, hRsep⟩, hp, Nat.le_refl _⟩

theorem operation_sound (he : ReadsExpressions n expr) {left e : Expr} {k : Level} {o : Operator}
    {m : Cursor} (hleft : OperandRead (n + 1) k c left m) (ho : m.peek.kind.operator? = some o)
    (h : (operation expr left o).run m.advance = .ok e d) :
    ∃ l : Level, l.power = o.power ∧ OperandRead (n + 1) l c e d := by
  obtain ⟨fs, l, hs, hd, hl, -⟩ := hleft
  have hpower : m.peek.kind.power = o.power := by simp [TokenKind.power, ho]
  rcases TokenKind.operator?_cases ho with ⟨hk, rfl⟩ | ⟨l', l'', hn, hk, rfl⟩
  · rw [hpower] at hl
    have hrank : Level.call.rank ≤ l.rank := Level.rank_le_of_power_le rfl hl
    obtain ⟨ts, hts, hd'⟩ := call_sound (c := m.advance) he hk (hd.looser hrank) h
    exact ⟨.call, rfl, _, _, hs.trans hts, hd', BindingPower.le_call _, Nat.le_refl _⟩
  · have hrank := Level.rank_le_of_power_le hn (hpower ▸ hl)
    exact ⟨l', rfl, binary_sound he hs (hd.looser hrank) hn hk h⟩

theorem primary_read {ts : List Token} {e : Expr} (hs : c.Spans ts d)
    (D : ExprDerivation .primary ts e) (hD : D.depth ≤ n) (hsep : D.Separated) :
    OperandRead n .unary c e d :=
  ⟨ts, .primary, hs, ⟨D, hD, hsep⟩, BindingPower.le_call _, by decide⟩

theorem unary_sound (he : ReadsExpressions n expr) {e : Expr}
    (hk : c.current.kind ∈ [.bang, .minus]) (h : (unary expr).run c = .ok e d) :
    OperandRead (n + 1) .unary c e d := by
  simp only [unary, bind_current, bind_advance, bind_ok_iff, pure_ok_iff] at h
  obtain ⟨right, _, h, rfl, rfl⟩ := h
  obtain ⟨ts, hts, (hd : Derivable n .unary ts right), hp⟩ := he h
  obtain ⟨R, hR, hRsep⟩ := hd
  have hc := Cursor.spans_current (c := c) (by intro h; simp [h] at hk)
  refine ⟨c.current :: ts, .unary, hc.trans hts, ⟨.unary hk R, ?_, hRsep⟩, hp, Nat.le_refl _⟩
  simp only [ExprDerivation.depth]
  omega

theorem grouping_sound (he : ReadsExpressions n expr) {e : Expr}
    (hk : c.current.kind = .leftParen) (h : (grouping expr).run c = .ok e d) :
    OperandRead (n + 1) .unary c e d := by
  simp only [grouping, bind_advance, bind_ok_iff, expect_ok_iff, pure_ok_iff] at h
  obtain ⟨inner, m, h, _, _, ⟨hr, rfl, rfl⟩, rfl, rfl⟩ := h
  obtain ⟨ts, hts, (hd : Derivable n .equality ts _), -⟩ := he h
  obtain ⟨D, hD, hsep⟩ := hd
  have hc := Cursor.spans_current (c := c) (by simp [hk])
  have hclose := Cursor.spans_peek (c := m) (by simp [hr])
  refine primary_read (hc.trans (hts.trans hclose)) (.grouping hk hr D) ?_ hsep
  simp only [ExprDerivation.depth]
  omega

theorem alternative_sound (he : ReadsExpressions n expr) {other : Option Block}
    (h : (alternative expr).run c = .ok other d) :
    (other = none ∧ d = c) ∨ ∃ b ts, other = some b ∧ c.peek.kind = .elseWord ∧
      c.advance.Spans (c.peek :: ts) d ∧ ∃ D : BlockDerivation ts b, D.depth ≤ n ∧ D.Separated := by
  simp only [alternative, bind_ok_iff] at h
  obtain ⟨accepted, m, haccept, h⟩ := h
  cases accepted with
  | true =>
    obtain ⟨hw, rfl⟩ := accept_true_iff.mp haccept
    simp only [if_true, bind_ok_iff, expect_ok_iff, pure_ok_iff] at h
    obtain ⟨_, _, ⟨hb, rfl, rfl⟩, b, _, hblock, rfl, rfl⟩ := h
    obtain ⟨ts, hts, hD⟩ := block_sound (c := c.advance.advance) he hb hblock
    exact .inr ⟨b, ts, rfl, hw, (Cursor.spans_peek (by simp [hw])).trans hts, hD⟩
  | false =>
    obtain ⟨-, rfl⟩ := accept_false_iff.mp haccept
    simp only [Bool.false_eq_true, if_false, pure_ok_iff] at h
    obtain ⟨rfl, rfl⟩ := h
    exact .inl ⟨rfl, rfl⟩

theorem conditional_sound (he : ReadsExpressions n expr) {e : Expr}
    (hk : c.current.kind = .ifWord) (h : (conditional expr).run c = .ok e d) :
    OperandRead (n + 1) .unary c e d := by
  rw [run_conditional] at h
  simp only [bind_current, bind_advance, bind_ok_iff, expect_ok_iff, pure_ok_iff] at h
  obtain ⟨_, _, ⟨ho, rfl, rfl⟩, condition, m, hcond, _, _, ⟨hr, rfl, rfl⟩, _, _, ⟨hb, rfl, rfl⟩,
    consequence, m', hcons, other, _, hother, rfl, rfl⟩ := h
  obtain ⟨cs, hcs, (hd : Derivable n .equality cs condition), -⟩ := he hcond
  obtain ⟨C, hC, hCsep⟩ := hd
  obtain ⟨bs, hbs, B, hB, hBsep⟩ := block_sound (c := m.advance.advance) he hb hcons
  have hc := Cursor.spans_current (c := c) (by simp [hk])
  have hopen := Cursor.spans_peek (c := c) (by simp [ho])
  have hclose := Cursor.spans_peek (c := m) (by simp [hr])
  have hread := hc.trans (hopen.trans (hcs.trans (hclose.trans hbs)))
  obtain ⟨rfl, rfl⟩ | ⟨alternative, as, rfl, hw, has, A, hA, hAsep⟩ := alternative_sound he hother
  · refine primary_read hread (.conditional hk ho hr C B) ?_ ⟨hCsep, hBsep⟩
    simp only [ExprDerivation.depth]
    omega
  · refine primary_read (by simpa using hread.trans has) (.conditionalElse hk ho hr hw C B A) ?_
      ⟨hCsep, hBsep, hAsep⟩
    simp only [ExprDerivation.depth]
    omega

theorem parameters_sound {names : List Token}
    (h : (commaList (expect .identifier)).run c = .ok names d) :
    ∃ ps closing, closing.kind = .rightParen ∧ c.advance.Spans (ps ++ [closing]) d ∧
      ParametersDerivation ps (names.map .ofToken) := by
  obtain ⟨hr, ⟨rfl, rfl⟩ | ⟨name, names, m, m', rfl, hn, hns, rfl⟩⟩ := commaList_ok h
  · exact ⟨[], c.peek, hr, Cursor.spans_peek (by simp [← Cursor.current_advance, hr]), .nil⟩
  · obtain ⟨hk, rfl, rfl⟩ := expect_ok_iff.mp hn
    have hname := Cursor.spans_peek (c := c) (by simp [hk])
    obtain ⟨ts, hts, hp⟩ := moreParameters_sound hname hk hns
    have hclose := Cursor.spans_peek (c := m') (by simp [← Cursor.current_advance, hr])
    exact ⟨c.peek :: ts, m'.peek, hr, hts.trans hclose, hp⟩

theorem function_sound (he : ReadsExpressions n expr) {e : Expr}
    (hk : c.current.kind = .fnWord) (h : (function expr).run c = .ok e d) :
    OperandRead (n + 1) .unary c e d := by
  simp only [function, bind_current, bind_ok_iff, expect_ok_iff, pure_ok_iff] at h
  obtain ⟨_, _, ⟨ho, rfl, rfl⟩, names, m, hnames, _, _, ⟨hb, rfl, rfl⟩, body, _, hbody, rfl,
    rfl⟩ := h
  obtain ⟨ps, closing, hr, hps, hp⟩ := parameters_sound hnames
  obtain ⟨bs, hbs, B, hB, hBsep⟩ := block_sound (c := m.advance) he hb hbody
  have hc := Cursor.spans_current (c := c) (by simp [hk])
  have hopen := Cursor.spans_peek (c := c) (by simp [ho])
  refine primary_read (by simpa using hc.trans (hopen.trans (hps.trans hbs)))
    (.function hk ho hr hp B) ?_ hBsep
  simp only [ExprDerivation.depth]
  omega

theorem operand_sound (he : ReadsExpressions n expr) {e : Expr}
    (h : (operand expr).run c = .ok e d) : OperandRead (n + 1) .unary c e d := by
  rw [operand, bind_current] at h
  have hone : 1 ≤ n + 1 := by omega
  cases hk : c.current.kind <;>
    simp only [hk, TokenKind.operandForm?, run_failAt, reduceCtorEq] at h
  case identifier =>
    simp only [identifier, bind_current, pure_ok_iff] at h
    obtain ⟨rfl, rfl⟩ := h
    exact primary_read (Cursor.spans_current (by simp [hk])) (.identifier hk) hone trivial
  case integer =>
    rw [integer, bind_current] at h
    split at h
    · rename_i value hv
      obtain ⟨rfl, rfl⟩ := pure_ok_iff.mp h
      obtain ⟨v, rfl, hn⟩ := integerValue?_eq_some hv
      exact primary_read (Cursor.spans_current (by simp [hk])) (.integer hk hn) hone trivial
    · simp at h
  case trueWord =>
    simp only [boolean, bind_current, pure_ok_iff, hk] at h
    obtain ⟨rfl, rfl⟩ := h
    exact primary_read (Cursor.spans_current (by simp [hk])) (.yes hk) hone trivial
  case falseWord =>
    simp only [boolean, bind_current, pure_ok_iff, hk] at h
    obtain ⟨rfl, rfl⟩ := h
    exact primary_read (Cursor.spans_current (by simp [hk])) (.no hk) hone trivial
  case bang | minus => exact unary_sound he (by simp [hk]) h
  case leftParen => exact grouping_sound he hk h
  case ifWord => exact conditional_sound he hk h
  case fnWord => exact function_sound he hk h
  case illegal => simp [illegal, bind_current] at h

/-- With nesting `n`, only expressions of the grammar are read that are no deeper than `n`. -/
theorem expressionWithin_sound (n : Nat) : ReadsExpressions n (expressionWithin n) := by
  induction n with
  | zero =>
    intro power c e d h
    simp [expressionWithin, bind_current] at h
  | succ n ih =>
    intro power c e d h
    rw [expressionWithin, bind_ok_iff] at h
    obtain ⟨left, m, hleft, h⟩ := h
    obtain ⟨fs, l, hs, hd, hp, hl⟩ := operand_sound ih hleft
    -- What the loop keeps: its left side is of the level of `power`, or of a tighter one.
    have hinv : OperandRead (n + 1) power.level c left m :=
      ⟨fs, l, hs, hd, hp, Nat.le_trans power.rank_level_le_unary hl⟩
    have hstep : ∀ left m o e m', OperandRead (n + 1) power.level c left m →
        m.peek.kind.operator? = some o → power < o.power →
        (operation (expressionWithin n) left o).run m.advance = .ok e m' →
        OperandRead (n + 1) power.level c e m' := by
      intro left m o e m' hi ho hlt h
      obtain ⟨l, hl, ts, k, hs, hd, hp, hk⟩ := operation_sound ih hi ho h
      exact ⟨ts, k, hs, hd, hp, Nat.le_trans (Level.rank_level_le (hl ▸ hlt)) hk⟩
    obtain ⟨⟨ts, k, hs, hd, -, hk⟩, hend⟩ := operations_ok hstep hinv h
    exact ⟨ts, hs, hd.looser hk, hend⟩

end ScriptReader.Parser
