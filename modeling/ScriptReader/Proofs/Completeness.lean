import ScriptReader.Proofs.Capped
import ScriptReader.Proofs.Grammar.Precedence
import ScriptReader.Proofs.Grammar.Shape

/-! Every phrase of the grammar is read as what it stands for, as long as the
tokens behind it leave it alone. -/

namespace ScriptReader

theorem BlockDerivation.peek_kind {bs : List Token} {b : Block} {c d : Cursor}
    (D : BlockDerivation bs b) (h : c.advance.Spans bs d) : c.peek.kind = .leftBrace := by
  obtain ⟨t, us, rfl, ht⟩ := D.head
  rw [← Cursor.current_advance, h.current, ht]

namespace Parser

/-- Wherever `ts` stands, an expression up to operators that bind no tighter than `power` is `e`
and what follows makes of it. -/
def Begins (l : Level) (ts : List Token) (e : Expr) (xs : List Start) : Prop :=
  ∀ ⦃n c d power⦄, c.Spans ts d → d.peek.kind.power ≤ l.power → d.peek.kind ≠ .elseWord →
    power.level.rank ≤ l.rank → power < .call →
    Capped (n + 1) xs d ((operations (expressionWithin n) power e).run d)
      ((expressionWithin (n + 1) power).run c)

def ReadsExpr (l : Level) (ts : List Token) (e : Expr) (xs : List Start) : Prop :=
  ∀ ⦃n c d power⦄, c.Spans ts d → d.peek.kind.power ≤ power → d.peek.kind ≠ .elseWord →
    power.level.rank ≤ l.rank → power < .call →
    Capped n xs d (.ok e d) ((expressionWithin n power).run c)

/-- What follows on a statement leaves it alone. -/
def Closed (ts : List Token) (d : Cursor) : Prop :=
  (∃ t, ts.getLast? = some t ∧ t.kind = .semicolon) ∨
    ¬d.peek.kind.Continues ∧ d.peek.kind ≠ .elseWord ∧ d.peek.kind ≠ .semicolon

def ReadsStmt (ts : List Token) (s : Stmt) (xs : List Start) : Prop :=
  ∀ ⦃n c d⦄, c.Spans ts d → Closed ts d →
    Capped n xs d (.ok s d) ((statement (expressionWithin n)).run c)

def ReadsStmts (ts : List Token) (ss : List Stmt) (xs : List Start) : Prop :=
  ∀ ⦃n c d⦄, c.ahead = ts ++ d.ahead → d.stop = c.stop → d.current.kind = .rightBrace →
    Capped n xs d (.ok ss d)
      ((many (blockItem (expressionWithin n)) (blockItem_advances _)).run c)

def ReadsBlock (ts : List Token) (b : Block) (xs : List Start) : Prop :=
  ∀ ⦃n c d⦄, c.Spans ts d → Capped n xs d (.ok b d) ((block (expressionWithin n)).run c)

/-- Arguments are read from the token in front of them, up to the closing parenthesis. -/
def ReadsArguments (ts : List Token) (es : List Expr) (xs : List Start) : Prop :=
  ∀ ⦃n c d⦄, c.advance.Spans ts d → d.peek.kind = .rightParen →
    Capped n xs d (.ok es d) ((commaItems (argument (expressionWithin n))).run c)

variable {l : Level} {ts : List Token} {e : Expr} {xs : List Start}

theorem begins_of_operand
    (h : ∀ ⦃n c d⦄, c.Spans ts d → d.peek.kind.power ≤ l.power → d.peek.kind ≠ .elseWord →
      Capped (n + 1) xs d (.ok e d) ((operand (expressionWithin n)).run c)) :
    Begins l ts e xs := by
  intro n c d power hs hp helse _ _
  exact (h hs hp helse).bind_eq (.refl d) rfl

theorem Begins.reads (h : Begins l ts e xs) (hxs : ∃ t us ys, ts = t :: us ∧ xs = ⟨1, t⟩ :: ys) :
    ReadsExpr l ts e xs := by
  intro n c d power hs hp helse hl hc
  cases n with
  | zero =>
    obtain ⟨t, us, ys, rfl, rfl⟩ := hxs
    exact capped_expressionWithin_zero hs
  | succ n =>
    have hb := h (n := n) hs (Nat.le_trans hp (Level.le_power hl hc)) helse hl hc
    rwa [run_operations_of_power_le _ _ hp] at hb

theorem Begins.looser {l' : Level} (hl : l.next? = some l') (h : Begins l' ts e xs) :
    Begins l ts e xs := by
  intro n c d power hs hp helse hr hc
  have hrank := Level.rank_of_next? hl
  exact h hs (Nat.le_trans hp (Level.power_le_of_next? hl)) helse (by omega) hc

/-! An expression in front of tokens that end any. -/

theorem ReadsExpr.lowest (h : ReadsExpr .equality ts e xs) {n : Nat} {c d : Cursor}
    (hs : c.Spans ts d) (hp : ¬d.peek.kind.Continues) (helse : d.peek.kind ≠ .elseWord) :
    Capped n xs d (.ok e d) ((expressionWithin n .lowest).run c) :=
  h hs (TokenKind.power_eq_lowest_iff.mpr hp) helse (Nat.le_refl _) (by decide)

/-! Operands in one piece. -/

theorem begins_single {t : Token}
    (h : ∀ ⦃n c⦄, c.current = t → (operand (expressionWithin n)).run c = .ok e c) :
    Begins l [t] e [⟨1, t⟩] := by
  refine begins_of_operand fun n c d hs _ _ => ?_
  obtain ⟨rfl, -⟩ := Cursor.spans_singleton.mp hs
  exact (capped_of_eq (h hs.current)).whole

theorem begins_identifier {t : Token} (ht : t.kind = .identifier) :
    Begins .primary [t] (.identifier (.ofToken t)) [⟨1, t⟩] := by
  refine begins_single fun n c hc => ?_
  rw [operand, bind_current, hc, ht]
  change Outcome.ok (Expr.identifier (.ofToken c.current)) c = _
  rw [hc]

theorem integerValue?_of_numeral {text : String} {value : Nat} (h : Numeral text value) :
    integerValue? text = some (value : Int) := by
  have hle : Text.digitsValue text.toList ≤ maxInteger := by
    rw [h.value_eq]
    exact h.le
  have hcond : text.toList ≠ [] ∧ text.toList.all Char.isDigit = true ∧
      Text.digitsValue text.toList ≤ maxInteger :=
    ⟨h.ne_nil, List.all_eq_true.mpr h.isDigit, hle⟩
  rw [integerValue?, if_pos hcond, h.value_eq]

theorem begins_integer {t : Token} {value : Nat} (ht : t.kind = .integer)
    (hv : Numeral t.text value) : Begins .primary [t] (.integer t value) [⟨1, t⟩] := by
  refine begins_single fun n c hc => ?_
  rw [operand, bind_current, hc, ht]
  change integer.run c = _
  rw [integer, bind_current, hc, integerValue?_of_numeral hv]
  rfl

theorem begins_boolean {t : Token} (value : Bool)
    (ht : t.kind = if value then .trueWord else .falseWord) :
    Begins .primary [t] (.boolean t value) [⟨1, t⟩] := by
  refine begins_single fun n c hc => ?_
  rw [operand, bind_current, hc, ht]
  cases value <;> simp only [if_true, if_false, Bool.false_eq_true, TokenKind.operandForm?] <;>
    rw [boolean, bind_current, hc, ht] <;> rfl

/-! Operands with expressions within. -/

theorem begins_unary {op : Token} (ho : op.kind ∈ [.bang, .minus]) (hne : ts ≠ [])
    (h : ReadsExpr .unary ts e xs) :
    Begins .unary (op :: ts) (.unary op op.text e) (⟨1, op⟩ :: xs.map .inner) := by
  refine begins_of_operand fun n c d hs hp helse => ?_
  obtain ⟨-, hs'⟩ := (Cursor.spans_cons hne).mp hs
  have hop : (operand (expressionWithin n)).run c = (unary (expressionWithin n)).run c := by
    rw [operand, bind_current, hs.current]
    rcases List.mem_cons.mp ho with hk | hk
    · rw [hk]
      rfl
    · rw [List.mem_singleton.mp hk]
      rfl
  rw [hop, unary, bind_current, bind_advance, hs.current]
  have hright := h (n := n) hs' hp helse (Nat.le_refl _) (by decide)
  exact (hright.inner.bind_eq (.refl d) rfl).whole

theorem begins_grouping {opening closing : Token} (ho : opening.kind = .leftParen)
    (hc : closing.kind = .rightParen) (hne : ts ≠ []) (h : ReadsExpr .equality ts e xs) :
    Begins .primary (opening :: (ts ++ [closing])) e (⟨1, opening⟩ :: xs.map .inner) := by
  refine begins_of_operand fun n c d hs _ _ => ?_
  obtain ⟨-, hs'⟩ := (Cursor.spans_cons (by simp)).mp hs
  obtain ⟨m, hm, hpeek, rfl⟩ := hs'.exists_concat hne
  rw [operand, bind_current, hs.current, ho]
  change Capped _ _ _ _ ((grouping (expressionWithin n)).run c)
  rw [grouping, bind_advance]
  have hinner := h.lowest (n := n) hm (by rw [hpeek, hc]; decide) (by simp [hpeek, hc])
  refine (hinner.inner.bind_eq (Cursor.reaches_advance m) ?_).whole
  rw [run_bind_of_ok (expect_ok_iff.mpr ⟨by rw [hpeek, hc], rfl, rfl⟩), run_pure]

theorem capped_conditional {word opening closing : Token} {bs : List Token} {ys zs : List Start}
    {consequence : Block} {other : Option Block} {n : Nat} {c m d : Cursor}
    (hw : word.kind = .ifWord) (ho : opening.kind = .leftParen) (hc : closing.kind = .rightParen)
    (hne : ts ≠ []) (h : ReadsExpr .equality ts e xs) (db : BlockDerivation bs consequence)
    (hb : ReadsBlock bs consequence ys)
    (hs : c.Spans (word :: opening :: (ts ++ closing :: bs)) m) (hd : m.Reaches d)
    (hother : Capped n zs d (.ok other d) ((alternative (expressionWithin n)).run m)) :
    Capped (n + 1) (⟨1, word⟩ :: (xs ++ (ys ++ zs)).map .inner) d
      (.ok (.conditional word e consequence other) d) ((operand (expressionWithin n)).run c) := by
  have hopen := hs.peek
  obtain ⟨-, hs'⟩ := (Cursor.spans_cons (by simp)).mp hs
  obtain ⟨-, hs''⟩ := (Cursor.spans_cons (by simp)).mp hs'
  obtain ⟨k, hk, hrest⟩ := (Cursor.spans_append hne (by simp)).mp hs''
  have hclose : k.peek = closing := hrest.current
  obtain ⟨-, hblock⟩ := (Cursor.spans_cons db.ne_nil).mp hrest
  have hbrace : k.advance.peek.kind = .leftBrace := db.peek_kind hblock
  have hk' := hblock.reaches.trans hd
  have hcond := h.lowest (n := n) hk (by rw [hclose, hc]; decide) (by simp [hclose, hc])
  rw [operand, bind_current, hs.current, hw]
  change Capped _ _ _ _ ((conditional (expressionWithin n)).run c)
  rw [run_conditional, bind_current, bind_expect (by rw [hopen, ho]), bind_advance, hs.current]
  have hreach := (k.reaches_advance.trans (Cursor.reaches_advance _)).trans hk'
  refine (hcond.bind hreach ?_).inner.whole
  rw [bind_expect (by rw [hclose, hc]), bind_expect hbrace]
  exact (hb hblock).bind hd (hother.bind_eq (.refl d) rfl)

theorem begins_conditional {word opening closing : Token} {bs : List Token} {ys : List Start}
    {consequence : Block} (hw : word.kind = .ifWord) (ho : opening.kind = .leftParen)
    (hc : closing.kind = .rightParen) (hne : ts ≠ []) (h : ReadsExpr .equality ts e xs)
    (db : BlockDerivation bs consequence) (hb : ReadsBlock bs consequence ys) :
    Begins .primary (word :: opening :: (ts ++ closing :: bs))
      (.conditional word e consequence none) (⟨1, word⟩ :: (xs ++ ys).map .inner) := by
  refine begins_of_operand fun n c d hs _ helse => ?_
  have hother : (alternative (expressionWithin n)).run d = .ok none d := by
    rw [alternative, run_bind_of_ok (accept_false_iff.mpr ⟨helse, rfl⟩)]
    rfl
  have hcond := capped_conditional hw ho hc hne h db hb hs (.refl d) (capped_of_eq hother)
  rwa [List.append_nil] at hcond

theorem begins_conditionalElse {word opening closing other : Token} {bs as : List Token}
    {ys zs : List Start} {consequence alternative : Block} (hw : word.kind = .ifWord)
    (ho : opening.kind = .leftParen) (hc : closing.kind = .rightParen)
    (he : other.kind = .elseWord) (hne : ts ≠ []) (h : ReadsExpr .equality ts e xs)
    (db : BlockDerivation bs consequence) (hb : ReadsBlock bs consequence ys)
    (da : BlockDerivation as alternative) (ha : ReadsBlock as alternative zs) :
    Begins .primary (word :: opening :: (ts ++ closing :: (bs ++ other :: as)))
      (.conditional word e consequence (some alternative))
      (⟨1, word⟩ :: (xs ++ (ys ++ zs)).map .inner) := by
  refine begins_of_operand fun n c d hs _ _ => ?_
  rw [show word :: opening :: (ts ++ closing :: (bs ++ other :: as)) =
    (word :: opening :: (ts ++ closing :: bs)) ++ other :: as by simp] at hs
  obtain ⟨m, hm, hrest⟩ := (Cursor.spans_append (by simp) (by simp)).mp hs
  have helse : m.peek = other := hrest.current
  obtain ⟨-, hblock⟩ := (Cursor.spans_cons da.ne_nil).mp hrest
  have hbrace : m.advance.peek.kind = .leftBrace := da.peek_kind hblock
  have hreach := (m.reaches_advance.trans (Cursor.reaches_advance _)).trans hblock.reaches
  refine capped_conditional hw ho hc hne h db hb hm hreach ?_
  rw [Parser.alternative, run_bind_of_ok (accept_true_iff.mpr ⟨by rw [helse, he], rfl⟩)]
  simp only [if_true]
  rw [bind_expect hbrace]
  exact (ha hblock).bind_eq (.refl d) rfl

theorem commaItems_identifier {ns : List Identifier} {c d : Cursor}
    (h : ParametersDerivation ts ns) (hne : ts ≠ []) (hs : c.advance.Spans ts d)
    (hd : d.peek.kind = .rightParen) :
    ∃ names, (commaItems (expect .identifier)).run c = .ok names d ∧ names.map .ofToken = ns := by
  induction h generalizing c with
  | nil => contradiction
  | @one t ht =>
    have hpeek : c.peek = t := hs.current
    obtain ⟨rfl, -⟩ := Cursor.spans_singleton.mp hs
    refine ⟨[t], ?_, rfl⟩
    rw [commaItems, bind_expect (by rw [hpeek, ht]), run_bind, run_many_commaItem,
      if_neg (by simp [hd]), hpeek]
    rfl
  | @more t comma next ts ns ht hc _ ih =>
    have hpeek : c.peek = t := hs.current
    have hcomma : c.advance.peek = comma := hs.peek
    obtain ⟨-, hs'⟩ := (Cursor.spans_cons (by simp)).mp hs
    obtain ⟨-, hs''⟩ := (Cursor.spans_cons (by simp)).mp hs'
    obtain ⟨names, hn, rfl⟩ := ih (by simp) hs''
    refine ⟨t :: names, ?_, rfl⟩
    rw [commaItems, bind_expect (by rw [hpeek, ht]), run_bind, run_many_commaItem,
      if_pos (by rw [hcomma, hc]), hn, hpeek]
    rfl

theorem commaList_identifier {closing : Token} {ps : List Token} {ns : List Identifier}
    {c d : Cursor} (h : ParametersDerivation ps ns) (hc : closing.kind = .rightParen)
    (hs : c.advance.Spans (ps ++ [closing]) d) :
    ∃ names, (commaList (expect .identifier)).run c = .ok names d ∧ names.map .ofToken = ns := by
  rw [run_commaList]
  by_cases hne : ps = []
  · subst hne
    cases h
    have hpeek : c.peek = closing := hs.current
    obtain ⟨rfl, -⟩ := Cursor.spans_singleton.mp hs
    exact ⟨[], if_pos (by rw [hpeek, hc]), rfl⟩
  · have hfirst : c.peek.kind ≠ .rightParen := by
      cases h with
      | nil => contradiction
      | one ht | more ht => rw [← Cursor.current_advance, hs.current, ht]; decide
    obtain ⟨m, hm, hpeek, rfl⟩ := hs.exists_concat hne
    obtain ⟨names, hn, hmap⟩ := commaItems_identifier h hne hm (by rw [hpeek, hc])
    refine ⟨names, ?_, hmap⟩
    rw [if_neg hfirst, run_bind_of_ok hn, bind_expect (by rw [hpeek, hc]), run_pure]

theorem begins_function {word opening closing : Token} {ps bs : List Token}
    {parameters : List Identifier} {body : Block} (hw : word.kind = .fnWord)
    (ho : opening.kind = .leftParen) (hc : closing.kind = .rightParen)
    (hp : ParametersDerivation ps parameters) (db : BlockDerivation bs body)
    (hb : ReadsBlock bs body xs) :
    Begins .primary (word :: opening :: (ps ++ closing :: bs)) (.function word parameters body)
      (⟨1, word⟩ :: xs.map .inner) := by
  refine begins_of_operand fun n c d hs _ _ => ?_
  have hopen := hs.peek
  obtain ⟨-, hs'⟩ := (Cursor.spans_cons (by simp)).mp hs
  rw [show opening :: (ps ++ closing :: bs) = opening :: (ps ++ [closing]) ++ bs by simp] at hs'
  obtain ⟨m, hm, hblock⟩ := (Cursor.spans_append (by simp) db.ne_nil).mp hs'
  obtain ⟨-, hparams⟩ := (Cursor.spans_cons (by simp)).mp hm
  obtain ⟨names, hn, rfl⟩ := commaList_identifier hp hc hparams
  have hbrace : m.peek.kind = .leftBrace := db.peek_kind hblock
  rw [operand, bind_current, hs.current, hw]
  change Capped _ _ _ _ ((function (expressionWithin n)).run c)
  rw [function, bind_current, bind_expect (by rw [hopen, ho]), run_bind_of_ok hn,
    bind_expect hbrace, hs.current]
  exact ((hb hblock).inner.bind_eq (.refl d) rfl).whole

/-! Operators. What they make of a left side is that side for the operators behind them. -/

theorem begins_operation {op : Token} {o : Operator} {ls rs : List Token} {left : Expr}
    {ys : List Start} (hl : l ≠ .unary) (ho : op.kind.operator? = some o)
    (hpower : o.power = l.power) (hls : ls ≠ []) (hleft : Begins l ls left xs)
    (h : ∀ ⦃n c d⦄, c.Spans (op :: rs) d → d.peek.kind.power ≤ l.power →
      d.peek.kind ≠ .elseWord →
      Capped (n + 1) ys d (.ok e d) ((operation (expressionWithin n) left o).run c)) :
    Begins l (ls ++ op :: rs) e (xs ++ ys) := by
  intro n c d power hs hp helse hr hcall
  obtain ⟨m, hm, hrest⟩ := (Cursor.spans_append hls (by simp)).mp hs
  have hpeek : m.peek = op := hrest.current
  have hmp : m.peek.kind.power = l.power := by
    rw [hpeek, TokenKind.power, ho, Option.elim_some, hpower]
  have hmelse : m.peek.kind ≠ .elseWord := by
    rw [hpeek]
    intro he
    simp [he, TokenKind.operator?] at ho
  -- The loop gets as far as `op` with `left`, and `op` is one that it takes.
  have hlt : power < o.power := hpower ▸ Level.lt_power hl hr hcall
  have hbegin := hleft (n := n) hm (Nat.le_of_eq (congrArg _ hmp)) hmelse hr hcall
  refine hbegin.trans ((Cursor.reaches_advance m).trans hrest.reaches) ?_
  rw [run_operations_of_lt (expressionWithin n) left (c := m) (hpeek ▸ ho) hlt]
  exact (h hrest hp helse).bind_eq (.refl d) rfl

theorem begins_binary {l' : Level} {op : Token} {ls rs : List Token} {left right : Expr}
    {ys : List Start} (hl : l.next? = some l') (ho : op.kind ∈ l.operators)
    (hls : ls ≠ []) (hleft : Begins l ls left xs) (hrs : rs ≠ [])
    (hright : ReadsExpr l' rs right ys) :
    Begins l (ls ++ op :: rs) (.binary op left op.text right) (xs ++ ys.map .inner) := by
  have hlevel : l.power.level = l' := TokenKind.level_power_of_mem ho hl
  have hne : l ≠ .unary := by
    rintro rfl
    contradiction
  have hcap : l.power < .call := by
    cases l <;> first | decide | contradiction
  refine begins_operation hne (TokenKind.operator?_of_mem ho) rfl hls hleft
    fun n c d hs hp helse => ?_
  obtain ⟨-, hs'⟩ := (Cursor.spans_cons hrs).mp hs
  change Capped _ _ _ _ ((binary _ _ _).run _)
  rw [binary, bind_current, bind_advance, hs.current]
  have hread := hright (n := n) hs' hp helse (Nat.le_of_eq (congrArg _ hlevel)) hcap
  exact hread.inner.bind_eq (.refl d) rfl

theorem begins_of_commaList {opening closing : Token} {fs rs : List Token} {callee : Expr}
    {args : List Expr} {ys : List Start} (ho : opening.kind = .leftParen) (hfs : fs ≠ [])
    (hcallee : Begins .call fs callee xs)
    (h : ∀ ⦃n c d⦄, c.Spans (opening :: (rs ++ [closing])) d →
      Capped n ys d (.ok args d) ((commaList (argument (expressionWithin n))).run c)) :
    Begins .call (fs ++ opening :: (rs ++ [closing])) (.call opening callee args)
      (xs ++ ys.map .inner) := by
  refine begins_operation (o := ⟨.call, .call⟩) (by decide) (by rw [ho]; rfl) rfl hfs hcallee
    fun n c d hs _ _ => ?_
  change Capped _ _ _ _ ((call _ _).run _)
  rw [call, bind_current, hs.current]
  exact (h hs).inner.bind_eq (.refl d) rfl

theorem begins_call {opening closing : Token} {fs : List Token} {callee : Expr}
    (ho : opening.kind = .leftParen) (hc : closing.kind = .rightParen) (hfs : fs ≠ [])
    (hcallee : Begins .call fs callee xs) :
    Begins .call (fs ++ [opening, closing]) (.call opening callee []) xs := by
  have hlist : ∀ ⦃n c d⦄, c.Spans (opening :: ([] ++ [closing])) d →
      Capped n [] d (.ok [] d) ((commaList (argument (expressionWithin n))).run c) := by
    intro n c d hs
    have hpeek := hs.peek
    obtain ⟨-, hs'⟩ := (Cursor.spans_cons (by simp)).mp hs
    obtain ⟨rfl, -⟩ := Cursor.spans_singleton.mp hs'
    exact capped_of_eq (by rw [run_commaList, if_pos (by rw [hpeek, hc])])
  have hbegin := begins_of_commaList ho hfs hcallee hlist
  rwa [List.map_nil, List.append_nil] at hbegin

theorem begins_callWith {opening closing : Token} {fs : List Token} {callee : Expr}
    {args : List Expr} {ys : List Start} (ho : opening.kind = .leftParen)
    (hc : closing.kind = .rightParen) (hfs : fs ≠ []) (hcallee : Begins .call fs callee xs)
    (as : ArgumentsDerivation ts args) (ha : ReadsArguments ts args ys) :
    Begins .call (fs ++ opening :: (ts ++ [closing])) (.call opening callee args)
      (xs ++ ys.map .inner) := by
  refine begins_of_commaList ho hfs hcallee fun n c d hs => ?_
  obtain ⟨t, us, rfl, ht⟩ := as.head
  have hfirst : c.peek.kind ≠ .rightParen := by
    rw [Cursor.Spans.peek (u := t) hs]
    rintro hk
    simp [hk, TokenKind.expressionStarts] at ht
  obtain ⟨-, hs'⟩ := (Cursor.spans_cons (by simp)).mp hs
  obtain ⟨m, hm, hpeek, rfl⟩ := hs'.exists_concat (by simp)
  rw [run_commaList, if_neg hfirst]
  refine (ha hm (by rw [hpeek, hc])).bind_eq (Cursor.reaches_advance m) ?_
  rw [bind_expect (by rw [hpeek, hc]), run_pure]

theorem readsArguments_one (h : ReadsExpr .equality ts e xs) : ReadsArguments ts [e] xs := by
  intro n c d hs hd
  have hread := h.lowest (n := n) hs (by rw [hd]; decide) (by simp [hd])
  rw [← run_argument] at hread
  refine hread.bind_eq (.refl d) ?_
  rw [run_bind, run_many_commaItem, if_neg (by simp [hd])]
  rfl

theorem readsArguments_more {comma : Token} {us : List Token} {es : List Expr} {ys : List Start}
    (hc : comma.kind = .comma) (hne : ts ≠ []) (h : ReadsExpr .equality ts e xs) (hus : us ≠ [])
    (hes : ReadsArguments us es ys) : ReadsArguments (ts ++ comma :: us) (e :: es) (xs ++ ys) := by
  intro n c d hs hd
  obtain ⟨m, hm, hrest⟩ := (Cursor.spans_append hne (by simp)).mp hs
  have hpeek : m.peek = comma := hrest.current
  obtain ⟨-, hrest'⟩ := (Cursor.spans_cons hus).mp hrest
  have hread := h.lowest (n := n) hm (by rw [hpeek, hc]; decide) (by simp [hpeek, hc])
  have hothers := hes (n := n) hrest' hd
  rw [← run_argument] at hread
  refine hread.bind ((Cursor.reaches_advance m).trans hrest.reaches) ?_
  rw [← List.append_nil ys]
  refine Capped.bind (m := d) ?_ (.refl d) (capped_of_eq (run_pure _ d))
  rwa [run_many_commaItem, if_pos (by rw [hpeek, hc])]

/-! Statements. -/

theorem Closed.of_append (us : List Token) {d : Cursor} (h : Closed (us ++ ts) d) (hne : ts ≠ []) :
    Closed ts d := by
  rcases h with ⟨t, ht, hk⟩ | h
  · exact .inl ⟨t, by rwa [List.getLast?_append_of_ne_nil _ hne] at ht, hk⟩
  · exact .inr h

theorem capped_value {α : Type} {ends : List Token} {n : Nat} {c d : Cursor} (f : Expr → α)
    (D : ExprDerivation .equality ts e) (h : ReadsExpr .equality ts e xs) (he : Terminator ends)
    (hs : c.Spans (ts ++ ends) d) (hd : Closed (ts ++ ends) d) :
    Capped n xs d (.ok (f e) d)
      ((do
        let value ← expressionWithin n .lowest
        let _ ← accept .semicolon
        pure (f value)).run c) := by
  cases he with
  | none =>
    rw [List.append_nil] at hs hd
    have hend : ¬∃ t, ts.getLast? = some t ∧ t.kind = .semicolon := by
      rintro ⟨t, ht, hk⟩
      obtain ⟨us, u, rfl, hu⟩ := D.last
      obtain rfl : u = t := by simpa using ht
      simp [hk, TokenKind.expressionEnds] at hu
    obtain ⟨hp, helse, hsemi⟩ := hd.resolve_left hend
    refine (h.lowest hs hp helse).bind_eq (.refl d) ?_
    rw [run_bind_of_ok (accept_false_iff.mpr ⟨hsemi, rfl⟩), run_pure]
  | @semicolon t ht =>
    obtain ⟨m, hm, hpeek, rfl⟩ := hs.exists_concat D.ne_nil
    refine (h.lowest hm (by rw [hpeek, ht]; decide) (by simp [hpeek, ht])).bind_eq
      (Cursor.reaches_advance m) ?_
    rw [run_bind_of_ok (accept_true_iff.mpr ⟨by rw [hpeek, ht], rfl⟩), run_pure]

theorem readsStmt_define {word name assign : Token} {ends : List Token} (hw : word.kind = .letWord)
    (hn : name.kind = .identifier) (ha : assign.kind = .assign)
    (D : ExprDerivation .equality ts e) (h : ReadsExpr .equality ts e xs) (he : Terminator ends) :
    ReadsStmt (word :: name :: assign :: (ts ++ ends)) (.define word (.ofToken name) e) xs := by
  intro n c d hs hd
  have hne : ts ++ ends ≠ [] := by simp [D.ne_nil]
  have hname := hs.peek
  obtain ⟨-, hs'⟩ := (Cursor.spans_cons (by simp)).mp hs
  have hassign := hs'.peek
  obtain ⟨-, hs''⟩ := (Cursor.spans_cons (by simp)).mp hs'
  obtain ⟨-, hvalue⟩ := (Cursor.spans_cons hne).mp hs''
  rw [statement, bind_current, hs.current, hw]
  change Capped _ _ _ _ ((define (expressionWithin n)).run c)
  rw [define, bind_current, bind_expect (by rw [hname, hn]), bind_expect (by rw [hassign, ha]),
    bind_advance, hname, hs.current]
  exact capped_value _ D h he hvalue (hd.of_append [word, name, assign] hne)

theorem readsStmt_returning {word : Token} {ends : List Token} (hw : word.kind = .returnWord)
    (D : ExprDerivation .equality ts e) (h : ReadsExpr .equality ts e xs) (he : Terminator ends) :
    ReadsStmt (word :: (ts ++ ends)) (.returning word e) xs := by
  intro n c d hs hd
  have hne : ts ++ ends ≠ [] := by simp [D.ne_nil]
  obtain ⟨-, hvalue⟩ := (Cursor.spans_cons hne).mp hs
  rw [statement, bind_current, hs.current, hw]
  change Capped _ _ _ _ ((returning (expressionWithin n)).run c)
  rw [returning, bind_current, bind_advance, hs.current]
  exact capped_value _ D h he hvalue (hd.of_append [word] hne)

theorem readsStmt_expression {first : Token} {ends : List Token}
    (D : ExprDerivation .equality (first :: ts) e) (h : ReadsExpr .equality (first :: ts) e xs)
    (he : Terminator ends) : ReadsStmt (first :: (ts ++ ends)) (.expression first e) xs := by
  intro n c d hs hd
  have hstmt : (statement (expressionWithin n)).run c =
      (expressionStatement (expressionWithin n)).run c := by
    obtain ⟨t, us, ht, hk⟩ := D.head
    obtain ⟨rfl, -⟩ := List.cons.inj ht
    rw [statement, bind_current, hs.current]
    split
    · rename_i hlet
      simp [hlet, TokenKind.expressionStarts] at hk
    · rename_i hret
      simp [hret, TokenKind.expressionStarts] at hk
    · rfl
  rw [hstmt, expressionStatement, bind_current, hs.current]
  exact capped_value _ D h he hs hd

/-! Blocks. -/

theorem readsStmts_nil : ReadsStmts [] [] [] := by
  intro n c d ha hstop hk
  obtain rfl : c = d := by
    obtain ⟨cs, s⟩ := c
    obtain ⟨ds, s'⟩ := d
    simp_all
  exact capped_of_eq (many_nil_iff.mpr (blockItem_none_iff.mpr ⟨hk, rfl⟩))

theorem capped_blockItem {s : Stmt} {n : Nat} {c d : Cursor} (D : StmtDerivation ts s)
    (h : ReadsStmt ts s xs) (hs : c.Spans ts d) (hd : Closed ts d) :
    Capped n xs d.advance (.ok (some s) d.advance)
      ((blockItem (expressionWithin n)).run c) := by
  obtain ⟨t, us, rfl, ht⟩ := D.head
  have hbrace : t.kind ≠ .rightBrace := by
    rintro hk
    simp [hk, TokenKind.expressionStarts] at ht
  have heof : t.kind ≠ .eof := by
    rintro hk
    simp [hk, TokenKind.expressionStarts] at ht
  rw [blockItem, bind_current, hs.current, if_neg hbrace, if_neg heof]
  exact (h hs hd).bind_eq (Cursor.reaches_advance d) rfl

/-- The token behind a statement is the first of the next one, a closing brace or the end. -/
theorem closed_of_apart {us : List Token} {ss : List Stmt} {c d : Cursor}
    (D : StmtsDerivation us ss) (h : Apart ts us) (hc : c.advance = ⟨us ++ d.ahead, d.stop⟩)
    (hd : d.current.kind ∈ [.rightBrace, .eof]) : Closed ts c := by
  refine h.imp_right fun h => ?_
  cases D with
  | nil =>
    have hpeek : c.peek = d.current := congrArg Cursor.current hc
    rw [hpeek]
    rcases List.mem_cons.mp hd with hk | hk
    · rw [hk]
      decide
    · rw [List.mem_singleton.mp hk]
      decide
  | cons D DS =>
    obtain ⟨t, us, rfl, ht⟩ := D.head
    have hpeek : c.peek = t := congrArg Cursor.current hc
    rw [hpeek]
    refine ⟨h t rfl, ?_, ?_⟩ <;> rintro hk <;> simp [hk, TokenKind.expressionStarts] at ht

theorem readsStmts_cons {us : List Token} {s : Stmt} {ss : List Stmt} {ys : List Start}
    (D : StmtDerivation ts s) (h : ReadsStmt ts s xs) (DS : StmtsDerivation us ss)
    (hs : ReadsStmts us ss ys) (hap : Apart ts us) :
    ReadsStmts (ts ++ us) (s :: ss) (xs ++ ys) := by
  intro n c d ha hstop hk
  rw [List.append_assoc] at ha
  obtain ⟨m, hm, hadv⟩ := Cursor.exists_spans ha D.ne_nil
  have hrest : m.advance.ahead = us ++ d.ahead := congrArg Cursor.ahead hadv
  have hclosed := closed_of_apart DS hap (hadv.trans (by rw [hstop])) (by simp [hk])
  have hreach : m.advance.Reaches d := ⟨⟨us, hrest.symm⟩, hstop.trans hm.stop.symm⟩
  have hitem := capped_blockItem (n := n) D h hm hclosed
  rw [run_many]
  refine hitem.bind hreach ?_
  exact (hs hrest (hstop.trans hm.stop.symm) hk).bind_eq (.refl d) rfl

theorem readsBlock_braces {opening closing : Token} {ss : List Stmt}
    (hc : closing.kind = .rightBrace) (h : ReadsStmts ts ss xs) :
    ReadsBlock (opening :: (ts ++ [closing])) ⟨opening, ss⟩ xs := by
  intro n c d hs
  obtain ⟨-, hs'⟩ := (Cursor.spans_cons (by simp)).mp hs
  have hcur : d.ahead.head? = some closing := by simp [← hs'.last]
  have ha : c.advance.ahead = ts ++ d.ahead := by
    rw [hs'.ahead, List.append_assoc, List.singleton_append, List.cons_head?_tail hcur]
  rw [block, bind_current, bind_advance, hs.current]
  exact (h ha hs'.stop (by rw [Cursor.current_of_head? hcur, hc])).bind_eq (.refl d) rfl

end Parser

open ScriptReader.Parser

/-! Phrases are read as what they stand for. -/

mutual

theorem ExprDerivation.begins {l : Level} {ts : List Token} {e : Expr} :
    ∀ D : ExprDerivation l ts e, D.Separated → Begins l ts e D.starts
  | .tighter hl D, h => (D.begins h).looser hl
  | .binary hl ho DL DR, h =>
    begins_binary hl ho DL.ne_nil (DL.begins h.1) DR.ne_nil ((DR.begins h.2).reads DR.starts_head)
  | .unary ho D, h => begins_unary ho D.ne_nil ((D.begins h).reads D.starts_head)
  | .call ho hc D, h => begins_call ho hc D.ne_nil (D.begins h)
  | .callWith ho hc D AS, h => begins_callWith ho hc D.ne_nil (D.begins h.1) AS (AS.reads h.2)
  | .identifier ht, _ => begins_identifier ht
  | .integer ht hv, _ => begins_integer ht hv
  | .yes ht, _ => begins_boolean true ht
  | .no ht, _ => begins_boolean false ht
  | .grouping ho hc D, h => begins_grouping ho hc D.ne_nil ((D.begins h).reads D.starts_head)
  | .conditional hw ho hc DC DB, h =>
    begins_conditional hw ho hc DC.ne_nil ((DC.begins h.1).reads DC.starts_head) DB (DB.reads h.2)
  | .conditionalElse hw ho hc he DC DB DA, h =>
    begins_conditionalElse hw ho hc he DC.ne_nil ((DC.begins h.1).reads DC.starts_head) DB
      (DB.reads h.2.1) DA (DA.reads h.2.2)
  | .function hw ho hc hp DB, h => begins_function hw ho hc hp DB (DB.reads h)

theorem ArgumentsDerivation.reads {ts : List Token} {es : List Expr} :
    ∀ D : ArgumentsDerivation ts es, D.Separated → ReadsArguments ts es D.starts
  | .one D, h => readsArguments_one ((D.begins h).reads D.starts_head)
  | .more hc D AS, h =>
    readsArguments_more hc D.ne_nil ((D.begins h.1).reads D.starts_head) AS.ne_nil (AS.reads h.2)

theorem StmtDerivation.reads {ts : List Token} {s : Stmt} :
    ∀ D : StmtDerivation ts s, D.Separated → ReadsStmt ts s D.starts
  | .define hw hn ha D he, h =>
    readsStmt_define hw hn ha D ((D.begins h).reads D.starts_head) he
  | .returning hw D he, h => readsStmt_returning hw D ((D.begins h).reads D.starts_head) he
  | .expression D he, h => readsStmt_expression D ((D.begins h).reads D.starts_head) he

theorem StmtsDerivation.reads {ts : List Token} {ss : List Stmt} :
    ∀ D : StmtsDerivation ts ss, D.Separated → ReadsStmts ts ss D.starts
  | .nil, _ => readsStmts_nil
  | .cons D DS, h => readsStmts_cons D (D.reads h.1) DS (DS.reads h.2.1) h.2.2

theorem BlockDerivation.reads {ts : List Token} {b : Block} :
    ∀ D : BlockDerivation ts b, D.Separated → ReadsBlock ts b D.starts
  | .braces _ hc DS, h => readsBlock_braces hc (DS.reads h)

end

/-- The phrases just above a power are read with that power as what they stand for, up to their
last token and no further, if the nesting is enough and what follows binds no tighter. -/
theorem expressionWithin_complete {n : Nat} {power : BindingPower} {ts rest : List Token}
    {stop : Position} {e : Expr} (hpower : power < .call) (D : ExprDerivation power.level ts e)
    (hsep : D.Separated) (hn : D.depth ≤ n)
    (hrest : (rest.headD (.ofEnd stop)).kind.power ≤ power)
    (helse : (rest.headD (.ofEnd stop)).kind ≠ .elseWord) :
    ∃ d : Cursor, (expressionWithin n power).run ⟨ts ++ rest, stop⟩ = .ok e d ∧
      ts.getLast? = some d.current ∧ d.peek = rest.headD (.ofEnd stop) ∧
      d.advance = ⟨rest, stop⟩ := by
  obtain ⟨d, hd, hadv⟩ := Cursor.exists_spans (c := ⟨ts ++ rest, stop⟩) rfl D.ne_nil
  have hpeek : d.peek = rest.headD (.ofEnd stop) := congrArg Cursor.current hadv
  have hread := (D.begins hsep).reads D.starts_head (n := n) hd (hpeek ▸ hrest) (hpeek ▸ helse)
    (Nat.le_refl _) hpower
  refine ⟨d, hread.eq (D.deepest_starts ▸ hn), ?_, hpeek, hadv⟩
  obtain ⟨t, ht⟩ : ∃ t, ts.getLast? = some t := ⟨_, List.getLast?_eq_some_getLast D.ne_nil⟩
  rw [ht, Cursor.current_of_head? (hd.last ▸ ht)]

/-- What binds tighter than a sum may be a sign in front of a call. -/
theorem expressionWithin_complete_sign :
    let t (k : TokenKind) (s : String) : Token := ⟨k, s, ⟨.null, .null⟩⟩
    let sign := t .minus "-"
    let f := t .identifier "f"
    let opening := t .leftParen "("
    let x := t .identifier "x"
    let closing := t .rightParen ")"
    ∃ d : Cursor, (expressionWithin 3 .sum).run
        ⟨[sign, f, opening, x, closing] ++ [t .plus "+"], .null⟩ =
      .ok (.unary sign "-" (.call opening (.identifier ⟨f, "f"⟩) [.identifier ⟨x, "x"⟩])) d ∧
      [sign, f, opening, x, closing].getLast? = some d.current ∧ d.peek = t .plus "+" ∧
      d.advance = ⟨[t .plus "+"], .null⟩ := by
  intro t sign f opening x closing
  let argument : ArgumentsDerivation [x] [.identifier ⟨x, "x"⟩] :=
    .one (.tighter rfl (.tighter rfl (.tighter rfl (.tighter rfl (.tighter rfl (.tighter rfl
      (.identifier rfl)))))))
  let applied : ExprDerivation .call [f, opening, x, closing]
      (.call opening (.identifier ⟨f, "f"⟩) [.identifier ⟨x, "x"⟩]) :=
    .callWith rfl rfl (.tighter rfl (.identifier rfl)) argument
  let whole : ExprDerivation .multiplicative [sign, f, opening, x, closing]
      (.unary sign "-" (.call opening (.identifier ⟨f, "f"⟩) [.identifier ⟨x, "x"⟩])) :=
    .tighter rfl (.unary (.tail _ (.head _)) (.tighter rfl applied))
  have hsep : whole.Separated := And.intro trivial trivial
  exact expressionWithin_complete (by decide) whole hsep (Nat.le_refl 3) (Nat.le_refl 3) (by decide)

end ScriptReader
