import ScriptReader.Parser.Expression
import ScriptReader.Proofs.Parser.Spans

/-! What the steps of parsers do: when they succeed, and what they leave behind. -/

namespace ScriptReader.Parser

variable {α β : Type} {c d : Cursor}

@[simp] theorem run_advance (c : Cursor) : advance.run c = .ok () c.advance := rfl

@[simp] theorem run_failAt (t : Token) (cause : Cause) (c : Cursor) :
    (failAt t cause : Parser α).run c = .error ⟨cause, t.span.start⟩ c := rfl

theorem bind_current (f : Token → Parser α) (c : Cursor) :
    (current >>= f).run c = (f c.current).run c := rfl

theorem bind_peek (f : Token → Parser α) (c : Cursor) : (peek >>= f).run c = (f c.peek).run c := rfl

theorem bind_advance (f : Unit → Parser α) (c : Cursor) :
    (advance >>= f).run c = (f ()).run c.advance := rfl

theorem bind_ok_iff {p : Parser α} {f : α → Parser β} {b : β} :
    (p >>= f).run c = .ok b d ↔ ∃ a m, p.run c = .ok a m ∧ (f a).run m = .ok b d := by
  rw [run_bind]
  cases p.run c with
  | ok a m => simp
  | error e m => simp

theorem run_bind_of_ok {p : Parser α} {f : α → Parser β} {a : α} (h : p.run c = .ok a d) :
    (p >>= f).run c = (f a).run d := by
  rw [run_bind, h]

theorem run_bind_of_error {p : Parser α} {f : α → Parser β} {e : Diagnostic}
    (h : p.run c = .error e d) : (p >>= f).run c = .error e d := by
  rw [run_bind, h]

theorem reaches_of_ok {p : Parser α} {a : α} (h : p.run c = .ok a d) : c.Reaches d := by
  have hp := p.forward c
  rwa [h] at hp

theorem reaches_of_error {p : Parser α} {e : Diagnostic} (h : p.run c = .error e d) :
    c.Reaches d := by
  have hp := p.forward c
  rwa [h] at hp

theorem pure_ok_iff {a b : α} : (pure a : Parser α).run c = .ok b d ↔ b = a ∧ d = c := by
  rw [run_pure, Outcome.ok.injEq]
  exact and_congr eq_comm eq_comm

theorem run_bind_congr {p : Parser α} {f g : α → Parser β}
    (h : ∀ a d, (f a).run d = (g a).run d) : (p >>= f).run c = (p >>= g).run c := by
  rw [run_bind, run_bind]
  cases p.run c with
  | ok a d => exact h a d
  | error e d => rfl

theorem run_expect (kind : TokenKind) (c : Cursor) :
    (expect kind).run c =
      if c.peek.kind = kind then .ok c.peek c.advance
      else .error ⟨.unexpected kind c.peek.kind, c.peek.span.start⟩ c := by
  rw [expect, bind_peek]
  split <;> rfl

theorem expect_ok_iff {kind : TokenKind} {t : Token} :
    (expect kind).run c = .ok t d ↔ c.peek.kind = kind ∧ t = c.peek ∧ d = c.advance := by
  rw [run_expect]
  split <;> rename_i h <;> simp [h, eq_comm]

theorem bind_expect {kind : TokenKind} (h : c.peek.kind = kind) (f : Token → Parser α) :
    (expect kind >>= f).run c = (f c.peek).run c.advance :=
  run_bind_of_ok (expect_ok_iff.mpr ⟨h, rfl, rfl⟩)

theorem run_accept (kind : TokenKind) (c : Cursor) :
    (accept kind).run c =
      if c.peek.kind = kind then .ok true c.advance else .ok false c := by
  rw [accept, bind_peek]
  split <;> rfl

theorem accept_true_iff {kind : TokenKind} :
    (accept kind).run c = .ok true d ↔ c.peek.kind = kind ∧ d = c.advance := by
  rw [run_accept]
  split <;> rename_i h <;> simp [h, eq_comm]

theorem accept_false_iff {kind : TokenKind} :
    (accept kind).run c = .ok false d ↔ c.peek.kind ≠ kind ∧ d = c := by
  rw [run_accept]
  split <;> rename_i h <;> simp [h, eq_comm]

theorem map_ok_iff {f : α → β} {o : Outcome α} {b : β} :
    o.map f = .ok b d ↔ ∃ a, o = .ok a d ∧ f a = b := by
  cases o with
  | ok a m => simp only [Outcome.map_ok, Outcome.ok.injEq]; grind
  | error e m => simp

theorem run_iterate {σ : Type} (step : σ → Parser (Option σ)) (h : ∀ x, (step x).Advances) (x : σ)
    (c : Cursor) :
    (iterate step h x).run c =
      (do
        match ← step x with
        | some y => iterate step h y
        | none => pure x).run c := by
  change iterateFrom step h x c = _
  rw [iterateFrom_eq, run_bind]
  cases (step x).run c with
  | error e d => rfl
  | ok o d => cases o <;> rfl

theorem run_many {item : Parser (Option α)} (h : item.Advances) (c : Cursor) :
    (many item h).run c =
      (do
        match ← item with
        | some a =>
          let as ← many item h
          pure (a :: as)
        | none => pure []).run c := by
  rw [many_run, run_bind]
  cases item.run c with
  | error e d => rfl
  | ok o d =>
    cases o with
    | none => rfl
    | some a =>
      simp only [run_bind]
      cases (many item h).run d <;> rfl

theorem many_nil_iff {item : Parser (Option α)} {h : item.Advances} :
    (many item h).run c = .ok [] d ↔ item.run c = .ok none d := by
  rw [many_run]
  cases item.run c with
  | error e m => simp
  | ok o m => cases o <;> simp [map_ok_iff]

theorem many_cons_iff {item : Parser (Option α)} {h : item.Advances} {a : α} {as : List α} :
    (many item h).run c = .ok (a :: as) d ↔
      ∃ m, item.run c = .ok (some a) m ∧ (many item h).run m = .ok as d := by
  rw [many_run]
  cases item.run c with
  | error e m => simp
  | ok o m =>
    cases o with
    | none => simp
    | some b => simp only [map_ok_iff, List.cons.injEq, Outcome.ok.injEq, Option.some.injEq]; grind

theorem run_commaItem (item : Parser α) (c : Cursor) :
    (commaItem item).run c =
      if c.peek.kind = .comma then (item.run c.advance).map some else .ok none c := by
  rw [commaItem, bind_peek]
  split
  · rw [bind_advance, run_bind]
    cases item.run c.advance <;> rfl
  · rfl

theorem commaItem_none_iff {item : Parser α} :
    (commaItem item).run c = .ok none d ↔ c.peek.kind ≠ .comma ∧ d = c := by
  rw [run_commaItem]
  by_cases h : c.peek.kind = .comma
  · simp [h, map_ok_iff]
  · simp [h, eq_comm]

theorem commaItem_some_iff {item : Parser α} {a : α} :
    (commaItem item).run c = .ok (some a) d ↔
      c.peek.kind = .comma ∧ item.run c.advance = .ok a d := by
  rw [run_commaItem]
  by_cases h : c.peek.kind = .comma
  · simp [h, map_ok_iff]
  · simp [h]

theorem run_argument (expr : BindingPower → Parser Expr) (c : Cursor) :
    (argument expr).run c = (expr .lowest).run c.advance := rfl

/-- Items with commas between them, of which there is at least one. -/
def commaItems (item : Parser α) : Parser (List α) := do
  let first ← item
  let others ← many (commaItem item) (commaItem_advances item)
  pure (first :: others)

theorem run_commaList (item : Parser α) (c : Cursor) :
    (commaList item).run c =
      if c.peek.kind = .rightParen then .ok [] c.advance
      else
        (do
          let items ← commaItems item
          let _ ← expect .rightParen
          pure items).run c := by
  rw [commaList, run_bind, run_accept]
  by_cases h : c.peek.kind = .rightParen
  · simp [h, run_pure]
  · simp only [h, if_false, Bool.false_eq_true, commaItems, run_bind, run_pure]
    cases item.run c with
    | error e d => rfl
    | ok a d =>
      dsimp only
      cases (many (commaItem item) (commaItem_advances item)).run d <;> rfl

/-- Behind a comma, items with commas in front of them are items with commas between them. -/
theorem run_many_commaItem (item : Parser α) (c : Cursor) :
    (many (commaItem item) (commaItem_advances item)).run c =
      if c.peek.kind = .comma then (commaItems item).run c.advance else .ok [] c := by
  rw [many_run, run_commaItem]
  by_cases h : c.peek.kind = .comma
  · simp only [h, if_true, commaItems, run_bind]
    cases item.run c.advance with
    | error e d => rfl
    | ok a d =>
      simp only [Outcome.map_ok]
      cases (many (commaItem item) (commaItem_advances item)).run d <;> rfl
  · simp only [h, if_false]

theorem blockItem_none_iff {expr : BindingPower → Parser Expr} :
    (blockItem expr).run c = .ok none d ↔ c.current.kind = .rightBrace ∧ d = c := by
  rw [blockItem, bind_current]
  by_cases hb : c.current.kind = .rightBrace
  · simp [hb, pure_ok_iff]
  · by_cases he : c.current.kind = .eof
    · simp [he]
    · simp [hb, he, bind_ok_iff, pure_ok_iff]

theorem blockItem_some_iff {expr : BindingPower → Parser Expr} {s : Stmt} :
    (blockItem expr).run c = .ok (some s) d ↔
      c.current.kind ≠ .rightBrace ∧ c.current.kind ≠ .eof ∧
        ∃ m, (statement expr).run c = .ok s m ∧ d = m.advance := by
  rw [blockItem, bind_current]
  by_cases hb : c.current.kind = .rightBrace
  · simp [hb, pure_ok_iff]
  · by_cases he : c.current.kind = .eof
    · simp [he]
    · simp only [hb, he, if_false, bind_ok_iff, bind_advance, pure_ok_iff, Option.some.injEq]
      grind

/-- The part of a conditional behind the block for the case that the condition holds. -/
def alternative (expr : BindingPower → Parser Expr) : Parser (Option Block) := do
  if ← accept .elseWord then
    let _ ← expect .leftBrace
    let b ← block expr
    pure (some b)
  else pure none

theorem run_conditional (expr : BindingPower → Parser Expr) (c : Cursor) :
    (conditional expr).run c =
      (do
        let token ← current
        let _ ← expect .leftParen
        advance
        let condition ← expr .lowest
        let _ ← expect .rightParen
        let _ ← expect .leftBrace
        let consequence ← block expr
        let other ← alternative expr
        pure (Expr.conditional token condition consequence other)).run c := by
  rw [conditional]
  iterate 7 refine run_bind_congr fun _ _ => ?_
  rename_i d
  rw [alternative, run_bind, run_bind, run_bind, run_accept]
  by_cases hk : d.peek.kind = .elseWord
  · simp only [hk, if_true, run_bind]
    cases (expect .leftBrace).run d.advance with
    | error e m => rfl
    | ok t m =>
      dsimp only
      cases (block expr).run m <;> rfl
  · simp only [hk, if_false, Bool.false_eq_true, run_pure]

theorem run_operationAbove (expr : BindingPower → Parser Expr) (power : BindingPower)
    (left : Expr) (c : Cursor) :
    (operationAbove expr power left).run c =
      match c.peek.kind.operator? with
      | some operator =>
        if power < operator.power then ((operation expr left operator).run c.advance).map some
        else .ok none c
      | none => .ok none c := by
  rw [operationAbove, bind_peek]
  cases c.peek.kind.operator? with
  | none => rfl
  | some operator =>
    by_cases hp : power < operator.power
    · simp only [hp, if_true, run_bind, run_advance]
      cases (operation expr left operator).run c.advance <;> rfl
    · simp only [hp, if_false, run_pure]

/-- One operator and those behind it, or none if the next one binds no tighter than `power`. -/
theorem run_operations (expr : BindingPower → Parser Expr) (power : BindingPower) (left : Expr)
    (c : Cursor) :
    (operations expr power left).run c =
      match c.peek.kind.operator? with
      | some operator =>
        if power < operator.power then
          (operation expr left operator >>= operations expr power).run c.advance
        else .ok left c
      | none => .ok left c := by
  change iterateFrom _ _ left c = _
  rw [iterateFrom_eq, run_operationAbove]
  cases c.peek.kind.operator? with
  | none => rfl
  | some operator =>
    by_cases hp : power < operator.power
    · simp only [hp, if_true, run_bind]
      cases (operation expr left operator).run c.advance <;> rfl
    · simp only [hp, if_false]

theorem run_operations_of_lt (expr : BindingPower → Parser Expr) {power : BindingPower}
    {o : Operator} (left : Expr) (ho : c.peek.kind.operator? = some o) (hp : power < o.power) :
    (operations expr power left).run c =
      (operation expr left o >>= operations expr power).run c.advance := by
  rw [run_operations]
  simp only [ho, hp, if_true]

theorem run_operations_of_power_le (expr : BindingPower → Parser Expr) {power : BindingPower}
    (left : Expr) (h : c.peek.kind.power ≤ power) :
    (operations expr power left).run c = .ok left c := by
  rw [run_operations]
  cases ho : c.peek.kind.operator? with
  | none => rfl
  | some operator =>
    simp only [TokenKind.power, ho, Option.elim_some] at h
    exact if_neg (Nat.not_lt.mpr h)

/-- What an operation keeps, all operations in a row keep. They end where no operator follows
that binds tighter than `power`. -/
theorem operations_ok {expr : BindingPower → Parser Expr} {power : BindingPower}
    {Inv : Expr → Cursor → Prop}
    (hstep : ∀ left c o e m, Inv left c → c.peek.kind.operator? = some o → power < o.power →
      (operation expr left o).run c.advance = .ok e m → Inv e m)
    {left e : Expr} (hi : Inv left c) (h : (operations expr power left).run c = .ok e d) :
    Inv e d ∧ d.peek.kind.power ≤ power := by
  induction hn : c.ahead.length using Nat.strongRecOn generalizing left c with
  | ind n ih =>
    rw [run_operations] at h
    cases ho : c.peek.kind.operator? with
    | none =>
      simp only [ho, Outcome.ok.injEq] at h
      obtain ⟨rfl, rfl⟩ := h
      exact ⟨hi, by simp only [TokenKind.power, ho, Option.elim_none]; exact Nat.zero_le _⟩
    | some o =>
      simp only [ho] at h
      by_cases hp : power < o.power
      · simp only [hp, if_true, bind_ok_iff] at h
        obtain ⟨e', m, he, h⟩ := h
        have hm : (operationAbove expr power left).run c = .ok (some e') m := by
          rw [run_operationAbove]
          simp [ho, hp, he]
        exact ih _ (hn ▸ operationAbove_advances expr power left hm) (hstep _ _ _ _ _ hi ho hp he)
          h rfl
      · simp only [hp, if_false, Outcome.ok.injEq] at h
        obtain ⟨rfl, rfl⟩ := h
        exact ⟨hi, by simp only [TokenKind.power, ho, Option.elim_some]; exact Nat.not_lt.mp hp⟩

end ScriptReader.Parser
