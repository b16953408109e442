import ScriptReader.Proofs.Failing.Basic

/-! Where readers stop. The diagnostic of a reader stands at the token it is
about, and what it says is so of that token. Before one about nesting, a token
has been read for each expression that is open there. -/

namespace ScriptReader

/-- What the cause says is so of the token. -/
def Cause.Fits : Cause → Token → Prop
  | .unrecognised text, t => t.kind = .illegal ∧ t.text = text
  | .unexpected expected found, t => t.kind = found ∧ found ≠ expected
  | .noOperand kind, t => t.kind = kind ∧ kind.operandForm? = none
  | .badNumber text, t => t.kind = .integer ∧ t.text = text ∧ Parser.integerValue? text = none
  | .tooDeep limit, _ => limit = Parser.maxNesting

/-- How a reader that began at `c` stops at `d`, if it can go `n` expressions deep. -/
structure Stops (n : Nat) (c : Cursor) (e : Diagnostic) (d : Cursor) : Prop where
  position : e.position = (e.cause.site d).current.span.start
  fits : e.cause.Fits (e.cause.site d).current
  unclosed (found : TokenKind) (h : e.cause = .unexpected .rightBrace found) : found = .eof
  deep (limit : Nat) (h : e.cause = .tooDeep limit) : d.ahead.length + n ≤ c.ahead.length

namespace Parser

variable {α β : Type} {n : Nat} {c d m : Cursor} {e : Diagnostic}

theorem Stops.of_reaches (h : Stops n m e d) (hc : c.Reaches m) : Stops n c e d :=
  ⟨h.position, h.fits, h.unclosed,
    fun limit hd => Nat.le_trans (h.deep limit hd) hc.length_le⟩

theorem Stops.succ (h : Stops n c.advance e d) (hc : c.ahead ≠ []) : Stops (n + 1) c e d := by
  refine ⟨h.position, h.fits, h.unclosed, fun limit hd => ?_⟩
  have hle := h.deep limit hd
  have hpos := List.length_pos_iff.mpr hc
  rw [Cursor.length_advance] at hle
  omega

/-- However the reader fails, it stops where its diagnostic says. -/
def Stopping (n : Nat) (p : Parser α) : Prop := ∀ ⦃c e d⦄, p.run c = .error e d → Stops n c e d

/-- The same of readers that open one expression more, wherever there is a token for it. -/
def Opening (n : Nat) (p : Parser α) : Prop :=
  ∀ ⦃c e d⦄, c.ahead ≠ [] → p.run c = .error e d → Stops (n + 1) c e d

theorem Stopping.bind {p : Parser α} {f : α → Parser β} (h : Stopping n p)
    (hf : ∀ a, Stopping n (f a)) : Stopping n (p >>= f) := by
  intro c e d he
  cases hr : p.run c with
  | error e' d' =>
    rw [run_bind_of_error hr] at he
    obtain ⟨rfl, rfl⟩ := Outcome.error.inj he
    exact h hr
  | ok a m =>
    rw [run_bind_of_ok hr] at he
    exact Stops.of_reaches (hf a he) (reaches_of_ok hr)

theorem stopping_pure (a : α) : Stopping n (pure a : Parser α) := by
  rintro c e d ⟨⟩

theorem stopping_current : Stopping n current := by
  rintro c e d ⟨⟩

theorem stopping_peek : Stopping n peek := by
  rintro c e d ⟨⟩

theorem stopping_advance : Stopping n advance := by
  rintro c e d ⟨⟩

theorem stopping_accept (kind : TokenKind) : Stopping n (accept kind) := by
  intro c e d he
  rw [run_accept] at he
  split at he <;> contradiction

theorem stopping_expect {kind : TokenKind} (hk : kind ≠ .rightBrace) :
    Stopping n (expect kind) := by
  intro c e d he
  rw [run_expect] at he
  split at he
  · contradiction
  · rename_i hp
    obtain ⟨rfl, rfl⟩ := Outcome.error.inj he
    refine ⟨?_, ?_, by rintro _ ⟨⟩; contradiction, nofun⟩
    · rw [Cause.site_unexpected hk]
      rfl
    · rw [Cause.site_unexpected hk]
      exact ⟨rfl, hp⟩

/-- A reader that finds fault with the current token. -/
theorem stops_failAt {cause : Cause} (h : (failAt c.current cause : Parser α).run c = .error e d)
    (hsite : cause.site c = c) (hfits : cause.Fits c.current)
    (hclosed : ∀ found, cause = .unexpected .rightBrace found → found = .eof)
    (hdeep : ∀ limit, cause = .tooDeep limit → n = 0) : Stops n c e d := by
  obtain ⟨rfl, rfl⟩ := Outcome.error.inj h
  refine ⟨congrArg (fun m : Cursor => m.current.span.start) hsite.symm, ?_, hclosed,
    fun limit hl => ?_⟩
  · rw [hsite]
    exact hfits
  · obtain rfl := hdeep limit hl
    exact Nat.le_refl _

/-! Lists of items. -/

theorem stopping_many {item : Parser (Option α)} {ha : item.Advances} (h : Stopping n item) :
    Stopping n (many item ha) := by
  intro c e d he
  induction hn : c.ahead.length using Nat.strongRecOn generalizing c with
  | ind k ih =>
    rw [run_many] at he
    cases hr : item.run c with
    | error e' d' =>
      rw [run_bind_of_error hr] at he
      obtain ⟨rfl, rfl⟩ := Outcome.error.inj he
      exact h hr
    | ok o m =>
      rw [run_bind_of_ok hr] at he
      cases o with
      | none => contradiction
      | some a =>
        cases hm : (many item ha).run m with
        | error e' d' =>
          rw [run_bind_of_error hm] at he
          obtain ⟨rfl, rfl⟩ := Outcome.error.inj he
          exact Stops.of_reaches (ih _ (hn ▸ ha hr) hm rfl) (reaches_of_ok hr)
        | ok as m' =>
          rw [run_bind_of_ok hm] at he
          contradiction

theorem stopping_commaItem {item : Parser α} (h : Stopping n item) :
    Stopping n (commaItem item) := by
  refine stopping_peek.bind fun t => ?_
  split
  · exact stopping_advance.bind fun _ => h.bind fun _ => stopping_pure _
  · exact stopping_pure none

theorem stopping_commaList {item : Parser α} (h : Stopping n item) :
    Stopping n (commaList item) := by
  refine (stopping_accept _).bind fun b => ?_
  split
  · exact stopping_pure []
  · exact h.bind fun a => (stopping_many (stopping_commaItem h)).bind fun as =>
      (stopping_expect (by decide)).bind fun _ => stopping_pure _

/-! Statements and blocks, given how the expressions within them stop. -/

variable {expr : BindingPower → Parser Expr}

theorem stopping_value (h : ∀ power, Stopping n (expr power)) (f : Expr → Stmt) :
    Stopping n (do
      let value ← expr .lowest
      let _ ← accept .semicolon
      pure (f value)) :=
  (h .lowest).bind fun _ => (stopping_accept _).bind fun _ => stopping_pure _

theorem stopping_define (h : ∀ power, Stopping n (expr power)) : Stopping n (define expr) := by
  refine stopping_current.bind fun t => (stopping_expect (by decide)).bind fun name => ?_
  exact (stopping_expect (by decide)).bind fun _ => stopping_advance.bind fun _ =>
    stopping_value h _

theorem stopping_statement (h : ∀ power, Stopping n (expr power)) :
    Stopping n (statement expr) := by
  refine stopping_current.bind fun t => ?_
  split
  · exact stopping_define h
  · exact stopping_current.bind fun _ => stopping_advance.bind fun _ => stopping_value h _
  · exact stopping_current.bind fun _ => stopping_value h _

theorem stopping_blockItem (h : ∀ power, Stopping n (expr power)) :
    Stopping n (blockItem expr) := by
  intro c e d he
  rw [blockItem, bind_current] at he
  split at he
  · contradiction
  split at he
  · rename_i hk
    refine stops_failAt he rfl ⟨rfl, by simp [hk]⟩ ?_ ?_
    · rintro _ ⟨⟩
      exact hk
    · rintro _ ⟨⟩
  · exact (stopping_statement h).bind (fun _ => stopping_advance.bind fun _ => stopping_pure _) he

theorem stopping_block (h : ∀ power, Stopping n (expr power)) : Stopping n (block expr) :=
  stopping_current.bind fun _ => stopping_advance.bind fun _ =>
    (stopping_many (stopping_blockItem h)).bind fun _ => stopping_pure _

/-! Operators. Each is read behind an operand, from the operator on. -/

theorem stopping_operation (h : ∀ power, Stopping n (expr power)) (left : Expr) (o : Operator) :
    Stopping n (operation expr left o) := by
  obtain ⟨form, power⟩ := o
  cases form with
  | binary =>
    exact stopping_current.bind fun _ => stopping_advance.bind fun _ =>
      (h power).bind fun _ => stopping_pure _
  | call =>
    exact stopping_current.bind fun _ =>
      (stopping_commaList (stopping_advance.bind fun _ => h .lowest)).bind fun _ => stopping_pure _

theorem stopping_operations (h : ∀ power, Stopping n (expr power)) (power : BindingPower)
    (left : Expr) : Stopping (n + 1) (operations expr power left) := by
  intro c e d he
  -- Along the tokens, as the operand grows with each operator.
  induction hn : c.ahead.length using Nat.strongRecOn generalizing c left with
  | ind k ih =>
    rw [run_operations] at he
    cases ho : c.peek.kind.operator? with
    | none => simp [ho] at he
    | some o =>
      by_cases hp : power < o.power
      · simp only [ho, hp, if_true] at he
        have hpeek : c.peek.kind ≠ .eof := by
          intro hk
          simp [hk, TokenKind.operator?] at ho
        have hne : c.ahead ≠ [] := List.length_pos_iff.mp (Cursor.ahead_length_pos_of_peek hpeek)
        cases hr : (operation expr left o).run c.advance with
        | error e' d' =>
          rw [run_bind_of_error hr] at he
          obtain ⟨rfl, rfl⟩ := Outcome.error.inj he
          exact Stops.succ (stopping_operation h left o hr) hne
        | ok e' m =>
          rw [run_bind_of_ok hr] at he
          have hstep : (operationAbove expr power left).run c = .ok (some e') m := by
            rw [run_operationAbove]
            simp [ho, hp, hr]
          exact Stops.of_reaches
            (ih _ (hn ▸ operationAbove_advances expr power left hstep) e' he rfl)
            (reaches_of_ok hstep)
      · simp [ho, hp] at he

/-! Operands. Those with expressions within begin with a token in front of these. -/

theorem opening_current {f : Token → Parser α} (h : ∀ t, Opening n (f t)) :
    Opening n (current >>= f) :=
  fun c _ _ hc he => h c.current hc he

theorem opening_advance {f : Unit → Parser α} (h : Stopping n (f ())) :
    Opening n (advance >>= f) :=
  fun _ _ _ hc he => Stops.succ (h he) hc

theorem opening_expect {kind : TokenKind} {f : Token → Parser α} (hk : kind ≠ .rightBrace)
    (h : ∀ t, Stopping n (f t)) : Opening n (expect kind >>= f) := by
  intro c e d hc he
  cases hr : (expect kind).run c with
  | error e' d' =>
    rw [run_bind_of_error hr] at he
    obtain ⟨rfl, rfl⟩ := Outcome.error.inj he
    exact stopping_expect hk hr
  | ok t m =>
    rw [run_bind_of_ok hr] at he
    obtain ⟨-, -, rfl⟩ := expect_ok_iff.mp hr
    exact Stops.succ (h t he) hc

theorem opening_unary (h : ∀ power, Stopping n (expr power)) : Opening n (unary expr) :=
  opening_current fun _ => opening_advance ((h .unary).bind fun _ => stopping_pure _)

theorem opening_grouping (h : ∀ power, Stopping n (expr power)) : Opening n (grouping expr) :=
  opening_advance ((h .lowest).bind fun _ =>
    (stopping_expect (by decide)).bind fun _ => stopping_pure _)

theorem opening_conditional (h : ∀ power, Stopping n (expr power)) :
    Opening n (conditional expr) := by
  refine opening_current fun token => opening_expect (by decide) fun _ => ?_
  refine stopping_advance.bind fun _ => (h .lowest).bind fun condition => ?_
  refine (stopping_expect (by decide)).bind fun _ => (stopping_expect (by decide)).bind fun _ => ?_
  refine (stopping_block h).bind fun consequence => (stopping_accept _).bind fun b => ?_
  split
  · exact (stopping_expect (by decide)).bind fun _ =>
      (stopping_block h).bind fun _ => stopping_pure _
  · exact stopping_pure _

theorem opening_function (h : ∀ power, Stopping n (expr power)) : Opening n (function expr) := by
  refine opening_current fun token => opening_expect (by decide) fun _ => ?_
  refine (stopping_commaList (stopping_expect (by decide))).bind fun names => ?_
  exact (stopping_expect (by decide)).bind fun _ => (stopping_block h).bind fun _ => stopping_pure _

theorem stopping_operand (h : ∀ power, Stopping n (expr power)) :
    Stopping (n + 1) (operand expr) := by
  intro c e d he
  rw [operand, bind_current] at he
  have hne : ∀ k : TokenKind, k ≠ .eof → c.current.kind = k → c.ahead ≠ [] := by
    rintro _ hk rfl
    exact List.length_pos_iff.mp (Cursor.ahead_length_pos_of_current hk)
  cases hk : c.current.kind <;> simp only [hk, TokenKind.operandForm?] at he
  case integer =>
    rw [integer, bind_current] at he
    cases hv : integerValue? c.current.text with
    | none =>
      rw [hv] at he
      exact stops_failAt he rfl ⟨hk, rfl, hv⟩ nofun nofun
    | some value =>
      rw [hv] at he
      contradiction
  case illegal => exact stops_failAt he rfl ⟨hk, rfl⟩ nofun nofun
  case identifier | trueWord | falseWord => contradiction
  case bang | minus => exact opening_unary h (hne _ (by decide) hk) he
  case leftParen => exact opening_grouping h (hne _ (by decide) hk) he
  case ifWord => exact opening_conditional h (hne _ (by decide) hk) he
  case fnWord => exact opening_function h (hne _ (by decide) hk) he
  all_goals exact stops_failAt he rfl ⟨hk, rfl⟩ nofun nofun

theorem expressionWithin_stopping (n : Nat) (power : BindingPower) :
    Stopping n (expressionWithin n power) := by
  induction n generalizing power with
  | zero =>
    intro c e d he
    exact stops_failAt he rfl rfl nofun fun _ _ => rfl
  | succ n ih => exact (stopping_operand ih).bind fun left => stopping_operations ih power left

theorem statement_stopping : Stopping maxNesting (statement expression) :=
  stopping_statement (expressionWithin_stopping maxNesting)

end Parser

end ScriptReader
