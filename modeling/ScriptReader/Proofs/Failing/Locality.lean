import ScriptReader.Proofs.Failing.Basic

/-! What is read does not depend on tokens that have not been looked at. A
reader looks no further than one token behind the one at which it ends, and if
it fails, no further than the token that its diagnostic is about. -/

namespace ScriptReader

/-- The same place in a source that has its last `k` tokens replaced by those of `tail`. -/
def Cursor.graft (c : Cursor) (k : Nat) (tail : Cursor) : Cursor :=
  ⟨c.ahead.take (c.ahead.length - k) ++ tail.ahead, tail.stop⟩

namespace Cursor

variable {k : Nat} {tail c : Cursor}

theorem graft_of_cons {t : Token} {ts : List Token} {stop : Position} (h : k ≤ ts.length) :
    graft ⟨t :: ts, stop⟩ k tail =
      ⟨t :: (graft ⟨ts, stop⟩ k tail).ahead, (graft ⟨ts, stop⟩ k tail).stop⟩ := by
  simp only [graft, List.length_cons, Nat.succ_sub h, List.take_succ_cons, List.cons_append]

theorem graft_of_append {ts us : List Token} {stop : Position} :
    graft ⟨ts ++ us, stop⟩ us.length tail = ⟨ts ++ tail.ahead, tail.stop⟩ := by
  simp [graft]

theorem current_graft (h : k < c.ahead.length) : (c.graft k tail).current = c.current := by
  obtain ⟨ts, stop⟩ := c
  cases ts with
  | nil => contradiction
  | cons t ts =>
    rw [graft_of_cons (Nat.le_of_lt_succ h)]
    rfl

theorem advance_graft (h : k < c.ahead.length) :
    (c.graft k tail).advance = c.advance.graft k tail := by
  obtain ⟨ts, stop⟩ := c
  cases ts with
  | nil => contradiction
  | cons t ts =>
    rw [graft_of_cons (Nat.le_of_lt_succ h)]
    rfl

theorem peek_graft (h : k < c.advance.ahead.length) : (c.graft k tail).peek = c.peek := by
  have hc : k < c.ahead.length := Nat.lt_of_lt_of_le h (c.length_advance ▸ Nat.sub_le ..)
  rw [← current_advance, advance_graft hc, current_graft h, current_advance]

end Cursor

theorem Cause.length_site_le (cause : Cause) (d : Cursor) :
    (cause.site d).ahead.length ≤ d.ahead.length := by
  unfold Cause.site
  split
  · exact Nat.le_refl _
  · exact d.length_advance ▸ Nat.sub_le ..
  · exact Nat.le_refl _

namespace Parser

variable {α β : Type} {k : Nat} {tail c d : Cursor}

/-- Only tokens behind the current one are found fault with. -/
def Beyond (c : Cursor) : Outcome α → Prop
  | .ok _ _ => True
  | .error e d => c.ahead ≠ [] → (e.cause.site d).ahead.length < c.ahead.length

/-- The second outcome is the first one in the source with another end, if the first did not depend
on what was replaced. -/
def Unmoved (k : Nat) (tail : Cursor) (o o' : Outcome α) : Prop :=
  match o with
  | .ok a d => k < d.advance.ahead.length → o' = .ok a (d.graft k tail)
  | .error e d => k < (e.cause.site d).ahead.length → o' = .error e (d.graft k tail)

theorem beyond_of_lt (h : d.ahead.length < c.ahead.length) (p : Parser α) :
    Beyond c (p.run d) := by
  have hf := p.forward d
  cases hp : p.run d with
  | ok a m => trivial
  | error e m =>
    rw [hp] at hf
    exact fun _ => Nat.lt_of_le_of_lt (Nat.le_trans (e.cause.length_site_le m) hf.length_le) h

theorem beyond_advance (p : Parser α) : Beyond c (p.run c.advance) := by
  cases hc : c.ahead with
  | nil =>
    cases p.run c.advance with
    | ok a m => trivial
    | error e m => exact fun h => absurd hc h
  | cons t ts => exact beyond_of_lt (by simp [hc]) p

theorem unmoved_of_lt {p : Parser α} {o : Outcome α}
    (h : k < c.ahead.length → Unmoved k tail (p.run c) o) : Unmoved k tail (p.run c) o := by
  -- Nothing is claimed of readers that end within the last `k` tokens, and none goes back.
  have hf := p.forward c
  cases hp : p.run c with
  | ok a d =>
    rw [hp] at hf h
    intro hk
    exact h (Nat.lt_of_lt_of_le hk (hf.trans (Cursor.reaches_advance d)).length_le) hk
  | error e d =>
    rw [hp] at hf h
    intro hk
    have hd := Nat.le_trans (e.cause.length_site_le d) hf.length_le
    exact h (Nat.lt_of_lt_of_le hk hd) hk

theorem unmoved_of_lt_advance {p : Parser α} {o : Outcome α} (hb : Beyond c (p.run c))
    (h : k < c.advance.ahead.length → Unmoved k tail (p.run c) o) :
    Unmoved k tail (p.run c) o := by
  have hf := p.forward c
  cases hp : p.run c with
  | ok a d =>
    rw [hp] at hf h
    intro hk
    have hd := hf.length_le
    simp only [Outcome.cursor_ok, Cursor.length_advance] at hd hk
    exact h (by rw [Cursor.length_advance]; omega) (by rwa [Cursor.length_advance])
  | error e d =>
    rw [hp] at hf h hb
    intro hk
    have hd := Nat.le_trans (e.cause.length_site_le d) hf.length_le
    have hne : c.ahead ≠ [] := by
      rw [← List.length_pos_iff]
      omega
    have hlt := hb hne
    exact h (by rw [Cursor.length_advance]; omega) hk

theorem Unmoved.bind {p : Parser α} {f : α → Parser β}
    (h : Unmoved k tail (p.run c) (p.run (c.graft k tail)))
    (hf : ∀ a d, p.run c = .ok a d →
      Unmoved k tail ((f a).run d) ((f a).run (d.graft k tail)))
    (hb : ∀ a d, p.run c = .ok a d → Beyond d ((f a).run d)) :
    Unmoved k tail ((p >>= f).run c) ((p >>= f).run (c.graft k tail)) := by
  rw [run_bind]
  cases hp : p.run c with
  | error e d =>
    rw [hp] at h
    intro hk
    exact run_bind_of_error (h hk)
  | ok a d =>
    rw [hp] at h
    refine unmoved_of_lt_advance (hb a d hp) fun hk => ?_
    rw [run_bind_of_ok (h hk)]
    exact hf a d hp

/-- The reader only depends on what it looks at. -/
def Local (p : Parser α) : Prop :=
  ∀ ⦃k tail c⦄, Unmoved k tail (p.run c) (p.run (c.graft k tail))

/-- The reader does not find fault with the current token. -/
def Ahead (p : Parser α) : Prop := ∀ ⦃c⦄, Beyond c (p.run c)

/-- What may stand behind another reader, which has looked at the token behind the current one. -/
structure Careful (p : Parser α) : Prop where
  isLocal : Local p
  ahead : Ahead p

theorem beyond_of_reaches {p : Parser α} (hr : c.Reaches d) (hb : Beyond d (p.run d)) :
    Beyond c (p.run d) := by
  rcases Nat.lt_or_eq_of_le hr.length_le with hlt | heq
  · exact beyond_of_lt hlt p
  · cases hp : p.run d with
    | ok a m => trivial
    | error e m =>
      rw [hp] at hb
      intro hne
      rw [← heq]
      exact hb (by rwa [← List.length_pos_iff, heq, List.length_pos_iff])

theorem Ahead.bind {p : Parser α} {f : α → Parser β} (h : Ahead p) (hf : ∀ a, Ahead (f a)) :
    Ahead (p >>= f) := by
  intro c
  have hp := @h c
  have hd := p.forward c
  cases hr : p.run c with
  | error e d =>
    rw [run_bind_of_error hr]
    rwa [hr] at hp
  | ok a d =>
    rw [hr] at hd
    rw [run_bind_of_ok hr]
    exact beyond_of_reaches hd (@hf a d)

theorem Local.bind {p : Parser α} {f : α → Parser β} (h : Local p) (hf : ∀ a, Careful (f a)) :
    Local (p >>= f) :=
  fun _ _ _ => Unmoved.bind (@h _ _ _) (fun a _ _ => @(hf a).isLocal _ _ _)
    fun a _ _ => @(hf a).ahead _

theorem Careful.bind {p : Parser α} {f : α → Parser β} (h : Careful p)
    (hf : ∀ a, Careful (f a)) : Careful (p >>= f) :=
  ⟨h.isLocal.bind hf, h.ahead.bind fun a => (hf a).ahead⟩

theorem careful_pure (a : α) : Careful (pure a : Parser α) := ⟨fun _ _ _ _ => rfl, fun _ => trivial⟩

theorem local_failAt (t : Token) (cause : Cause) : Local (failAt t cause : Parser α) :=
  fun _ _ _ _ => rfl

theorem local_current {f : Token → Parser α} (h : ∀ t, Local (f t)) : Local (current >>= f) := by
  intro k tail c
  refine unmoved_of_lt fun hk => ?_
  rw [bind_current, bind_current, Cursor.current_graft hk]
  exact @h _ _ _ _

theorem careful_current {f : Token → Parser α} (h : ∀ t, Careful (f t)) :
    Careful (current >>= f) :=
  ⟨local_current fun t => (h t).isLocal, fun c => @(h c.current).ahead c⟩

theorem careful_advance {f : Unit → Parser α} (h : Local (f ())) : Careful (advance >>= f) := by
  refine ⟨fun k tail c => unmoved_of_lt fun hk => ?_, fun c => beyond_advance (f ())⟩
  rw [bind_advance, bind_advance, Cursor.advance_graft hk]
  exact @h _ _ _

theorem careful_peek {f : Token → Parser α} (h : ∀ t, Careful (f t)) : Careful (peek >>= f) := by
  have hb : Ahead (peek >>= f) := fun c => @(h c.peek).ahead c
  refine ⟨fun k tail c => unmoved_of_lt_advance (@hb c) fun hk => ?_, hb⟩
  rw [bind_peek, bind_peek, Cursor.peek_graft hk]
  exact @(h c.peek).isLocal _ _ _

theorem careful_unexpected {kind : TokenKind} (hk : kind ≠ .rightBrace) (t : Token)
    (found : TokenKind) : Careful (failAt t (.unexpected kind found) : Parser α) := by
  refine ⟨local_failAt t _, fun c hne => ?_⟩
  have hpos := List.length_pos_iff.mpr hne
  rw [Cause.site_unexpected hk, Cursor.length_advance]
  omega

theorem careful_expect {kind : TokenKind} (hk : kind ≠ .rightBrace) : Careful (expect kind) := by
  refine careful_peek fun t => ?_
  split
  · exact careful_advance (careful_pure t).isLocal
  · exact careful_unexpected hk t _

theorem careful_accept (kind : TokenKind) : Careful (accept kind) := by
  refine careful_peek fun t => ?_
  split
  · exact careful_advance (careful_pure true).isLocal
  · exact careful_pure false

/-! Lists of items. -/

theorem ahead_many {item : Parser (Option α)} {ha : item.Advances} (h : Careful item) :
    Ahead (many item ha) := by
  intro c
  have hb := @h.ahead c
  rw [run_many]
  cases hr : item.run c with
  | error e d =>
    rw [run_bind_of_error hr]
    rwa [hr] at hb
  | ok o d =>
    rw [run_bind_of_ok hr]
    cases o with
    | none => trivial
    | some a => exact beyond_of_lt (ha hr) _

theorem careful_many {item : Parser (Option α)} {ha : item.Advances} (h : Careful item) :
    Careful (many item ha) := by
  refine ⟨fun k tail c => ?_, ahead_many h⟩
  induction hn : c.ahead.length using Nat.strongRecOn generalizing c with
  | ind n ih =>
    rw [run_many, run_many]
    refine Unmoved.bind (@h.isLocal _ _ _) (fun o d ho => ?_) fun o d ho => ?_
    · cases o with
      | none => exact @(careful_pure []).isLocal _ _ _
      | some a =>
        refine Unmoved.bind (ih _ (hn ▸ ha ho) _ rfl) (fun as d' _ => ?_) fun _ _ _ => trivial
        exact @(careful_pure (a :: as)).isLocal _ _ _
    · cases o with
      | none => trivial
      | some a => exact @Ahead.bind _ _ _ _ (ahead_many h) (fun as => (careful_pure _).ahead) d

theorem careful_commaItem {item : Parser α} (h : Local item) : Careful (commaItem item) := by
  refine careful_peek fun t => ?_
  split
  · exact careful_advance (h.bind fun a => careful_pure _)
  · exact careful_pure none

theorem careful_commaList {item : Parser α} (h : Careful item) : Careful (commaList item) := by
  refine (careful_accept _).bind fun b => ?_
  split
  · exact careful_pure []
  · exact h.bind fun a => (careful_many (careful_commaItem h.isLocal)).bind fun as =>
      (careful_expect (by decide)).bind fun _ => careful_pure _

/-! Expressions and statements, given that the expressions within them are read locally. -/

variable {expr : BindingPower → Parser Expr}

theorem careful_call (h : ∀ power, Local (expr power)) (callee : Expr) :
    Careful (call expr callee) :=
  careful_current fun _ => (careful_commaList (careful_advance (h .lowest))).bind
    fun _ => careful_pure _

theorem careful_binary (h : ∀ power, Local (expr power)) (left : Expr) (power : BindingPower) :
    Careful (binary expr left power) :=
  careful_current fun _ => careful_advance ((h power).bind fun _ => careful_pure _)

theorem careful_operation (h : ∀ power, Local (expr power)) (left : Expr) (o : Operator) :
    Careful (operation expr left o) := by
  obtain ⟨form, power⟩ := o
  cases form with
  | binary => exact careful_binary h left power
  | call => exact careful_call h left

theorem ahead_operations (expr : BindingPower → Parser Expr) (power : BindingPower) (left : Expr) :
    Ahead (operations expr power left) := by
  intro c
  rw [run_operations]
  split
  · split
    · exact beyond_advance _
    · trivial
  · trivial

theorem careful_operations (h : ∀ power, Local (expr power)) (power : BindingPower)
    (left : Expr) : Careful (operations expr power left) := by
  refine ⟨fun k tail c => ?_, ahead_operations expr power left⟩
  -- Along the tokens, as the operand grows with each operator.
  induction hn : c.ahead.length using Nat.strongRecOn generalizing c left with
  | ind n ih =>
    refine unmoved_of_lt_advance (@ahead_operations expr power left c) fun hlt => ?_
    have hc : k < c.ahead.length := Nat.lt_of_lt_of_le hlt (c.length_advance ▸ Nat.sub_le ..)
    rw [run_operations, run_operations, Cursor.peek_graft hlt, Cursor.advance_graft hc]
    cases ho : c.peek.kind.operator? with
    | none => exact fun _ => rfl
    | some o =>
      by_cases hp : power < o.power
      · simp only [hp, if_true]
        refine Unmoved.bind (@(careful_operation h left o).isLocal _ _ _) (fun e d hr => ?_)
          fun e d _ => @ahead_operations expr power e d
        have hlt : (operationAbove expr power left).run c = .ok (some e) d := by
          rw [run_operationAbove]
          simp [ho, hp, hr]
        exact ih _ (hn ▸ operationAbove_advances expr power left hlt) e _ rfl
      · simp only [hp, if_false]
        exact fun _ => rfl

theorem local_value (h : ∀ power, Local (expr power)) (f : Expr → Stmt) :
    Local (do
      let value ← expr .lowest
      let _ ← accept .semicolon
      pure (f value)) :=
  (h .lowest).bind fun _ => (careful_accept _).bind fun _ => careful_pure _

theorem local_define (h : ∀ power, Local (expr power)) : Local (define expr) := by
  refine local_current fun t => (careful_expect (by decide)).isLocal.bind fun name => ?_
  exact (careful_expect (by decide)).bind fun _ => careful_advance (local_value h _)

theorem local_statement (h : ∀ power, Local (expr power)) : Local (statement expr) := by
  refine local_current fun t => ?_
  split
  · exact local_define h
  · exact local_current fun _ => (careful_advance (local_value h _)).isLocal
  · exact local_current fun _ => local_value h _

theorem run_blockItems (expr : BindingPower → Parser Expr) (c : Cursor) :
    (many (blockItem expr) (blockItem_advances expr)).run c =
      (do
        let t ← current
        if t.kind = .rightBrace then pure []
        else if t.kind = .eof then failAt t (.unexpected .rightBrace t.kind)
        else
          let s ← statement expr
          advance
          let ss ← many (blockItem expr) (blockItem_advances expr)
          pure (s :: ss) : Parser (List Stmt)).run c := by
  rw [run_many, run_bind, bind_current]
  by_cases hb : c.current.kind = .rightBrace
  · rw [if_pos hb, blockItem_none_iff.mpr ⟨hb, rfl⟩]
  by_cases he : c.current.kind = .eof
  · have hitem : (blockItem expr).run c =
        (failAt c.current (.unexpected .rightBrace c.current.kind)).run c := by
      rw [blockItem, bind_current, if_neg hb, if_pos he]
    rw [if_neg hb, if_pos he, hitem]
    rfl
  · have hitem : (blockItem expr).run c =
        (do
          let s ← statement expr
          advance
          pure (some s) : Parser (Option Stmt)).run c := by
      rw [blockItem, bind_current, if_neg hb, if_neg he]
    rw [if_neg hb, if_neg he, hitem, run_bind, run_bind]
    cases (statement expr).run c <;> rfl

/-- The statements of a block. Behind each of them is a step, to where the next one is looked at. -/
theorem local_blockItems (h : ∀ power, Local (expr power)) :
    Local (many (blockItem expr) (blockItem_advances expr)) := by
  intro k tail c
  induction hn : c.ahead.length using Nat.strongRecOn generalizing c with
  | ind n ih =>
    rw [run_blockItems, run_blockItems]
    refine unmoved_of_lt fun hk => ?_
    rw [bind_current, bind_current, Cursor.current_graft hk]
    split
    · exact fun _ => rfl
    split
    · exact fun _ => rfl
    rename_i hb he
    refine Unmoved.bind (@local_statement _ h _ _ _) (fun s d hs => ?_) fun s d _ => ?_
    swap
    · rw [bind_advance]
      exact beyond_advance _
    have hlt := blockItem_advances expr (blockItem_some_iff.mpr ⟨hb, he, d, hs, rfl⟩)
    refine unmoved_of_lt fun hd => ?_
    rw [bind_advance, bind_advance, Cursor.advance_graft hd]
    refine Unmoved.bind (ih _ (hn ▸ hlt) rfl) (fun ss d _ => ?_) fun _ _ _ => trivial
    exact @(careful_pure (s :: ss)).isLocal _ _ _

theorem careful_block (h : ∀ power, Local (expr power)) : Careful (block expr) :=
  careful_current fun _ => careful_advance ((local_blockItems h).bind fun _ => careful_pure _)

theorem careful_unary (h : ∀ power, Local (expr power)) : Careful (unary expr) :=
  careful_current fun _ => careful_advance ((h .unary).bind fun _ => careful_pure _)

theorem careful_grouping (h : ∀ power, Local (expr power)) : Careful (grouping expr) := by
  refine careful_advance ((h .lowest).bind fun e => ?_)
  exact (careful_expect (by decide)).bind fun _ => careful_pure _

theorem careful_conditional (h : ∀ power, Local (expr power)) : Careful (conditional expr) := by
  refine careful_current fun token => (careful_expect (by decide)).bind fun _ => ?_
  refine careful_advance ((h .lowest).bind fun condition => ?_)
  refine (careful_expect (by decide)).bind fun _ => (careful_expect (by decide)).bind fun _ => ?_
  refine (careful_block h).bind fun consequence => (careful_accept _).bind fun b => ?_
  split
  · exact (careful_expect (by decide)).bind fun _ => (careful_block h).bind fun _ => careful_pure _
  · exact careful_pure _

theorem careful_function (h : ∀ power, Local (expr power)) : Careful (function expr) := by
  refine careful_current fun token => (careful_expect (by decide)).bind fun _ => ?_
  refine (careful_commaList (careful_expect (by decide))).bind fun names => ?_
  exact (careful_expect (by decide)).bind fun _ => (careful_block h).bind fun _ => careful_pure _

theorem local_operand (h : ∀ power, Local (expr power)) : Local (operand expr) := by
  refine local_current fun t => ?_
  split
  · exact local_current fun _ => (careful_pure _).isLocal
  · refine local_current fun token => ?_
    split
    · exact (careful_pure _).isLocal
    · exact local_failAt token _
  · exact local_current fun _ => (careful_pure _).isLocal
  · exact (careful_unary h).isLocal
  · exact (careful_grouping h).isLocal
  · exact (careful_conditional h).isLocal
  · exact (careful_function h).isLocal
  · exact local_current fun token => local_failAt token _
  · exact local_failAt t _

theorem expressionWithin_local (n : Nat) (power : BindingPower) :
    Local (expressionWithin n power) := by
  induction n generalizing power with
  | zero => exact local_current fun t => local_failAt t _
  | succ n ih => exact (local_operand ih).bind fun left => careful_operations ih power left

end Parser

end ScriptReader
