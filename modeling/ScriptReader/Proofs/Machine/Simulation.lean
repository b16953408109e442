import ScriptReader.Proofs.Machine.Balance
import ScriptReader.Proofs.Parser.Steps

/-! When a task of the machine does what a parser does: it comes to an end with
the same result, at the same place, and at the depth at which it began. What
tasks are made of keeps this, so it can be read off from the text of a task. -/

namespace ScriptReader

namespace Machine

open ScriptReader.Parser (bind_current bind_peek bind_advance run_bind_of_ok run_bind_of_error)

variable {l : Lexer} {k i : Nat} {α β : Type} {t : Task α} {p : Parser α}

/-- Begun at the `i`th token of a lexer and at the depth `k`, the task does what the parser does. -/
def SimulatesAt (l : Lexer) (k i : Nat) (t : Task α) (p : Parser α) : Prop :=
  ∀ s : Trail, s.machine.At l i k →
    ∃ ms, Balanced k ms ∧ t.on s = some ((p.run (l.cursorAt i)).result, s.after ms) ∧
      (p.run (l.cursorAt i)).cursor = l.cursorAt (i + steps ms)

/-- At the depth `k` the task does what the parser does. -/
def Simulates (l : Lexer) (k : Nat) (t : Task α) (p : Parser α) : Prop :=
  ∀ i, SimulatesAt l k i t p

namespace SimulatesAt

theorem congr {q : Parser α} (h : SimulatesAt l k i t p)
    (hrun : q.run (l.cursorAt i) = p.run (l.cursorAt i)) : SimulatesAt l k i t q := by
  unfold SimulatesAt
  rwa [hrun]

theorem bind {f : α → Task β} {g : α → Parser β} (h : SimulatesAt l k i t p)
    (hf : ∀ a j, p.run (l.cursorAt i) = .ok a (l.cursorAt j) → SimulatesAt l k j (f a) (g a)) :
    SimulatesAt l k i (t >>= f) (p >>= g) := by
  intro s hs
  obtain ⟨ms, hms, ht, hc⟩ := h s hs
  cases hr : p.run (l.cursorAt i) with
  | error e d =>
    rw [hr] at ht hc
    refine ⟨ms, hms, ?_, ?_⟩
    · rw [Task.on_bind, ht, run_bind_of_error hr]
      rfl
    · rwa [run_bind_of_error hr]
  | ok a d =>
    rw [hr] at ht hc
    obtain rfl : d = l.cursorAt (i + steps ms) := hc
    obtain ⟨ns, hns, hf, hc⟩ := hf a _ hr (s.after ms) (hms.after hs)
    refine ⟨ms ++ ns, hms.append hns, ?_, ?_⟩
    · rw [Task.on_bind, ht, run_bind_of_ok hr, ← Trail.after_after, ← hf]
      rfl
    · rw [run_bind_of_ok hr, hc, steps_append, Nat.add_assoc]

theorem pure (a : α) : SimulatesAt l k i (pure a) (pure a) := fun s _ =>
  ⟨[], .nil, by rw [Trail.after_nil]; rfl, rfl⟩

theorem failAt {u : Token} {cause : Cause} :
    SimulatesAt l k i (failAt u cause : Task α) (Parser.failAt u cause) := fun s _ =>
  ⟨[], .nil, by rw [Trail.after_nil]; rfl, rfl⟩

/-- What the machine shows does not depend on anything but where it stands. -/
theorem look {γ : Type} {v : Machine → γ} {c : γ} {f : γ → Task α}
    (hv : ∀ m : Machine, m.At l i k → v m = c) (h : SimulatesAt l k i (f c) p) :
    SimulatesAt l k i (look v >>= f) p := by
  intro s hs
  rw [on_look, hv _ hs]
  exact h s hs

theorem currentToken {f : Token → Task α} (h : SimulatesAt l k i (f (l.token i)) p) :
    SimulatesAt l k i (currentToken >>= f) p := look (fun _ hm => hm.current) h

theorem peekToken {f : Token → Task α} (h : SimulatesAt l k i (f (l.token (i + 1))) p) :
    SimulatesAt l k i (peekToken >>= f) p := look (fun _ hm => hm.peek) h

theorem operandForm? {u : TokenKind} {f : Option OperandForm → Task α}
    (h : SimulatesAt l k i (f u.operandForm?) p) : SimulatesAt l k i (operandForm? u >>= f) p :=
  look (fun _ hm => by rw [hm.tables, Tables.standard_operands]) h

theorem operatorForm? {u : TokenKind} {f : Option OperatorForm → Task α}
    (h : SimulatesAt l k i (f (u.operator?.map Operator.form)) p) :
    SimulatesAt l k i (operatorForm? u >>= f) p :=
  look (fun _ hm => by rw [hm.tables, Tables.standard_operators]) h

theorem powerOf {u : TokenKind} {f : BindingPower → Task α}
    (h : SimulatesAt l k i (f u.power) p) : SimulatesAt l k i (powerOf u >>= f) p :=
  look (fun _ hm => by rw [hm.tables, Tables.standard_power]) h

/-- Both see the same token behind the current one. -/
theorem peek {f : Token → Task α} {g : Token → Parser α}
    (h : SimulatesAt l k i (f (l.token (i + 1))) (g (l.token (i + 1)))) :
    SimulatesAt l k i (Machine.peekToken >>= f) (Parser.peek >>= g) :=
  .peekToken (h.congr (by rw [bind_peek, l.peek_cursorAt]))

theorem advance {f : Unit → Task α} {g : Unit → Parser α}
    (h : SimulatesAt l k (i + 1) (f ()) (g ())) :
    SimulatesAt l k i (Machine.advance >>= f) (Parser.advance >>= g) := by
  intro s hs
  obtain ⟨ms, hms, ht, hc⟩ := h (s.after [.advance]) hs.advance
  have hrun : (Parser.advance >>= g).run (l.cursorAt i) = (g ()).run (l.cursorAt (i + 1)) := by
    rw [bind_advance, l.advance_cursorAt]
  rw [hrun]
  refine ⟨.advance :: ms, .advance hms, ?_, ?_⟩
  · rw [Trail.after_after] at ht
    exact ht
  · rw [hc, steps_advance, Nat.add_right_comm, Nat.add_assoc]

end SimulatesAt

namespace Simulates

theorem bind {f : α → Task β} {g : α → Parser β} (h : Simulates l k t p)
    (hf : ∀ a, Simulates l k (f a) (g a)) : Simulates l k (t >>= f) (p >>= g) :=
  fun i => (h i).bind fun a j _ => hf a j

theorem pure (a : α) : Simulates l k (pure a) (pure a) := fun _ => .pure a

theorem failAt {u : Token} {cause : Cause} :
    Simulates l k (failAt u cause : Task α) (Parser.failAt u cause) := fun _ => .failAt

theorem advance {f : Unit → Task α} {g : Unit → Parser α} (h : Simulates l k (f ()) (g ())) :
    Simulates l k (Machine.advance >>= f) (Parser.advance >>= g) := fun _ => .advance (h _)

theorem ite {c : Prop} [Decidable c] {t' : Task α} {p' : Parser α} (h : Simulates l k t p)
    (h' : Simulates l k t' p') : Simulates l k (if c then t else t') (if c then p else p') := by
  split
  · exact h
  · exact h'

theorem currentToken {f : Token → Task α} {g : Token → Parser α}
    (h : ∀ u, Simulates l k (f u) (g u)) :
    Simulates l k (currentToken >>= f) (Parser.current >>= g) :=
  fun i => .currentToken ((h _ i).congr (by rw [bind_current, l.current_cursorAt]))

theorem peekToken {f : Token → Task α} {g : Token → Parser α}
    (h : ∀ u, Simulates l k (f u) (g u)) :
    Simulates l k (peekToken >>= f) (Parser.peek >>= g) :=
  fun i => .peek (h _ i)

theorem expect (kind : TokenKind) : Simulates l k (expect kind) (Parser.expect kind) := by
  intro i
  refine .peek ?_
  split
  · -- The token that was seen behind the current one is the one taken.
    exact .advance fun s hs => ⟨[], .nil, by rw [Trail.after_nil, ← hs.current]; rfl, rfl⟩
  · exact .failAt

theorem accept (kind : TokenKind) : Simulates l k (accept kind) (Parser.accept kind) :=
  .peekToken fun _ => .ite (.advance (.pure true)) (.pure false)

end Simulates

/-! Loops. Each turn leaves less ahead, so that there is an end to them. -/

namespace Simulates

theorem iterate {σ : Type} {step : σ → Task (Option σ)} {pstep : σ → Parser (Option σ)}
    (h : ∀ x, Simulates l k (step x) (pstep x)) (hadv : ∀ x, (pstep x).Advances)
    {loop : σ → Task σ}
    (hloop : ∀ x, loop x = step x >>= fun o => o.elim (Pure.pure x) loop) (x : σ) :
    Simulates l k (loop x) (Parser.iterate pstep hadv x) := by
  intro i
  induction hn : (l.cursorAt i).ahead.length using Nat.strongRecOn generalizing i x with
  | ind n ih =>
    refine .congr ?_ (Parser.run_iterate pstep hadv x _)
    rw [hloop]
    refine (h x i).bind fun o j hj => ?_
    cases o with
    | none => exact .pure x
    | some y => exact ih _ (hn ▸ hadv x hj) y j rfl

/-- A loop that puts items behind those it has. -/
theorem many {item : Task (Option α)} {pitem : Parser (Option α)} (h : Simulates l k item pitem)
    (hadv : pitem.Advances) {loop : List α → Task (List α)}
    (hloop : ∀ as, loop as = item >>= fun o => o.elim (Pure.pure as) fun a => loop (as ++ [a]))
    (as : List α) :
    Simulates l k (loop as) (do
      let bs ← Parser.many pitem hadv
      Pure.pure (as ++ bs)) := by
  intro i
  induction hn : (l.cursorAt i).ahead.length using Nat.strongRecOn generalizing i as with
  | ind n ih =>
    have hrun : (Parser.many pitem hadv >>= fun bs => Pure.pure (as ++ bs)).run (l.cursorAt i) =
        (pitem >>= fun o => o.elim (Pure.pure as) fun a =>
          Parser.many pitem hadv >>= fun bs => Pure.pure (as ++ [a] ++ bs)).run
            (l.cursorAt i) := by
      rw [Parser.run_bind, Parser.many_run, Parser.run_bind]
      cases pitem.run (l.cursorAt i) with
      | error e d => rfl
      | ok o d =>
        cases o with
        | none => simp [Parser.run_pure]
        | some a =>
          simp only [Option.elim_some, Parser.run_bind]
          cases (Parser.many pitem hadv).run d <;> simp [Parser.run_pure]
    refine .congr ?_ hrun
    rw [hloop]
    refine (h i).bind fun o j hj => ?_
    cases o with
    | none => exact .pure as
    | some a => exact ih _ (hn ▸ hadv hj) (as ++ [a]) j rfl

theorem commaItem {item : Task α} {pitem : Parser α} (h : Simulates l k item pitem) :
    Simulates l k
      (do
        if (← Machine.peekToken).kind = .comma then
          Machine.advance
          let a ← item
          Pure.pure (some a)
        else Pure.pure none)
      (Parser.commaItem pitem) :=
  .peekToken fun _ => .ite (.advance (h.bind fun a => .pure (some a))) (.pure none)

/-- Items with commas between them, up to a closing parenthesis. -/
theorem commaList {item : Task α} {pitem : Parser α} (h : Simulates l k item pitem)
    {loop : List α → Task (List α)}
    (hloop : ∀ as, Simulates l k (loop as) (do
      let bs ← Parser.many (Parser.commaItem pitem) (Parser.commaItem_advances pitem)
      Pure.pure (as ++ bs))) :
    Simulates l k
      (do
        if ← Machine.accept .rightParen then Pure.pure []
        else
          let first ← item
          let as ← loop [first]
          let _ ← Machine.expect .rightParen
          Pure.pure as)
      (Parser.commaList pitem) := by
  refine .bind (.accept .rightParen) fun b => .ite (.pure []) (.bind h fun first => ?_)
  intro i
  refine .congr (.bind (hloop [first] i) fun as j _ =>
    Simulates.bind (.expect .rightParen) (fun _ => .pure as) j) ?_
  simp only [Parser.run_bind]
  cases (Parser.many (Parser.commaItem pitem) _).run (l.cursorAt i) <;> rfl

end Simulates

end Machine

end ScriptReader
