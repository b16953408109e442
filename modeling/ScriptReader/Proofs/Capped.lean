import ScriptReader.Proofs.Grammar.Starts
import ScriptReader.Proofs.Parser.Steps

/-! Reading against a bound on nesting. A reader gives what it would give
without the bound, unless an expression begins too deep; then it stops at the
first one that does. -/

namespace ScriptReader.Parser

variable {α β : Type} {n : Nat} {xs ys : List Start} {c d m : Cursor} {o o' r : Outcome α}

/-- What a reader gives of a phrase with expressions that begin at `xs` and with its last token at
`d`: `o`, unless one of these expressions lies deeper than `n`. -/
def Capped (n : Nat) (xs : List Start) (d : Cursor) (o r : Outcome α) : Prop :=
  match tooDeep? n xs with
  | none => r = o
  | some x => ∃ m, r = .error ⟨.tooDeep maxNesting, x.token.span.start⟩ m ∧ m.Reaches d

theorem capped_iff_of_none (h : tooDeep? n xs = none) : Capped n xs d o r ↔ r = o := by
  simp only [Capped, h]

theorem capped_iff_of_some {x : Start} (h : tooDeep? n xs = some x) :
    Capped n xs d o r ↔
      ∃ m, r = .error ⟨.tooDeep maxNesting, x.token.span.start⟩ m ∧ m.Reaches d := by
  simp only [Capped, h]

theorem capped_of_eq (h : r = o) : Capped n [] d o r := h

theorem Capped.eq (h : Capped n xs d o r) (hn : deepest xs ≤ n) : r = o :=
  (capped_iff_of_none (tooDeep?_eq_none_iff.mpr hn)).mp h

theorem Capped.trans (h : Capped n xs m o r) (hm : m.Reaches d) (h' : Capped n ys d o' o) :
    Capped n (xs ++ ys) d o' r := by
  cases hx : tooDeep? n xs with
  | none =>
    obtain rfl := (capped_iff_of_none hx).mp h
    rwa [Capped, tooDeep?_append, hx, Option.none_or]
  | some x =>
    obtain ⟨k, hr, hk⟩ := (capped_iff_of_some hx).mp h
    exact (capped_iff_of_some (by rw [tooDeep?_append, hx, Option.some_or])).mpr
      ⟨k, hr, hk.trans hm⟩

theorem Capped.bind {p : Parser α} {f : α → Parser β} {a : α} {o : Outcome β}
    (h : Capped n xs m (.ok a m) (p.run c)) (hm : m.Reaches d)
    (hf : Capped n ys d o ((f a).run m)) : Capped n (xs ++ ys) d o ((p >>= f).run c) := by
  have hfirst : Capped n xs m ((f a).run m) ((p >>= f).run c) := by
    cases hx : tooDeep? n xs with
    | none => exact (capped_iff_of_none hx).mpr (run_bind_of_ok ((capped_iff_of_none hx).mp h))
    | some x =>
      obtain ⟨k, hr, hk⟩ := (capped_iff_of_some hx).mp h
      exact (capped_iff_of_some hx).mpr ⟨k, run_bind_of_error hr, hk⟩
  exact hfirst.trans hm hf

/-- What is read behind the last expression of a phrase. -/
theorem Capped.bind_eq {p : Parser α} {f : α → Parser β} {a : α} {o : Outcome β}
    (h : Capped n xs m (.ok a m) (p.run c)) (hm : m.Reaches d) (hf : (f a).run m = o) :
    Capped n xs d o ((p >>= f).run c) := by
  have hb := h.bind hm (capped_of_eq hf)
  rwa [List.append_nil] at hb

theorem Capped.inner (h : Capped n xs d o r) : Capped (n + 1) (xs.map .inner) d o r := by
  rw [Capped, tooDeep?_inner]
  cases hx : tooDeep? n xs with
  | none => exact (capped_iff_of_none hx).mp h
  | some x => exact (capped_iff_of_some hx).mp h

theorem Capped.whole {t : Token} (h : Capped (n + 1) xs d o r) :
    Capped (n + 1) (⟨1, t⟩ :: xs) d o r := by
  rwa [Capped, tooDeep?_whole]

theorem capped_expressionWithin_zero {power : BindingPower} {t : Token} {ts : List Token}
    {o : Outcome Expr} (hs : c.Spans (t :: ts) d) :
    Capped 0 (⟨1, t⟩ :: xs) d o ((expressionWithin 0 power).run c) := by
  refine (capped_iff_of_some (x := ⟨1, t⟩) rfl).mpr ⟨c, ?_, hs.reaches⟩
  rw [expressionWithin, bind_current, run_failAt, hs.current]

end ScriptReader.Parser
