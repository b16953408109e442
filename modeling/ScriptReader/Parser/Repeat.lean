import ScriptReader.Parser.Basic

/-! Parsers that are run again and again. Whatever is run again has moved on, so
there is an end to it. -/

namespace ScriptReader.Parser

variable {α σ : Type}

/-- Whenever `p` gives `some` value, it has moved on. -/
def Advances (p : Parser (Option α)) : Prop :=
  ∀ ⦃c a d⦄, p.run c = .ok (some a) d → d.ahead.length < c.ahead.length

/-- Runs `step` on what it gave before, until it gives nothing. -/
def iterateFrom (step : σ → Parser (Option σ)) (h : ∀ s, (step s).Advances) (s : σ) (c : Cursor) :
    Outcome σ :=
  match he : (step s).run c with
  | .ok (some s') d =>
    have := h s he
    iterateFrom step h s' d
  | .ok none d => .ok s d
  | .error e d => .error e d
termination_by c.ahead.length

theorem iterateFrom_eq (step : σ → Parser (Option σ)) (h : ∀ s, (step s).Advances) (s : σ)
    (c : Cursor) :
    iterateFrom step h s c =
      match (step s).run c with
      | .ok (some s') d => iterateFrom step h s' d
      | .ok none d => .ok s d
      | .error e d => .error e d := by
  rw [iterateFrom]
  split <;> simp_all

theorem iterateFrom_forward (step : σ → Parser (Option σ)) (h : ∀ s, (step s).Advances) (s : σ)
    (c : Cursor) : c.Reaches (iterateFrom step h s c).cursor := by
  fun_induction iterateFrom step h s c with
  | case1 s c s' d he _ ih => exact Cursor.Reaches.trans (by simpa [he] using (step s).forward c) ih
  | case2 s c d he => simpa [he] using (step s).forward c
  | case3 s c e d he => simpa [he] using (step s).forward c

def iterate (step : σ → Parser (Option σ)) (h : ∀ s, (step s).Advances) (s : σ) : Parser σ :=
  ⟨iterateFrom step h s, iterateFrom_forward step h s⟩

/-- One item more in front of those before it, which come last first. -/
def consItem (item : Parser (Option α)) (items : List α) : Parser (Option (List α)) := do
  match ← item with
  | some a => pure (some (a :: items))
  | none => pure none

theorem consItem_run (item : Parser (Option α)) (items : List α) (c : Cursor) :
    (consItem item items).run c = (item.run c).map fun o => o.map (· :: items) := by
  rw [consItem, run_bind]
  cases item.run c with
  | error e d => rfl
  | ok o d => cases o <;> rfl

theorem consItem_advances {item : Parser (Option α)} (h : item.Advances) (items : List α) :
    (consItem item items).Advances := by
  intro c as d hr
  rw [consItem_run] at hr
  cases he : item.run c with
  | error e d => simp [he] at hr
  | ok o d =>
    cases o with
    | none => simp [he] at hr
    | some a =>
      simp only [he, Outcome.map_ok, Outcome.ok.injEq] at hr
      exact hr.2 ▸ h he

/-- All items up to where there is none. -/
def many (item : Parser (Option α)) (h : item.Advances) : Parser (List α) := do
  let items ← iterate (consItem item) (consItem_advances h) []
  pure items.reverse

theorem iterateFrom_consItem {item : Parser (Option α)} (h : item.Advances) (items : List α)
    (c : Cursor) :
    iterateFrom (consItem item) (consItem_advances h) items c =
      (iterateFrom (consItem item) (consItem_advances h) [] c).map (· ++ items) := by
  induction hn : c.ahead.length using Nat.strongRecOn generalizing c items with
  | ind n ih =>
    rw [iterateFrom_eq, iterateFrom_eq (s := [])]
    simp only [consItem_run]
    cases he : item.run c with
    | error e d => rfl
    | ok o d =>
      cases o with
      | none => rfl
      | some a =>
        have hd : d.ahead.length < n := hn ▸ h he
        simp only [Outcome.map_ok, Option.map_some]
        rw [ih _ hd (a :: items) d rfl, ih _ hd [a] d rfl, Outcome.map_map]
        simp

theorem many_run {item : Parser (Option α)} (h : item.Advances) (c : Cursor) :
    (many item h).run c =
      match item.run c with
      | .ok (some a) d => ((many item h).run d).map (a :: ·)
      | .ok none d => .ok [] d
      | .error e d => .error e d := by
  have hm : ∀ d, (many item h).run d =
      (iterateFrom (consItem item) (consItem_advances h) [] d).map List.reverse := by
    intro d
    rw [many, run_bind]
    simp only [iterate]
    cases iterateFrom (consItem item) (consItem_advances h) [] d <;> rfl
  rw [hm, iterateFrom_eq]
  simp only [consItem_run]
  cases item.run c with
  | error e d => rfl
  | ok o d =>
    cases o with
    | none => rfl
    | some a =>
      simp only [Outcome.map_ok, Option.map_some]
      rw [iterateFrom_consItem h, hm, Outcome.map_map, Outcome.map_map]
      simp

end ScriptReader.Parser
