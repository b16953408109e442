import Mathlib.Data.List.Basic
import ScriptReader.Parser.Cursor

/-! Stretches of tokens between two cursors. A reader starts at the first token
of what it reads and ends at the last one, so the stretches of two readers that
follow one another fit together with one step between them. -/

namespace ScriptReader.Cursor

/-- The tokens from the current token of `c` up to that of `d`, both included. -/
structure Spans (c : Cursor) (ts : List Token) (d : Cursor) : Prop where
  ahead : c.ahead = ts ++ d.ahead.tail
  last : ts.getLast? = d.ahead.head?
  ne_nil : ts ≠ []
  stop : d.stop = c.stop

variable {c d : Cursor} {t : Token} {ts ls rs rest : List Token}

@[simp] theorem current_advance (c : Cursor) : c.advance.current = c.peek := rfl

@[simp] theorem ahead_advance (c : Cursor) : c.advance.ahead = c.ahead.tail := rfl

@[simp] theorem stop_advance (c : Cursor) : c.advance.stop = c.stop := rfl

theorem current_of_head? (h : c.ahead.head? = some t) : c.current = t := by
  simp [current, List.headD_eq_head?_getD, h]

theorem exists_current (c : Cursor) : ∃ rest, c.ahead ++ [c.endToken] = c.current :: rest := by
  obtain ⟨ts, stop⟩ := c
  cases ts with
  | nil => exact ⟨[], rfl⟩
  | cons t ts => exact ⟨_, rfl⟩

theorem head?_of_current (h : c.current.kind ≠ .eof) : c.ahead.head? = some c.current := by
  have hp := ahead_length_pos_of_current h
  cases ha : c.ahead with
  | nil => simp [ha] at hp
  | cons t ts => simp [current, ha]

theorem spans_singleton : c.Spans [t] d ↔ d = c ∧ c.ahead.head? = some t := by
  obtain ⟨cs, s⟩ := c
  obtain ⟨ds, s'⟩ := d
  constructor
  · rintro ⟨ha, hl, -, hs⟩
    cases ds with
    | nil => simp at hl
    | cons u us => simp_all
  · rintro ⟨hd, hh⟩
    cases cs with
    | nil => simp at hh
    | cons u us =>
      simp only [List.head?_cons, Option.some.injEq] at hh
      subst hh
      cases hd
      exact ⟨rfl, rfl, by simp, rfl⟩

theorem spans_append (hl : ls ≠ []) (hr : rs ≠ []) :
    c.Spans (ls ++ rs) d ↔ ∃ m, c.Spans ls m ∧ m.advance.Spans rs d := by
  constructor
  · rintro ⟨ha, hh, -, hs⟩
    obtain ⟨last, hm⟩ : ∃ last, ls.getLast? = some last :=
      ⟨ls.getLast hl, List.getLast?_eq_some_getLast hl⟩
    refine ⟨⟨last :: (rs ++ d.ahead.tail), c.stop⟩, ⟨?_, hm, hl, rfl⟩, ⟨rfl, ?_, hr, hs⟩⟩
    · simpa using ha
    · rw [← hh, List.getLast?_append_of_ne_nil _ hr]
  · rintro ⟨m, h, h'⟩
    refine ⟨?_, ?_, by simp [hl], h'.stop.trans h.stop⟩
    · have ha := h'.ahead
      rw [ahead_advance] at ha
      rw [h.ahead, ha, List.append_assoc]
    · rw [List.getLast?_append_of_ne_nil _ hr]
      exact h'.last

theorem spans_cons (hr : rs ≠ []) :
    c.Spans (t :: rs) d ↔ c.ahead.head? = some t ∧ c.advance.Spans rs d := by
  rw [← List.singleton_append, spans_append (by simp) hr]
  constructor
  · rintro ⟨m, h, h'⟩
    obtain ⟨rfl, hh⟩ := spans_singleton.mp h
    exact ⟨hh, h'⟩
  · rintro ⟨hh, h'⟩
    exact ⟨c, spans_singleton.mpr ⟨rfl, hh⟩, h'⟩

theorem Spans.head? (h : c.Spans (t :: rs) d) : c.ahead.head? = some t := by
  simp [h.ahead]

theorem Spans.current (h : c.Spans (t :: rs) d) : c.current = t := current_of_head? h.head?

theorem Spans.peek {u : Token} (h : c.Spans (t :: u :: rs) d) : c.peek = u :=
  ((spans_cons (by simp)).mp h).2.current

theorem Spans.exists_concat (h : c.Spans (ts ++ [t]) d) (hne : ts ≠ []) :
    ∃ m, c.Spans ts m ∧ m.peek = t ∧ d = m.advance := by
  obtain ⟨m, hm, hlast⟩ := (spans_append hne (by simp)).mp h
  exact ⟨m, hm, hlast.current, (spans_singleton.mp hlast).1⟩

theorem exists_spans (h : c.ahead = ts ++ rest) (hne : ts ≠ []) :
    ∃ d : Cursor, c.Spans ts d ∧ d.advance = ⟨rest, c.stop⟩ :=
  ⟨⟨ts.getLast hne :: rest, c.stop⟩,
    ⟨h, by simp [List.getLast?_eq_some_getLast hne], hne, rfl⟩, rfl⟩

theorem Spans.trans {m : Cursor} (h : c.Spans ls m) (h' : m.advance.Spans rs d) :
    c.Spans (ls ++ rs) d :=
  (spans_append h.ne_nil h'.ne_nil).mpr ⟨m, h, h'⟩

theorem Spans.reaches (h : c.Spans ts d) : c.Reaches d := by
  refine ⟨⟨ts.dropLast, ?_⟩, h.stop⟩
  have hl := h.last
  rw [h.ahead]
  cases hd : d.ahead with
  | nil => simp [hd, h.ne_nil] at hl
  | cons t us =>
    rw [hd, List.head?_cons] at hl
    rw [List.tail_cons, ← List.singleton_append, ← List.append_assoc,
      List.dropLast_append_getLast? t (by simp [hl])]

theorem spans_of_ahead (h : c.ahead = ts ++ d.ahead) (hs : d.stop = c.stop)
    (hd : d.current.kind ≠ .eof) : c.Spans (ts ++ [d.current]) d := by
  have hh := head?_of_current hd
  refine ⟨?_, by simp [hh], by simp, hs⟩
  rw [h, List.append_assoc, List.singleton_append, List.cons_head?_tail (by simp [hh])]

theorem spans_current (h : c.current.kind ≠ .eof) : c.Spans [c.current] c :=
  spans_singleton.mpr ⟨rfl, head?_of_current h⟩

theorem spans_peek (h : c.peek.kind ≠ .eof) : c.advance.Spans [c.peek] c.advance :=
  spans_current (c := c.advance) h

end ScriptReader.Cursor
