import ScriptReader.Proofs.Lossless
import ScriptReader.Proofs.Machine.Basic

/-! Where a machine stands in the tokens of its source, and what moves do to
that. Between the levels that are counted on and off again, a machine only moves
on; it stands at two tokens side by side all the way. -/

namespace ScriptReader

namespace Lexer

theorem skip_succ (l : Lexer) (n : Nat) : l.skip (n + 1) = (l.skip n).next.2 := by
  induction n generalizing l with
  | zero => rfl
  | succ n ih => exact ih l.next.2

/-- The token behind `n` others, which is the end token if there are no more. -/
def token (l : Lexer) (n : Nat) : Token := (l.skip n).next.1

def cursorAt (l : Lexer) (n : Nat) : Cursor := .ofLexer (l.skip n)

theorem skip_skip (l : Lexer) (m n : Nat) : (l.skip m).skip n = l.skip (m + n) := by
  induction m generalizing l with
  | zero => rw [Nat.zero_add]; rfl
  | succ m ih => rw [Nat.succ_add]; exact ih l.next.2

theorem advance_ofLexer (l : Lexer) : (Cursor.ofLexer l).advance = .ofLexer l.next.2 := by
  cases hl : l.next? with
  | none =>
    have hskip := next?_skipLayout_of_none hl
    simp only [Cursor.advance, Cursor.ofLexer, next, hl, Option.getD_none,
      tokens_of_next?_none hl, tokens_of_next?_none hskip, stop_skipLayout, List.tail_nil]
  | some r =>
    have hend := endToken_of_next? hl
    simp only [endToken, Token.ofEnd, Token.mk.injEq, Span.mk.injEq, true_and, and_self] at hend
    simp only [Cursor.advance, Cursor.ofLexer, next, hl, Option.getD_some,
      tokens_of_next?_some hl, List.tail_cons, hend]

theorem current_ofLexer (l : Lexer) : (Cursor.ofLexer l).current = l.next.1 := by
  have h := next_skip l 0
  rw [skip] at h
  rw [h, Cursor.current, Cursor.endToken, Cursor.ofLexer]
  cases l.tokens <;> rfl

theorem advance_cursorAt (l : Lexer) (n : Nat) : (l.cursorAt n).advance = l.cursorAt (n + 1) := by
  rw [cursorAt, cursorAt, advance_ofLexer, skip_succ]

theorem current_cursorAt (l : Lexer) (n : Nat) : (l.cursorAt n).current = l.token n :=
  current_ofLexer _

theorem peek_cursorAt (l : Lexer) (n : Nat) : (l.cursorAt n).peek = l.token (n + 1) := by
  rw [← current_cursorAt, ← advance_cursorAt]
  rfl

end Lexer

namespace Machine

/-- The machine has the `i`th token of a lexer as its current one, at the depth `k`. -/
structure At (l : Lexer) (i k : Nat) (m : Machine) : Prop where
  lexer : m.lexer = l.skip (i + 2)
  current : m.current = l.token i
  peek : m.peek = l.token (i + 1)
  depth : m.depth = k
  tables : m.tables = .standard

theorem at_ofLexer (l : Lexer) : (ofLexer l).At l 0 0 := ⟨rfl, rfl, rfl, rfl, rfl⟩

namespace At

variable {l : Lexer} {i k : Nat} {m : Machine}

theorem advance (h : m.At l i k) : (m.move .advance).At l (i + 1) k where
  lexer := by
    have hskip : l.skip (i + 1 + 2) = (l.skip (i + 2)).next.2 := l.skip_succ (i + 2)
    rw [hskip, ← h.lexer, move]
  current := h.peek
  peek := by
    have htoken : l.token (i + 1 + 1) = (l.skip (i + 2)).next.1 := rfl
    rw [htoken, ← h.lexer, move]
  depth := h.depth
  tables := h.tables

theorem enter (h : m.At l i k) : (m.move .enter).At l i (k + 1) :=
  ⟨h.lexer, h.current, h.peek, congrArg (· + 1) h.depth, h.tables⟩

theorem leave (h : m.At l i (k + 1)) : (m.move .leave).At l i k :=
  ⟨h.lexer, h.current, h.peek, congrArg (· - 1) h.depth, h.tables⟩

theorem record (h : m.At l i k) (e : Diagnostic) : (m.move (.record e)).At l i k :=
  ⟨h.lexer, h.current, h.peek, h.depth, h.tables⟩

theorem clear (h : m.At l i k) : (m.move .clear).At l i 0 :=
  ⟨h.lexer, h.current, h.peek, rfl, h.tables⟩

end At

/-- By how many tokens moves go on. -/
def steps : List Move → Nat
  | [] => 0
  | .advance :: ms => steps ms + 1
  | _ :: ms => steps ms

@[simp] theorem steps_nil : steps [] = 0 := rfl

@[simp] theorem steps_advance (ms : List Move) : steps (.advance :: ms) = steps ms + 1 := rfl

@[simp] theorem steps_enter (ms : List Move) : steps (.enter :: ms) = steps ms := rfl

@[simp] theorem steps_leave (ms : List Move) : steps (.leave :: ms) = steps ms := rfl

@[simp] theorem steps_record (e : Diagnostic) (ms : List Move) :
    steps (.record e :: ms) = steps ms := rfl

@[simp] theorem steps_clear (ms : List Move) : steps (.clear :: ms) = steps ms := rfl

@[simp] theorem steps_append (ms ns : List Move) : steps (ms ++ ns) = steps ms + steps ns := by
  induction ms with
  | nil => simp
  | cons mv ms ih => cases mv <;> simp [ih, Nat.add_right_comm]

/-- At every moment of the moves the machine stands at two tokens side by side, at most as deep as
allowed, and no level is counted off where there is none. -/
def Steady (l : Lexer) (i : Nat) (m : Machine) (ms : List Move) : Prop :=
  ∀ pre post, ms = pre ++ post →
    ∃ d, (m.after pre).At l (i + steps pre) d ∧ d ≤ Parser.maxNesting ∧
      (post.head? = some .leave → 0 < d)

namespace Steady

variable {l : Lexer} {i k k' : Nat} {m : Machine} {ms ns : List Move} {mv : Move}

theorem nil (hm : m.At l i k) (hk : k ≤ Parser.maxNesting) : Steady l i m [] := by
  intro pre post h
  obtain ⟨rfl, rfl⟩ := List.append_eq_nil_iff.mp h.symm
  exact ⟨k, hm, hk, nofun⟩

theorem singleton (hm : m.At l i k) (hk : k ≤ Parser.maxNesting) (hleave : mv = .leave → 0 < k)
    (hm' : (m.move mv).At l (i + steps [mv]) k') (hk' : k' ≤ Parser.maxNesting) :
    Steady l i m [mv] := by
  intro pre post h
  rcases List.cons_eq_append_iff.mp h with ⟨rfl, rfl⟩ | ⟨pre, rfl, hrest⟩
  · exact ⟨k, hm, hk, fun h => hleave (Option.some.inj h)⟩
  · obtain ⟨rfl, rfl⟩ := List.append_eq_nil_iff.mp hrest.symm
    exact ⟨k', hm', hk', nofun⟩

theorem advance (hm : m.At l i k) (hk : k ≤ Parser.maxNesting) : Steady l i m [.advance] :=
  singleton hm hk nofun hm.advance hk

theorem enter (hm : m.At l i k) (hk : k < Parser.maxNesting) : Steady l i m [.enter] :=
  singleton hm (Nat.le_of_lt hk) nofun hm.enter hk

theorem leave (hm : m.At l i (k + 1)) (hk : k < Parser.maxNesting) : Steady l i m [.leave] :=
  singleton hm hk (fun _ => Nat.succ_pos k) hm.leave (Nat.le_of_lt hk)

theorem clear (hm : m.At l i k) (hk : k ≤ Parser.maxNesting) : Steady l i m [.clear] :=
  singleton hm hk nofun hm.clear (Nat.zero_le _)

theorem append (h : Steady l i m ms) (h' : Steady l (i + steps ms) (m.after ms) ns) :
    Steady l i m (ms ++ ns) := by
  intro pre post hsplit
  -- At the seam the move that comes next is one of `ns`, not of `ms`.
  rcases List.append_eq_append_iff.mp hsplit with ⟨r, rfl, rfl⟩ | ⟨r, rfl, rfl⟩
  · rw [after_append, steps_append, ← Nat.add_assoc]
    exact h' r post rfl
  · cases r with
    | nil => simpa using h' [] ns rfl
    | cons mv r => exact h pre (mv :: r) rfl

end Steady

/-- Moves that leave the diagnostics alone. -/
def Quiet (ms : List Move) : Prop := ∀ mv ∈ ms, mv = .advance ∨ mv = .enter ∨ mv = .leave

theorem Quiet.diagnostics_after {ms : List Move} (h : Quiet ms) (m : Machine) :
    (m.after ms).diagnostics = m.diagnostics := by
  induction ms generalizing m with
  | nil => rfl
  | cons mv ms ih =>
    obtain ⟨hmv, hms⟩ := List.forall_mem_cons.mp h
    rw [after_cons, ih hms]
    rcases hmv with rfl | rfl | rfl <;> rfl

/-- Moves that start and end at the depth `k`. Between, they go on and count levels on and off,
which are never too many, and do nothing else. -/
inductive Balanced : Nat → List Move → Prop
  | nil {k : Nat} : Balanced k []
  | advance {k : Nat} {ms : List Move} (h : Balanced k ms) : Balanced k (.advance :: ms)
  | nested {k : Nat} {inner outer : List Move} (hk : k < Parser.maxNesting)
      (hinner : Balanced (k + 1) inner) (houter : Balanced k outer) :
      Balanced k (.enter :: (inner ++ .leave :: outer))

namespace Balanced

variable {l : Lexer} {i k : Nat} {m : Machine} {ms ns : List Move}

theorem append (h : Balanced k ms) (h' : Balanced k ns) : Balanced k (ms ++ ns) := by
  induction h with
  | nil => exact h'
  | advance _ ih => exact .advance (ih h')
  | nested hk hinner _ _ ih =>
    rw [List.cons_append, List.append_assoc, List.cons_append]
    exact .nested hk hinner (ih h')

theorem quiet (h : Balanced k ms) : Quiet ms := by
  induction h with
  | nil => exact List.forall_mem_nil _
  | advance _ ih => exact List.forall_mem_cons.mpr ⟨.inl rfl, ih⟩
  | nested _ _ _ ihinner ihouter =>
    refine List.forall_mem_cons.mpr ⟨.inr (.inl rfl), List.forall_mem_append.mpr ⟨ihinner, ?_⟩⟩
    exact List.forall_mem_cons.mpr ⟨.inr (.inr rfl), ihouter⟩

theorem after (h : Balanced k ms) (hm : m.At l i k) : (m.after ms).At l (i + steps ms) k := by
  induction h generalizing i m with
  | nil => exact hm
  | advance _ ih =>
    have hrest := ih hm.advance
    rwa [Nat.add_right_comm, Nat.add_assoc] at hrest
  | nested _ _ _ ihinner ihouter =>
    have hrest := ihouter (ihinner hm.enter).leave
    rw [Nat.add_assoc] at hrest
    simpa using hrest

theorem steady (h : Balanced k ms) (hk : k ≤ Parser.maxNesting) (hm : m.At l i k) :
    Steady l i m ms := by
  induction h generalizing i m with
  | nil => exact .nil hm hk
  | advance _ ih => exact (Steady.advance hm hk).append (ih hk hm.advance)
  | nested hlt hinner _ ihinner ihouter =>
    have hin := hm.enter
    have hout := hinner.after hin
    exact (Steady.enter hm hlt).append
      ((ihinner hlt hin).append ((Steady.leave hout hlt).append (ihouter hk hout.leave)))

end Balanced

end Machine

end ScriptReader
