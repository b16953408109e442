import ScriptReader.Proofs.Grammar.Basic
import ScriptReader.Proofs.Parser.Steps

/-! A source within another. Its tokens stand there at other places, and more
tokens stand behind them. A reader that does not look behind the end of its own
source does the same in both. -/

namespace ScriptReader

/-- Other places for tokens, and for diagnostics that point at them. -/
structure Relocation where
  token : Token → Token
  place : Position → Position
  kind_token (t : Token) : (token t).kind = t.kind
  text_token (t : Token) : (token t).text = t.text
  start_token (t : Token) : (token t).span.start = place t.span.start

def Relocation.same : Relocation where
  token := id
  place := id
  kind_token _ := rfl
  text_token _ := rfl
  start_token _ := rfl

def Relocation.diagnostic (r : Relocation) (e : Diagnostic) : Diagnostic :=
  ⟨e.cause, r.place e.position⟩

/-- Other places for the tokens of a source, the tokens behind them and the new end. -/
structure Embedding extends Relocation where
  more : List Token
  stop : Position

namespace Embedding

/-- The cursor at the same token of the larger source. -/
def cursor (m : Embedding) (c : Cursor) : Cursor := ⟨c.ahead.map m.token ++ m.more, m.stop⟩

/-- The same token is current in both sources, and one step leads to the same place. -/
structure Sees (m : Embedding) (c : Cursor) : Prop where
  current : (m.cursor c).current = m.token c.current
  advance : (m.cursor c).advance = m.cursor c.advance

theorem sees_of_ne_nil (m : Embedding) {c : Cursor} (h : c.ahead ≠ []) : m.Sees c := by
  obtain ⟨ts, stop⟩ := c
  cases ts with
  | nil => contradiction
  | cons t ts => exact ⟨rfl, rfl⟩

/-- What is read in the larger source, if the same is read. -/
def outcome {α β : Type} (m : Embedding) (μ : α → β) : Outcome α → Outcome β
  | .ok a c => .ok (μ a) (m.cursor c)
  | .error e c => .error (m.diagnostic e) (m.cursor c)

/-- Cursors from which a source is read without looking behind its end. The end is not in sight
but behind a semicolon, and in a block not before the brace that closes it. -/
structure Region (m : Embedding) where
  At : Cursor → Prop
  InBlock : Cursor → Prop
  sees {c : Cursor} (h : At c) : m.Sees c
  advance {c : Cursor} (h : At c) (hk : c.current.kind ≠ .semicolon) : At c.advance
  enter {c : Cursor} (h : At c) (hk : c.current.kind = .leftBrace) : InBlock c.advance
  inside {c : Cursor} (h : InBlock c) : At c
  statement {c d : Cursor} {ts : List Token} {s : Stmt} (h : InBlock c) (hs : c.Spans ts d)
    (D : StmtDerivation ts s) : InBlock d.advance
  reaches {c d : Cursor} (h : At c) (hr : c.Reaches d) (hd : d.ahead ≠ []) : At d
  skip {c : Cursor} (h : At c) : At (c.skipTo [.semicolon, .eof]) ∧
    (m.cursor c).skipTo [.semicolon, .eof] = m.cursor (c.skipTo [.semicolon, .eof])

variable {m : Embedding} {R : m.Region} {α β γ δ : Type} {μ : α → γ} {ν : β → δ} {c d : Cursor}

/-- The same is read in the larger source, and the reader is not yet at the end of its own. -/
def Agrees (R : m.Region) (μ : α → γ) (o : Outcome α) (o' : Outcome γ) : Prop :=
  o' = m.outcome μ o ∧ R.At o.cursor

theorem agrees_pure (h : R.At c) {a : α} {b : γ} (hb : b = μ a) :
    Agrees R μ ((pure a : Parser α).run c) ((pure b : Parser γ).run (m.cursor c)) := by
  subst hb
  exact ⟨rfl, h⟩

theorem agrees_failAt (h : R.At c) (t : Token) (cause : Cause) :
    Agrees R μ ((Parser.failAt t cause).run c)
      ((Parser.failAt (m.token t) cause).run (m.cursor c)) := by
  refine ⟨?_, h⟩
  rw [Parser.run_failAt, Parser.run_failAt, outcome, Relocation.diagnostic, m.start_token]

theorem Agrees.bind {p : Parser α} {q : Parser γ} {f : α → Parser β} {g : γ → Parser δ}
    {c' : Cursor} (h : Agrees R μ (p.run c) (q.run c'))
    (hf : ∀ a d, p.run c = .ok a d → R.At d →
      Agrees R ν ((f a).run d) ((g (μ a)).run (m.cursor d))) :
    Agrees R ν ((p >>= f).run c) ((q >>= g).run c') := by
  obtain ⟨hq, hat⟩ := h
  rw [Parser.run_bind, Parser.run_bind, hq]
  cases hp : p.run c with
  | ok a d =>
    rw [hp] at hat
    exact hf a d hp hat
  | error e d =>
    rw [hp] at hat
    exact ⟨rfl, hat⟩

theorem current_cursor (h : R.At c) : (m.cursor c).current = m.token c.current :=
  (R.sees h).current

theorem advance_cursor (h : R.At c) : (m.cursor c).advance = m.cursor c.advance :=
  (R.sees h).advance

theorem peek_cursor (h : R.At c) (hk : c.current.kind ≠ .semicolon) :
    (m.cursor c).peek = m.token c.peek := by
  rw [← Cursor.current_advance, advance_cursor h, current_cursor (R.advance h hk),
    Cursor.current_advance]

theorem agrees_expect (h : R.At c) (hk : c.current.kind ≠ .semicolon) (kind : TokenKind) :
    Agrees R m.token ((Parser.expect kind).run c) ((Parser.expect kind).run (m.cursor c)) := by
  rw [Parser.run_expect, Parser.run_expect, peek_cursor h hk, m.kind_token]
  by_cases hp : c.peek.kind = kind
  · rw [if_pos hp, if_pos hp, advance_cursor h]
    exact ⟨rfl, R.advance h hk⟩
  · rw [if_neg hp, if_neg hp, m.start_token]
    exact ⟨rfl, h⟩

theorem agrees_accept (h : R.At c) (hk : c.current.kind ≠ .semicolon) (kind : TokenKind) :
    Agrees R id ((Parser.accept kind).run c) ((Parser.accept kind).run (m.cursor c)) := by
  rw [Parser.run_accept, Parser.run_accept, peek_cursor h hk, m.kind_token]
  by_cases hp : c.peek.kind = kind
  · rw [if_pos hp, if_pos hp, advance_cursor h]
    exact ⟨rfl, R.advance h hk⟩
  · rw [if_neg hp, if_neg hp]
    exact ⟨rfl, h⟩

theorem agrees_many {item item' : Parser (Option α)} {ha : item.Advances}
    {μ : α → α} {ha' : item'.Advances} {I : Cursor → Prop}
    (hitem : ∀ ⦃c⦄, I c → Agrees R (Option.map μ) (item.run c) (item'.run (m.cursor c)))
    (hinv : ∀ ⦃c a d⦄, I c → item.run c = .ok (some a) d → I d) (hc : I c) :
    Agrees R (List.map μ) ((Parser.many item ha).run c)
      ((Parser.many item' ha').run (m.cursor c)) := by
  induction hn : c.ahead.length using Nat.strongRecOn generalizing c with
  | ind n ih =>
    rw [Parser.run_many, Parser.run_many]
    refine (hitem hc).bind fun o d ho hd => ?_
    cases o with
    | none => exact agrees_pure hd rfl
    | some a =>
      refine (ih _ (hn ▸ ha ho) (hinv hc ho) rfl).bind fun as d' _ hd' => ?_
      exact agrees_pure hd' rfl

end Embedding

end ScriptReader
