import ScriptReader.Diagnostic.Basic
import ScriptReader.Parser.Cursor

/-! Parsers: what they read from a cursor on, or the diagnostic at which they
stop, and the cursor that they leave behind. A parser only ever moves forward. -/

namespace ScriptReader

inductive Outcome (α : Type) where
  | ok (value : α) (cursor : Cursor)
  | error (diagnostic : Diagnostic) (cursor : Cursor)

namespace Outcome

variable {α β γ : Type}

def cursor : Outcome α → Cursor
  | ok _ c | error _ c => c

@[simp] theorem cursor_ok (a : α) (c : Cursor) : (ok a c).cursor = c := rfl

@[simp] theorem cursor_error (e : Diagnostic) (c : Cursor) :
    (error e c : Outcome α).cursor = c := rfl

def map (f : α → β) : Outcome α → Outcome β
  | ok a c => ok (f a) c
  | error e c => error e c

@[simp] theorem map_ok (f : α → β) (a : α) (c : Cursor) : (ok a c).map f = ok (f a) c := rfl

@[simp] theorem map_error (f : α → β) (e : Diagnostic) (c : Cursor) :
    (error e c).map f = error e c := rfl

theorem map_map (f : α → β) (g : β → γ) (o : Outcome α) :
    (o.map f).map g = o.map fun a => g (f a) := by
  cases o <;> rfl

def result : Outcome α → Except Diagnostic α
  | ok a _ => .ok a
  | error e _ => .error e

end Outcome

structure Parser (α : Type) where
  run : Cursor → Outcome α
  forward (c : Cursor) : c.Reaches (run c).cursor

namespace Parser

variable {α β : Type}

instance : Monad Parser where
  pure a := ⟨fun c => .ok a c, fun c => .refl c⟩
  bind p f :=
    { run := fun c =>
        match p.run c with
        | .ok a d => (f a).run d
        | .error e d => .error e d
      forward := fun c => by
        have h := p.forward c
        revert h
        cases p.run c with
        | ok a d => exact fun h => h.trans ((f a).forward d)
        | error e d => exact id }

theorem run_pure (a : α) (c : Cursor) : (pure a : Parser α).run c = .ok a c := rfl

theorem run_bind (p : Parser α) (f : α → Parser β) (c : Cursor) :
    (p >>= f).run c =
      match p.run c with
      | .ok a d => (f a).run d
      | .error e d => .error e d := rfl

def current : Parser Token := ⟨fun c => .ok c.current c, fun c => .refl c⟩

def peek : Parser Token := ⟨fun c => .ok c.peek c, fun c => .refl c⟩

def advance : Parser Unit := ⟨fun c => .ok () c.advance, Cursor.reaches_advance⟩

/-- Stops with a diagnostic at the place of a token. -/
def failAt (t : Token) (cause : Cause) : Parser α :=
  ⟨fun c => .error ⟨cause, t.span.start⟩ c, fun c => .refl c⟩

/-- Moves on to the next token and gives it, if it has the kind that has to stand there. -/
def expect (kind : TokenKind) : Parser Token := do
  let t ← peek
  if t.kind = kind then
    advance
    pure t
  else failAt t (.unexpected kind t.kind)

/-- Moves on to the next token if it has the kind that may stand there. -/
def accept (kind : TokenKind) : Parser Bool := do
  let t ← peek
  if t.kind = kind then
    advance
    pure true
  else pure false

end Parser

end ScriptReader
