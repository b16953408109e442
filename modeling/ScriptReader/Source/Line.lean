import ScriptReader.Text.Utf8

/-! Lines of a source, each with the line feed that ends it, and the line in
which a byte offset falls. -/

namespace ScriptReader

open Text

/-- A text cut after each line feed. No piece is empty, and the pieces put
together are the text. -/
def splitLines : List Char → List (List Char)
  | [] => []
  | c :: cs =>
    match c == '\n', splitLines cs with
    | true, ls => [c] :: ls
    | false, [] => [[c]]
    | false, l :: ls => (c :: l) :: ls

@[simp] theorem flatten_splitLines (cs : List Char) : (splitLines cs).flatten = cs := by
  induction cs with
  | nil => rfl
  | cons c cs ih =>
    unfold splitLines
    split <;> simp_all

/-- A line as it is met by an offset: its number from 1, its text with the line
feed, and the offset counted from the start of the line. -/
structure Line where
  number : Nat
  chars : List Char
  offset : Nat
deriving DecidableEq, Repr

def Line.text (l : Line) : String := String.ofList l.chars

/-- The line that holds the byte at `offset`, when the first of the lines has
the number `number`. Offsets past the end fall on the end of an unfinished last
line, or on the empty line after a finished one. -/
def locateFrom (number : Nat) : List (List Char) → Nat → Line
  | [], _ => ⟨number, [], 0⟩
  | l :: ls, offset =>
    if offset < byteLength l then ⟨number, l, offset⟩
    else if ls = [] ∧ l.getLast? ≠ some '\n' then ⟨number, l, byteLength l⟩
    else locateFrom (number + 1) ls (offset - byteLength l)

def locate (source : String) (offset : Nat) : Line :=
  locateFrom 1 (splitLines source.toList) offset

end ScriptReader
