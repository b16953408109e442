import ScriptReader.Proofs.LongestMatch

/-! A scanner that goes through its input by bytes. It knows where the current
character begins, where it ends and which one it is, and takes slices of the
input between bytes. A slice fails if it is cut through a character or reaches
out of the input. -/

namespace ScriptReader

namespace Text

/-- The boundary between characters at the byte `n`, if there is one. -/
def boundary? (s : String) (n : Nat) : Option s.Pos :=
  if h : String.Pos.Raw.IsValid s ⟨n⟩ then some ⟨⟨n⟩, h⟩ else none

def sliceFrom? (s : String) (n : Nat) : Option String :=
  (boundary? s n).map fun p => (s.sliceFrom p).copy

def slice? (s : String) (m n : Nat) : Option String := do
  let p ← boundary? s m
  let q ← boundary? s n
  let slice ← s.slice? p q
  pure slice.copy

/-- How many bytes the longest run of characters has that satisfy `p`, if there is one at the
beginning. -/
def runLength? (p : Char → Bool) (s : String) : Option Nat :=
  match s.toList.takeWhile p with
  | [] => none
  | w => some (byteLength w)

end Text

open Text

structure Scanner where
  input : String
  /-- Where the current character begins. -/
  position : Nat
  /-- Where the current character ends. -/
  nextPosition : Nat
  /-- None at the end of the input. -/
  current : Option Char
  file : String

namespace Scanner

variable {α : Type}

/-- What runs on a scanner. There is no result if a slice fails or a loop does not end. -/
abbrev Run := StateT Scanner Option

def look (v : Scanner → α) : Run α := do
  let s ← get
  pure (v s)

def sliceFrom (n : Nat) : Run String := fun s => (sliceFrom? s.input n).map fun text => (text, s)

def slice (m n : Nat) : Run String := fun s => (slice? s.input m n).map fun text => (text, s)

def readChar : Run Unit := do
  modify fun s => { s with position := s.nextPosition }
  let rest ← sliceFrom (← look position)
  modify fun s => { s with current := rest.toList.head? }
  modify fun s => { s with nextPosition := s.position + s.current.elim 0 Char.utf8Size }

def ofSource (source : String) (file : Option String) : Option Scanner :=
  (readChar.run ⟨source, 0, 0, none, fileName file⟩).map Prod.snd

/-- The character behind the current one. -/
def peekChar : Run (Option Char) := do
  let rest ← sliceFrom (← look nextPosition)
  pure rest.toList.head?

/-- A loop that reads characters. -/
structure Loop where
  goesOn : Scanner → Bool

def Loop.readOn (l : Loop) : Run Unit := do
  if ← look l.goesOn then
    readChar
    l |>.readOn
  else pure ()
partial_fixpoint

def skipLayout : Run Unit := Loop.readOn ⟨fun s => s.current.any isLayout⟩

/-- Goes on as long as the byte `stop` is further on. -/
def readTo (stop : Nat) : Run Unit := Loop.readOn ⟨fun s => s.position < stop⟩

/-- The token that ends where the scanner stands. -/
def token (kind : TokenKind) (text : String) (start : Nat) : Run Token :=
  look fun s => ⟨kind, text, .ofOffsets s.file start s.position⟩

/-- The current character as a token. -/
def single (kind : TokenKind) : Run Token := do
  let start ← look position
  let text ← slice start (← look nextPosition)
  readChar
  token kind text start

/-- The current character and the `=` behind it as a token, or the character alone if no `=` stands
there. -/
def withEquals (combined alone : TokenKind) : Run Token := do
  if (← peekChar) = some '=' then
    let start ← look position
    readChar
    readChar
    let text ← slice start (← look position)
    token combined text start
  else single alone

/-- The run of characters that satisfy `p`, with the byte at which it begins. -/
def run (p : Char → Bool) : Run (Nat × String) := do
  let start ← look position
  let rest ← sliceFrom start
  readTo (start + (runLength? p rest).getD 0)
  let text ← slice start (← look position)
  pure (start, text)

/-- The token that begins with `c`, where the scanner stands. -/
def nextFrom (c : Char) : Run Token :=
  match c with
  | '=' => withEquals .equal .assign
  | '!' => withEquals .notEqual .bang
  | '+' => single .plus
  | '-' => single .minus
  | '/' => single .slash
  | '*' => single .asterisk
  | '<' => single .lessThan
  | '>' => single .greaterThan
  | ';' => single .semicolon
  | ',' => single .comma
  | '(' => single .leftParen
  | ')' => single .rightParen
  | '{' => single .leftBrace
  | '}' => single .rightBrace
  | c =>
    if isWordChar c then do
      let (start, word) ← run isLetter
      token (.ofWord word) word start
    else if c.isDigit then do
      let (start, number) ← run isDecimal
      token .integer number start
    else single .illegal

def next : Run Token := do
  skipLayout
  match ← look current with
  | none => token .eof "" (← look position)
  | some c => nextFrom c

/-- As many tokens in a row as are asked for. -/
def nextTokens : Nat → Run (List Token)
  | 0 => pure []
  | n + 1 => do
    let t ← next
    let ts ← nextTokens n
    pure (t :: ts)

/-! What holds of a scanner between its steps. -/

/-- The two ends of the current character are in the input and cut no character, and the current
character is the one that is found between them. -/
structure Coherent (s : Scanner) : Prop where
  position_le : s.position ≤ s.nextPosition
  nextPosition_le : s.nextPosition ≤ s.input.utf8ByteSize
  boundary : String.Pos.Raw.IsValid s.input ⟨s.position⟩
  nextBoundary : String.Pos.Raw.IsValid s.input ⟨s.nextPosition⟩
  current_eq : s.current = s.input.toByteArray.utf8DecodeChar? s.position
  current_eq_none_iff : s.current = none ↔ s.position = s.input.utf8ByteSize
  length_eq : s.nextPosition - s.position = s.current.elim 0 Char.utf8Size

end Scanner

end ScriptReader
