import ScriptReader.Text.Blank
import ScriptReader.Text.Utf8
import ScriptReader.Token.Basic

/-! Cutting a source into tokens. A lexer is what is left of the source, with
the byte offset at which that stands; each step takes the layout in front and
the longest token behind it. -/

namespace ScriptReader

open Text

/-- The characters of words. Digits are not among them. -/
def isWordChar (c : Char) : Bool := c.isAlpha || c == '_'

def symbols : List (Char × TokenKind) :=
  [('=', .assign), ('!', .bang), ('+', .plus), ('-', .minus), ('/', .slash), ('*', .asterisk),
   ('<', .lessThan), ('>', .greaterThan), (';', .semicolon), (',', .comma), ('(', .leftParen),
   (')', .rightParen), ('{', .leftBrace), ('}', .rightBrace)]

/-- The kind of a token of the one character `c`, which is illegal if `c` is no symbol. -/
def symbolKind (c : Char) : TokenKind := (symbols.lookup c).getD .illegal

/-- The kind that a symbol has with an equals sign behind it, if the two are one token. -/
def doubledKind? (c : Char) : Option TokenKind :=
  [('=', TokenKind.equal), ('!', .notEqual)].lookup c

structure Lexeme where
  kind : TokenKind
  chars : List Char
  rest : List Char
deriving DecidableEq, Repr

/-- The characters from `c` on that satisfy `p`, where `c` is known to. -/
def Lexeme.ofRun (kindOf : List Char → TokenKind) (p : Char → Bool) (c : Char) (cs : List Char) :
    Lexeme :=
  let run := c :: cs.takeWhile p
  ⟨kindOf run, run, cs.dropWhile p⟩

/-- A symbol, together with the equals sign behind it where they belong together. -/
def Lexeme.ofSymbol (c : Char) (cs : List Char) : Lexeme :=
  match doubledKind? c, cs with
  | some kind, '=' :: rest => ⟨kind, [c, '='], rest⟩
  | _, _ => ⟨symbolKind c, [c], cs⟩

/-- The token that begins with `c`, in a text that goes on with `cs`. -/
def lexeme (c : Char) (cs : List Char) : Lexeme :=
  if isWordChar c then .ofRun (fun run => .ofWord (String.ofList run)) isWordChar c cs
  else if c.isDigit then .ofRun (fun _ => .integer) Char.isDigit c cs
  else .ofSymbol c cs

theorem lexeme_append (c : Char) (cs : List Char) :
    (lexeme c cs).chars ++ (lexeme c cs).rest = c :: cs := by
  unfold lexeme Lexeme.ofRun Lexeme.ofSymbol
  repeat' split
  all_goals simp_all [List.takeWhile_append_dropWhile]

theorem lexeme_chars_ne_nil (c : Char) (cs : List Char) : (lexeme c cs).chars ≠ [] := by
  unfold lexeme Lexeme.ofRun Lexeme.ofSymbol
  repeat' split
  all_goals simp

theorem lexeme_rest_length (c : Char) (cs : List Char) :
    (lexeme c cs).rest.length ≤ cs.length := by
  have h := congrArg List.length (lexeme_append c cs)
  have hp := List.length_pos_iff.mpr (lexeme_chars_ne_nil c cs)
  simp only [List.length_append, List.length_cons] at h
  omega

structure Lexer where
  rest : List Char
  offset : Nat
  file : String
deriving DecidableEq, Repr

namespace Lexer

def ofSource (source : String) (file : Option String) : Lexer := ⟨source.toList, 0, fileName file⟩

def skipLayout (l : Lexer) : Lexer :=
  ⟨l.rest.dropWhile isLayout, l.offset + byteLength (l.rest.takeWhile isLayout), l.file⟩

def stop (l : Lexer) : Position := ⟨saturate ↑(l.offset + byteLength l.rest), l.file⟩

def endToken (l : Lexer) : Token := .ofEnd l.stop

/-- The next token and the lexer behind it, unless only layout is left. -/
def next? (l : Lexer) : Option (Token × Lexer) :=
  let l := l.skipLayout
  match l.rest with
  | [] => none
  | c :: cs =>
    let x := lexeme c cs
    let stop := l.offset + byteLength x.chars
    some (⟨x.kind, String.ofList x.chars, .ofOffsets l.file l.offset stop⟩, ⟨x.rest, stop, l.file⟩)

/-- The next token and the lexer behind it. At the end this is the end token, time and again. -/
def next (l : Lexer) : Token × Lexer := l.next?.getD (l.endToken, l.skipLayout)

theorem rest_length_of_next? {l l' : Lexer} {t : Token} (h : l.next? = some (t, l')) :
    l'.rest.length < l.rest.length := by
  unfold next? at h
  dsimp only at h
  split at h
  · contradiction
  · rename_i c cs he
    obtain ⟨-, rfl⟩ := Prod.mk.inj (Option.some.inj h)
    have hd := (List.dropWhile_suffix isLayout (l := l.rest)).length_le
    have hr := lexeme_rest_length c cs
    change l.rest.dropWhile isLayout = c :: cs at he
    change (lexeme c cs).rest.length < l.rest.length
    rw [he, List.length_cons] at hd
    omega

/-- The tokens that are left, the end token excluded. -/
def tokens (l : Lexer) : List Token :=
  match h : l.next? with
  | none => []
  | some (t, l') =>
    have := rest_length_of_next? h
    t :: l'.tokens
termination_by l.rest.length

theorem tokens_of_next?_none {l : Lexer} (h : l.next? = none) : l.tokens = [] := by
  unfold tokens
  split <;> simp_all

theorem tokens_of_next?_some {l l' : Lexer} {t : Token} (h : l.next? = some (t, l')) :
    l.tokens = t :: l'.tokens := by
  rw [tokens]
  split <;> simp_all

def skip (l : Lexer) : Nat → Lexer
  | 0 => l
  | n + 1 => l.next.2.skip n

end Lexer

/-- The tokens of a source, with the end token as the last. -/
def tokenize (source : String) (file : Option String) : List Token :=
  let l := Lexer.ofSource source file
  l.tokens ++ [l.endToken]

end ScriptReader
