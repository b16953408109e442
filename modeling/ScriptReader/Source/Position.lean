/-! Places in a source: a byte offset together with the name of the source.
Offsets are kept in 32 bits; a place further on is recorded at the last one. -/

namespace ScriptReader

def maxOffset : Nat := 4294967295

/-- The recorded offset for the byte offset `n`; whatever 32 bits cannot hold
becomes the largest offset. -/
def saturate (n : Int) : Nat := if 0 ≤ n ∧ n ≤ maxOffset then n.toNat else maxOffset

structure Position where
  offset : Nat
  file : String
deriving DecidableEq, Repr

/-- The place of a diagnostic that belongs to no source. -/
def Position.null : Position := ⟨0, "<null>"⟩

/-- The name of a source that was given none. -/
def fileName (file : Option String) : String := file.getD "shell"

/-- A stretch of a source, the end excluded. -/
structure Span where
  start : Position
  stop : Position
deriving DecidableEq, Repr

def Span.ofOffsets (file : String) (start stop : Int) : Span :=
  ⟨⟨saturate start, file⟩, ⟨saturate stop, file⟩⟩

theorem saturate_natCast (n : Nat) : saturate n = min n maxOffset := by
  simp only [saturate, Int.toNat_natCast]
  split <;> omega

end ScriptReader
