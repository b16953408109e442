/-! Whole numbers in decimal digits. -/

namespace ScriptReader.Text

/-- The value of a run of decimal digits. Leading zeros do not count. -/
def digitsValue (digits : List Char) : Nat := Nat.ofDigitChars 10 digits 0

def decimalChars : Int → List Char
  | .ofNat n => Nat.toDigits 10 n
  | .negSucc n => '-' :: Nat.toDigits 10 (n + 1)

/-- A whole number in the fewest digits, behind a minus sign if it is negative. -/
def decimal (n : Int) : String := String.ofList (decimalChars n)

@[simp] theorem digitsValue_decimalChars (n : Nat) : digitsValue (decimalChars n) = n :=
  Nat.ofDigitChars_toDigits (by decide) (by decide)

end ScriptReader.Text
