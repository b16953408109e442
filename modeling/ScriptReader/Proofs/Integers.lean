import ScriptReader.Proofs.Failing.Descriptions
import ScriptReader.Proofs.LongestMatch
import ScriptReader.Proofs.Machine.Reachable
import ScriptReader.Proofs.RoundTrip

/-! Integers of 64 bits. They are made of one digit after the other, and refused
at the digit with which they become too large. Of the texts that tokens have,
that reads those of numbers in range and no others. -/

namespace ScriptReader

open Text

/-- The number that the digits make behind `value`, if it is never more than `limit`. -/
def checkedValue? (limit value : Nat) : List Char → Option Nat
  | [] => some value
  | c :: cs =>
    let next := 10 * value + (c.toNat - '0'.toNat)
    if c.isDigit = true ∧ next ≤ limit then checkedValue? limit next cs else none

/-- The integer of 64 bits that a text stands for, with a sign in front of the digits or none. -/
def signedValue? (text : String) : Option Int :=
  match text.toList with
  | [] | ['-'] | ['+'] => none
  | '-' :: digits => (checkedValue? (Parser.maxInteger + 1) 0 digits).map fun n : Nat => -(n : Int)
  | '+' :: digits => (checkedValue? Parser.maxInteger 0 digits).map fun n : Nat => (n : Int)
  | digits => (checkedValue? Parser.maxInteger 0 digits).map fun n : Nat => (n : Int)

theorem le_ofDigitChars (value : Nat) (cs : List Char) : value ≤ Nat.ofDigitChars 10 cs value := by
  induction cs generalizing value with
  | nil => exact Nat.le_refl _
  | cons c cs ih =>
    have hle := ih (10 * value + (c.toNat - '0'.toNat))
    rw [Nat.ofDigitChars_cons]
    omega

/-- To check every step is to check the result. -/
theorem checkedValue?_eq {limit value : Nat} (h : value ≤ limit) (cs : List Char) :
    checkedValue? limit value cs =
      if cs.all Char.isDigit = true ∧ Nat.ofDigitChars 10 cs value ≤ limit then
        some (Nat.ofDigitChars 10 cs value)
      else none := by
  induction cs generalizing value with
  | nil => simp [checkedValue?, h]
  | cons c cs ih =>
    rw [checkedValue?, Nat.ofDigitChars_cons, List.all_cons]
    by_cases hnext : c.isDigit = true ∧ 10 * value + (c.toNat - '0'.toNat) ≤ limit
    · rw [if_pos hnext, ih hnext.2, hnext.1, Bool.true_and]
    · have hle := le_ofDigitChars (10 * value + (c.toNat - '0'.toNat)) cs
      rw [if_neg hnext, if_neg]
      rintro ⟨hall, hlimit⟩
      rw [Bool.and_eq_true] at hall
      exact hnext ⟨hall.1, Nat.le_trans hle hlimit⟩

/-- A sign makes no difference where no digits can stand behind it. -/
theorem signedValue?_eq_integerValue? {text : String}
    (h : ∀ c w, text.toList = c :: w → c = '-' ∨ c = '+' → w = []) :
    signedValue? text = Parser.integerValue? text := by
  unfold signedValue?
  split
  · rename_i hnil
    simp [Parser.integerValue?, hnil]
  · rename_i hsign
    simp [Parser.integerValue?, hsign]
  · rename_i hsign
    simp [Parser.integerValue?, hsign]
  · rename_i digits hne htext
    exact absurd (h _ _ htext (.inl rfl)) hne
  · rename_i digits hne htext
    exact absurd (h _ _ htext (.inr rfl)) hne
  · rename_i hne _ _ _ _
    rw [checkedValue?_eq (Nat.zero_le _), Parser.integerValue?, digitsValue]
    by_cases hfits : text.toList.all Char.isDigit = true ∧
        Nat.ofDigitChars 10 text.toList 0 ≤ Parser.maxInteger
    · rw [if_pos hfits, if_pos ⟨hne, hfits⟩, Option.map_some]
    · rw [if_neg hfits, if_neg fun hand => hfits hand.2, Option.map_none]

/-- A token that begins with a sign is the sign. -/
theorem Spelling.sign_alone {k : TokenKind} {c : Char} {w : List Char} (h : Spelling k (c :: w))
    (hc : c = '-' ∨ c = '+') : w = [] := by
  generalize hv : c :: w = v at h
  cases h with
  | word _ hw =>
    subst hv
    have hletter := hw c List.mem_cons_self
    rcases hc with rfl | rfl <;> contradiction
  | number _ hw =>
    subst hv
    have hdigit := hw c List.mem_cons_self
    rcases hc with rfl | rfl <;> contradiction
  | symbol => exact (List.cons.inj hv).2
  | doubled hk =>
    obtain ⟨rfl, -⟩ := List.cons.inj hv
    rcases hc with rfl | rfl <;> contradiction

variable {source : String} {file : Option String} {t : Token}

/-- The numbers of a source are its tokens of digits. -/
theorem kind_eq_integer_iff (h : t ∈ tokenize source file) :
    t.kind = .integer ↔ t.text.toList ≠ [] ∧ t.text.toList.all Char.isDigit = true := by
  rcases spelled_or_of_mem_tokenize h with hspelled | ⟨hkind, hnil⟩
  · constructor
    · intro hk
      exact ⟨Spelling.ne_nil hspelled, List.all_eq_true.mpr (Spelling.of_integer hspelled hk)⟩
    · rintro ⟨hne, hdigits⟩
      rw [← hspelled.kindOfText_eq, kindOfText, if_neg hne,
        tokenKind?_of_number hne (List.all_eq_true.mp hdigits), Option.getD_some]
  · simp [hkind, hnil]

theorem integerValue?_of_mem_tokenize (h : t ∈ tokenize source file) :
    Parser.integerValue? t.text =
      if t.kind = .integer ∧ digitsValue t.text.toList ≤ 9223372036854775807 then
        some (digitsValue t.text.toList : Int)
      else none := by
  refine if_congr ?_ rfl rfl
  rw [kind_eq_integer_iff h, and_assoc]
  rfl

theorem signedValue?_of_mem_tokenize (h : t ∈ tokenize source file) :
    signedValue? t.text = Parser.integerValue? t.text := by
  refine signedValue?_eq_integerValue? fun c w htext hc => ?_
  rcases spelled_or_of_mem_tokenize h with hspelled | ⟨-, hnil⟩
  · rw [Token.Spelled, htext] at hspelled
    exact hspelled.sign_alone hc
  · rw [hnil] at htext
    contradiction

/-- A number in range is printed in a way that makes it one token, which is read as the number. -/
theorem ofSource_text_integer (t : Token) {value : Nat} (hv : value ≤ 9223372036854775807)
    (file : Option String) :
    ∃ u, (tokenize (Expr.integer t value).text file).map Token.sign =
        [(.integer, decimal value), (.eof, "")] ∧
      Report.ofSource (Expr.integer t value).text file =
        ⟨⟨[.expression u (.integer u value)]⟩, []⟩ := by
  let l := Lexer.ofSource (decimal value) file
  have hsigns : l.tokens.map Token.sign = [(.integer, decimal value)] := by
    have hdecimal : signs ((decimal value).toList ++ []) = _ :=
      signs_decimal (Int.natCast_nonneg value) breaks_nil
    rw [List.append_nil, signs_nil] at hdecimal
    exact (Lexer.map_sign_tokens l).trans hdecimal
  obtain ⟨u, hu, hsign⟩ := List.map_eq_singleton_iff.mp hsigns
  refine ⟨u, ?_, ?_⟩
  · change (l.tokens ++ [l.endToken]).map Token.sign = _
    rw [List.map_append, hsigns]
    rfl
  · have hnumeral := numeral_decimal hv
    rw [← Token.text_of_sign hsign] at hnumeral
    let D : ExprDerivation .primary [u] (.integer u value) :=
      .integer (Token.kind_of_sign hsign) hnumeral
    obtain ⟨D', hdepth, hsep⟩ := D.exists_looser (l := .equality) (Nat.zero_le _)
    let DS : StmtsDerivation [u] [.expression u (.integer u value)] :=
      .cons (.expression D' .none) .nil
    have hDS : DS.Separated := ⟨hsep.mpr trivial, trivial, .inr nofun⟩
    have hle : DS.depth ≤ Parser.maxNesting := by
      have hone : DS.depth = max 1 0 := congrArg (max · 0) hdepth
      rw [hone]
      decide
    exact ofTurns_of_depth_le DS hDS hu hle

namespace Machine

theorem on_integer (s : Trail) :
    Procedure.integer.task.on s =
      match Parser.integerValue? s.machine.current.text with
      | some value => some (.ok (.integer s.machine.current value), s)
      | none =>
        some (.error ⟨.badNumber s.machine.current.text, s.machine.current.span.start⟩, s) := by
  rw [Procedure.task, currentToken, on_look]
  cases Parser.integerValue? s.machine.current.text <;> rfl

/-- Wherever a machine is, an integer is read just if the current token is a number that 64 bits can
hold, with whatever zeros in front. It is that number, and it is the same when it is printed and
read again. Otherwise the token is refused as a whole. In no case the machine is moved. -/
theorem integer_exact {source : String} {file : Option String} {s : Trail}
    (hs : Reachable source file s.machine) :
    let t := s.machine.current
    let value := digitsValue t.text.toList
    let InRange := t.kind = .integer ∧ value ≤ 9223372036854775807
    signedValue? t.text = Parser.integerValue? t.text ∧
    ((∃ e s', Procedure.integer.task.on s = some (.ok e, s')) ↔ InRange) ∧
    (InRange → Procedure.integer.task.on s = some (.ok (.integer t value), s) ∧
      ∀ file', ∃ u,
        (tokenize (Expr.integer t value).text file').map Token.sign =
            [(.integer, decimal value), (.eof, "")] ∧
          Report.ofSource (Expr.integer t value).text file' =
            ⟨⟨[.expression u (.integer u value)]⟩, []⟩) ∧
    (¬InRange →
      Procedure.integer.task.on s = some (.error ⟨.badNumber t.text, t.span.start⟩, s)) := by
  intro t value InRange
  have hmem : t ∈ tokenize source file := hs.current_mem_tokenize
  have hread := on_integer s
  rw [integerValue?_of_mem_tokenize hmem] at hread
  refine ⟨signedValue?_of_mem_tokenize hmem, ?_⟩
  by_cases hrange : InRange
  · rw [if_pos hrange] at hread
    exact ⟨iff_of_true ⟨_, _, hread⟩ hrange,
      fun _ => ⟨hread, fun file' => ofSource_text_integer t hrange.2 file'⟩,
      fun hnot => absurd hrange hnot⟩
  · rw [if_neg hrange] at hread
    refine ⟨iff_of_false ?_ hrange, fun h => absurd h hrange, fun _ => hread⟩
    rintro ⟨e, s', he⟩
    rw [hread] at he
    simp at he

/-- The largest number with a zero in front is read, and the next one is refused. -/
theorem integer_exact_largest :
    let s := Trail.ofLexer (.ofSource "09223372036854775807" none)
    let s' := Trail.ofLexer (.ofSource "9223372036854775808" none)
    (Reachable "09223372036854775807" none s.machine ∧
      Procedure.integer.task.on s =
        some (.ok (.integer s.machine.current 9223372036854775807), s)) ∧
    (Reachable "9223372036854775808" none s'.machine ∧
      Procedure.integer.task.on s' =
        some (.error ⟨.badNumber "9223372036854775808", ⟨0, "shell"⟩⟩, s')) := by
  intro s s'
  have hs : Reachable "09223372036854775807" none s.machine := ⟨0, [], [], [], [], rfl, rfl⟩
  have hs' : Reachable "9223372036854775808" none s'.machine := ⟨0, [], [], [], [], rfl, rfl⟩
  have ht : s.machine.current =
      ⟨.integer, "09223372036854775807", .ofOffsets "shell" 0 20⟩ := by decide +kernel
  have ht' : s'.machine.current =
      ⟨.integer, "9223372036854775808", .ofOffsets "shell" 0 19⟩ := by decide +kernel
  obtain ⟨-, -, hok, -⟩ := integer_exact hs
  obtain ⟨-, -, -, herror⟩ := integer_exact hs'
  rw [ht] at hok ⊢
  rw [ht'] at herror
  exact ⟨⟨hs, (hok (by decide +kernel)).1⟩, hs', herror (by decide +kernel)⟩

end Machine

end ScriptReader
