import Mathlib.Data.List.Basic
import ScriptReader.Parser.Precedence
import ScriptReader.Proofs.Grammar.Basic

/-! Levels of the grammar and binding powers. Each level has the power of its
operators, and what binds tighter than a power are the expressions of a level. -/

namespace ScriptReader

namespace Level

def rank : Level → Nat
  | equality => 0
  | relational => 1
  | additive => 2
  | multiplicative => 3
  | unary => 4
  | call => 5
  | primary => 6

/-- How tightly the operators of a level bind. An operand in one piece is not taken apart. -/
def power : Level → BindingPower
  | equality => .equals
  | relational => .lessGreater
  | additive => .sum
  | multiplicative => .product
  | unary => .unary
  | call | primary => .call

theorem rank_of_next? {l l' : Level} (h : l.next? = some l') : l'.rank = l.rank + 1 := by
  cases l <;> cases h <;> rfl

theorem power_le_of_next? {l l' : Level} (h : l.next? = some l') : l.power ≤ l'.power := by
  cases l <;> cases h <;> decide

theorem next?_eq_none {l : Level} (h : l.next? = none) : l = primary := by
  cases l <;> simp_all [next?]

end Level

/-- The level just above a power. Above calls there is none, so that an operand with a sign in
front stands there as well. -/
def BindingPower.level : BindingPower → Level
  | lowest => .equality
  | equals => .relational
  | lessGreater => .additive
  | sum => .multiplicative
  | product | unary | call => .unary

namespace BindingPower

theorem le_call (p : BindingPower) : p ≤ .call := by
  cases p <;> decide

theorem rank_level (p : BindingPower) : p.level.rank = min p.rank 4 := by
  cases p <;> rfl

theorem rank_level_le_unary (p : BindingPower) : p.level.rank ≤ Level.unary.rank :=
  p.rank_level ▸ Nat.min_le_right _ _

end BindingPower

namespace Level

theorem rank_power (l : Level) : l.power.rank = min (l.rank + 1) 6 := by
  cases l <;> rfl

theorem rank_le_of_power_le {l l' m : Level} (hm : l'.next? = some m) (h : l'.power ≤ l.power) :
    l'.rank ≤ l.rank := by
  have hr := rank_of_next? hm
  have hm6 : m.rank ≤ 6 := by cases m <;> decide
  have hp : l'.power.rank ≤ l.power.rank := h
  rw [rank_power, rank_power] at hp
  omega

theorem rank_level_le {p : BindingPower} {l : Level} (h : p < l.power) : p.level.rank ≤ l.rank := by
  have hp : p.rank < l.power.rank := h
  rw [rank_power] at hp
  rw [BindingPower.rank_level]
  omega

/-- No level but that of signs has operators that bind just as a power below it. -/
theorem lt_power {p : BindingPower} {l : Level} (hl : l ≠ unary) (h : p.level.rank ≤ l.rank)
    (hp : p < .call) : p < l.power := by
  have hp6 : p.rank < 6 := hp
  have hl4 : l.rank ≠ 4 := by cases l <;> simp_all [rank]
  rw [BindingPower.rank_level] at h
  change p.rank < l.power.rank
  rw [rank_power]
  omega

theorem le_power {p : BindingPower} {l : Level} (h : p.level.rank ≤ l.rank) (hp : p < .call) :
    p ≤ l.power := by
  have hp6 : p.rank < 6 := hp
  rw [BindingPower.rank_level] at h
  change p.rank ≤ l.power.rank
  rw [rank_power]
  omega

end Level

namespace TokenKind

theorem operator?_of_mem {k : TokenKind} {l : Level} (h : k ∈ l.operators) :
    k.operator? = some ⟨.binary, l.power⟩ := by
  cases l <;> simp only [Level.operators, List.mem_cons, List.not_mem_nil, or_false] at h <;>
    rcases h with rfl | rfl <;> rfl

theorem ne_eof_of_mem {k : TokenKind} {l : Level} (h : k ∈ l.operators) : k ≠ eof := by
  rintro rfl
  simpa [operator?] using operator?_of_mem h

theorem operator?_cases {k : TokenKind} {o : Operator} (h : k.operator? = some o) :
    (k = leftParen ∧ o = ⟨.call, .call⟩) ∨
      ∃ l l' : Level, l.next? = some l' ∧ k ∈ l.operators ∧ o = ⟨.binary, l.power⟩ := by
  cases k with
  | leftParen => exact .inl ⟨rfl, (Option.some.inj h).symm⟩
  | equal | notEqual =>
    exact .inr ⟨.equality, .relational, rfl, by decide, (Option.some.inj h).symm⟩
  | lessThan | greaterThan =>
    exact .inr ⟨.relational, .additive, rfl, by decide, (Option.some.inj h).symm⟩
  | plus | minus =>
    exact .inr ⟨.additive, .multiplicative, rfl, by decide, (Option.some.inj h).symm⟩
  | asterisk | slash =>
    exact .inr ⟨.multiplicative, .unary, rfl, by decide, (Option.some.inj h).symm⟩
  | _ => simp [operator?] at h

theorem level_power_of_mem {k : TokenKind} {l l' : Level} (h : k ∈ l.operators)
    (hl : l.next? = some l') : l.power.level = l' := by
  cases l <;> simp_all [Level.operators, Level.next?, Level.power, BindingPower.level]

theorem continues_iff {k : TokenKind} : k.Continues ↔ k.operator? ≠ none := by
  constructor
  · rintro (rfl | ⟨l, h⟩)
    · simp [operator?]
    · simp [operator?_of_mem h]
  · intro h
    obtain ⟨o, ho⟩ := Option.ne_none_iff_exists'.mp h
    rcases operator?_cases ho with ⟨rfl, -⟩ | ⟨l, -, -, hk, -⟩
    · exact .inl rfl
    · exact .inr ⟨l, hk⟩

instance (k : TokenKind) : Decidable k.Continues := decidable_of_iff _ continues_iff.symm

theorem power_eq_lowest_iff {k : TokenKind} : k.power ≤ .lowest ↔ ¬k.Continues := by
  rw [continues_iff, not_not]
  constructor
  · intro h
    cases k <;> first | rfl | exact absurd h (by decide)
  · intro h
    simp only [power, h, Option.elim_none]
    decide

end TokenKind

/-- A phrase of a level is a phrase of all looser levels, just as deep. -/
theorem ExprDerivation.exists_looser {l l' : Level} {ts : List Token} {e : Expr}
    (h : l.rank ≤ l'.rank) (d : ExprDerivation l' ts e) :
    ∃ d' : ExprDerivation l ts e, d'.depth = d.depth ∧ (d'.Separated ↔ d.Separated) := by
  induction hn : l'.rank - l.rank generalizing l with
  | zero =>
    obtain rfl : l = l' := by cases l <;> cases l' <;> simp_all [Level.rank]
    exact ⟨d, rfl, .rfl⟩
  | succ n ih =>
    cases hl : l.next? with
    | none =>
      obtain rfl := Level.next?_eq_none hl
      cases l' <;> simp [Level.rank] at hn
    | some m =>
      have hm := Level.rank_of_next? hl
      obtain ⟨d', hd, hs⟩ := ih (l := m) (by omega) (by omega)
      exact ⟨.tighter hl d', hd, hs⟩

/-- The phrase has a derivation no deeper than `n`, with the statements in its blocks apart. -/
def Derivable (n : Nat) (l : Level) (ts : List Token) (e : Expr) : Prop :=
  ∃ d : ExprDerivation l ts e, d.depth ≤ n ∧ d.Separated

theorem Derivable.looser {n : Nat} {l l' : Level} {ts : List Token} {e : Expr}
    (h : Derivable n l' ts e) (hl : l.rank ≤ l'.rank) : Derivable n l ts e := by
  obtain ⟨d, hd, hs⟩ := h
  obtain ⟨d', hd', hs'⟩ := d.exists_looser hl
  exact ⟨d', hd' ▸ hd, hs'.mpr hs⟩

end ScriptReader
