import ScriptReader.Proofs.Grammar.Basic

/-! Where the expressions of a phrase begin, and how deep each of them lies. -/

namespace ScriptReader

/-- An expression that begins somewhere: how deep it lies, and its first token. -/
structure Start where
  depth : Nat
  token : Token

/-- The same start within one expression more. -/
def Start.inner (x : Start) : Start := ⟨x.depth + 1, x.token⟩

/-! The starts of the expressions of a phrase, in the order of the tokens. -/

mutual

def ExprDerivation.starts {l : Level} {ts : List Token} {e : Expr} :
    ExprDerivation l ts e → List Start
  | .tighter _ d => d.starts
  | .binary _ _ dl dr => dl.starts ++ dr.starts.map .inner
  | @ExprDerivation.unary op _ _ _ d => ⟨1, op⟩ :: d.starts.map .inner
  | .call _ _ d => d.starts
  | .callWith _ _ d as => d.starts ++ as.starts.map .inner
  | @ExprDerivation.identifier t _ | @ExprDerivation.integer t _ _ _ | @ExprDerivation.yes t _
  | @ExprDerivation.no t _ => [⟨1, t⟩]
  | @ExprDerivation.grouping opening _ _ _ _ _ d => ⟨1, opening⟩ :: d.starts.map .inner
  | @ExprDerivation.conditional word _ _ _ _ _ _ _ _ _ dc db =>
    ⟨1, word⟩ :: (dc.starts ++ db.starts).map .inner
  | @ExprDerivation.conditionalElse word _ _ _ _ _ _ _ _ _ _ _ _ _ dc db da =>
    ⟨1, word⟩ :: (dc.starts ++ (db.starts ++ da.starts)).map .inner
  | @ExprDerivation.function word _ _ _ _ _ _ _ _ _ _ db => ⟨1, word⟩ :: db.starts.map .inner

def ArgumentsDerivation.starts {ts : List Token} {es : List Expr} :
    ArgumentsDerivation ts es → List Start
  | .one d => d.starts
  | .more _ d as => d.starts ++ as.starts

def StmtDerivation.starts {ts : List Token} {s : Stmt} : StmtDerivation ts s → List Start
  | .define _ _ _ d _ | .returning _ d _ | .expression d _ => d.starts

def StmtsDerivation.starts {ts : List Token} {ss : List Stmt} : StmtsDerivation ts ss → List Start
  | .nil => []
  | .cons d ds => d.starts ++ ds.starts

def BlockDerivation.starts {ts : List Token} {b : Block} : BlockDerivation ts b → List Start
  | .braces _ _ ds => ds.starts

end

def deepest (xs : List Start) : Nat := (xs.map Start.depth).foldr max 0

@[simp] theorem deepest_nil : deepest [] = 0 := rfl

@[simp] theorem deepest_cons (x : Start) (xs : List Start) :
    deepest (x :: xs) = max x.depth (deepest xs) := rfl

@[simp] theorem deepest_append (xs ys : List Start) :
    deepest (xs ++ ys) = max (deepest xs) (deepest ys) := by
  induction xs with
  | nil => simp
  | cons x xs ih => simp [ih, Nat.max_assoc]

theorem deepest_inner {xs : List Start} (h : xs ≠ []) :
    deepest (xs.map .inner) = 1 + deepest xs := by
  induction xs with
  | nil => contradiction
  | cons x xs ih =>
    by_cases hx : xs = []
    · simp [hx, Start.inner, Nat.add_comm]
    · rw [List.map_cons, deepest_cons, ih hx, deepest_cons]
      simp only [Start.inner]
      omega

theorem deepest_whole (t : Token) (xs : List Start) :
    deepest (⟨1, t⟩ :: xs.map .inner) = 1 + deepest xs := by
  by_cases h : xs = []
  · simp [h]
  · rw [deepest_cons, deepest_inner h]
    exact Nat.max_eq_right (Nat.le_add_right 1 _)

/-- The first expression that begins in an expression is the whole. -/
theorem ExprDerivation.starts_head {l : Level} {ts : List Token} {e : Expr} :
    ∀ d : ExprDerivation l ts e, ∃ t us xs, ts = t :: us ∧ d.starts = ⟨1, t⟩ :: xs
  | .tighter _ d => d.starts_head
  | .binary _ _ dl _ => by
    obtain ⟨t, us, xs, rfl, hx⟩ := dl.starts_head
    exact ⟨t, _, _, rfl, congrArg (· ++ _) hx⟩
  | .call _ _ d => by
    obtain ⟨t, us, xs, rfl, hx⟩ := d.starts_head
    exact ⟨t, _, _, rfl, hx⟩
  | .callWith _ _ d _ => by
    obtain ⟨t, us, xs, rfl, hx⟩ := d.starts_head
    exact ⟨t, _, _, rfl, congrArg (· ++ _) hx⟩
  | .unary _ _ | .identifier _ | .integer _ _ | .yes _ | .no _ | .grouping _ _ _
  | .conditional _ _ _ _ _ | .conditionalElse _ _ _ _ _ _ _ | .function _ _ _ _ _ =>
    ⟨_, _, _, rfl, rfl⟩

theorem ExprDerivation.starts_ne_nil {l : Level} {ts : List Token} {e : Expr}
    (d : ExprDerivation l ts e) : d.starts ≠ [] := by
  obtain ⟨_, _, _, -, h⟩ := d.starts_head
  simp [h]

theorem ArgumentsDerivation.starts_ne_nil {ts : List Token} {es : List Expr}
    (d : ArgumentsDerivation ts es) : d.starts ≠ [] := by
  cases d with
  | one d => exact d.starts_ne_nil
  | more _ d _ => exact fun h => d.starts_ne_nil (List.append_eq_nil_iff.mp h).1

mutual

theorem ExprDerivation.deepest_starts {l : Level} {ts : List Token} {e : Expr} :
    ∀ d : ExprDerivation l ts e, deepest d.starts = d.depth
  | .tighter _ d | .call _ _ d => d.deepest_starts
  | .binary _ _ dl dr => by
    have h := deepest_append dl.starts (dr.starts.map .inner)
    rw [deepest_inner dr.starts_ne_nil, dl.deepest_starts, dr.deepest_starts] at h
    exact h
  | .callWith _ _ d as => by
    have h := deepest_append d.starts (as.starts.map .inner)
    rw [deepest_inner as.starts_ne_nil, d.deepest_starts, as.deepest_starts] at h
    exact h
  | @ExprDerivation.unary t _ _ _ d | @ExprDerivation.grouping t _ _ _ _ _ d => by
    have h := deepest_whole t d.starts
    rw [d.deepest_starts] at h
    exact h
  | .identifier _ | .integer _ _ | .yes _ | .no _ => rfl
  | @ExprDerivation.conditional t _ _ _ _ _ _ _ _ _ dc db => by
    have h := deepest_whole t (dc.starts ++ db.starts)
    rw [deepest_append, dc.deepest_starts, db.deepest_starts] at h
    exact h
  | @ExprDerivation.conditionalElse t _ _ _ _ _ _ _ _ _ _ _ _ _ dc db da => by
    have h := deepest_whole t (dc.starts ++ (db.starts ++ da.starts))
    rw [deepest_append, deepest_append, dc.deepest_starts, db.deepest_starts,
      da.deepest_starts] at h
    exact h
  | @ExprDerivation.function t _ _ _ _ _ _ _ _ _ _ db => by
    have h := deepest_whole t db.starts
    rw [db.deepest_starts] at h
    exact h

theorem ArgumentsDerivation.deepest_starts {ts : List Token} {es : List Expr} :
    ∀ d : ArgumentsDerivation ts es, deepest d.starts = d.depth
  | .one d => d.deepest_starts
  | .more _ d as => by
    have h := deepest_append d.starts as.starts
    rw [d.deepest_starts, as.deepest_starts] at h
    exact h

theorem StmtDerivation.deepest_starts {ts : List Token} {s : Stmt} :
    ∀ d : StmtDerivation ts s, deepest d.starts = d.depth
  | .define _ _ _ d _ | .returning _ d _ | .expression d _ => d.deepest_starts

theorem StmtsDerivation.deepest_starts {ts : List Token} {ss : List Stmt} :
    ∀ d : StmtsDerivation ts ss, deepest d.starts = d.depth
  | .nil => rfl
  | .cons d ds => by
    have h := deepest_append d.starts ds.starts
    rw [d.deepest_starts, ds.deepest_starts] at h
    exact h

theorem BlockDerivation.deepest_starts {ts : List Token} {b : Block} :
    ∀ d : BlockDerivation ts b, deepest d.starts = d.depth
  | .braces _ _ ds => ds.deepest_starts

end

def tooDeep? (n : Nat) (xs : List Start) : Option Start := xs.find? fun x => n < x.depth

@[simp] theorem tooDeep?_nil (n : Nat) : tooDeep? n [] = none := rfl

theorem tooDeep?_append (n : Nat) (xs ys : List Start) :
    tooDeep? n (xs ++ ys) = (tooDeep? n xs).or (tooDeep? n ys) := List.find?_append

theorem tooDeep?_whole (n : Nat) (t : Token) (xs : List Start) :
    tooDeep? (n + 1) (⟨1, t⟩ :: xs) = tooDeep? (n + 1) xs := by
  simp [tooDeep?]

theorem tooDeep?_inner (n : Nat) (xs : List Start) :
    tooDeep? (n + 1) (xs.map .inner) = (tooDeep? n xs).map .inner := by
  have hp : (fun x : Start => decide (n + 1 < x.depth)) ∘ Start.inner =
      fun x => decide (n < x.depth) := by
    funext x
    simp [Start.inner]
  rw [tooDeep?, List.find?_map, hp, tooDeep?]

theorem tooDeep?_eq_none_iff {n : Nat} {xs : List Start} :
    tooDeep? n xs = none ↔ deepest xs ≤ n := by
  induction xs with
  | nil => simp
  | cons x xs ih =>
    rw [deepest_cons, Nat.max_le, ← ih]
    simp [tooDeep?]

theorem StmtDerivation.exists_tooDeep {ts : List Token} {s : Stmt} (d : StmtDerivation ts s)
    {n : Nat} (h : n < d.depth) : ∃ x, tooDeep? n d.starts = some x := by
  rw [← Option.ne_none_iff_exists', ne_eq, tooDeep?_eq_none_iff, d.deepest_starts]
  exact Nat.not_le.mpr h

end ScriptReader
