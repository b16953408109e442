import Mathlib.Data.List.GetD
import ScriptReader.Proofs.Machine.Operations

/-! Where a machine can be at any moment of its work. Whatever is asked of it,
it stands somewhere in the tokens of its source and no deeper than allowed. -/

namespace ScriptReader

namespace Machine

/-- The machine is one that a new one turns into at some moment of some operations, begun anywhere
in a source. -/
def Reachable (source : String) (file : Option String) (m : Machine) : Prop :=
  ∃ n ops answers pre post,
    let l := (Lexer.ofSource source file).skip n
    (performAll ops).run (.ofLexer l) = some (answers, (Trail.ofLexer l).after (pre ++ post)) ∧
      m = (ofLexer l).after pre

variable {source : String} {file : Option String} {m : Machine}

theorem Reachable.exists_at (h : Reachable source file m) :
    ∃ n i k, m.At ((Lexer.ofSource source file).skip n) i k ∧ k ≤ Parser.maxNesting := by
  obtain ⟨n, ops, answers, pre, post, hrun, rfl⟩ := h
  let l := (Lexer.ofSource source file).skip n
  have hstart : Shows l 0 (ofLexer l) (.ofLexer l) := ⟨at_ofLexer l, rfl, rfl⟩
  obtain ⟨ms, hms, -, hsteady⟩ := on_performAll (s := .ofLexer l) hstart ops
  have hmoves : pre ++ post = ms := by
    rw [hms] at hrun
    have htrail := congrArg Trail.moves (Prod.mk.inj (Option.some.inj hrun)).2
    exact htrail.symm
  obtain ⟨k, hat, hk, -⟩ := hsteady pre post hmoves.symm
  exact ⟨n, _, k, hat, hk⟩

theorem Reachable.current_mem_tokenize (h : Reachable source file m) :
    m.current ∈ tokenize source file := by
  obtain ⟨n, i, k, hat, -⟩ := h.exists_at
  rw [hat.current, token_skip, Lexer.token, Lexer.next_skip, tokenize]
  by_cases hlt : n + i < (Lexer.ofSource source file).tokens.length
  · rw [List.getD_eq_getElem _ _ hlt]
    exact List.mem_append_left _ (List.getElem_mem hlt)
  · rw [List.getD_eq_default _ _ (Nat.not_lt.mp hlt)]
    exact List.mem_append_right _ List.mem_cons_self

end Machine

end ScriptReader
