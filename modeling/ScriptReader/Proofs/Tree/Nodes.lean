import ScriptReader.Proofs.Segments
import ScriptReader.Tree.Outline

/-! What the nodes of a tree were read from. A node keeps one of the tokens of
its phrase, and the number of a node is that of its digits. -/

namespace ScriptReader

/-- If the node holds a number, it is that of the digits of its token. -/
def Node.Numbered : Node → Prop
  | .expr (.integer token value) =>
    token.kind = .integer ∧ value = Text.digitsValue token.text.toList
  | _ => True

/-- The node was read from one of the tokens. -/
structure Node.ReadFrom (x : Node) (ts : List Token) : Prop where
  mem : x.token ∈ ts
  numbered : x.Numbered

/-- All nodes that are listed were read from the tokens. -/
def Outlined (ts : List Token) (es : List Entry) : Prop := ∀ x ∈ es, x.node.ReadFrom ts

variable {ts us : List Token} {es es' : List Entry}

theorem outlined_nil (ts : List Token) : Outlined ts [] := by simp [Outlined]

theorem Outlined.append (h : Outlined ts es) (h' : Outlined ts es') : Outlined ts (es ++ es') :=
  List.forall_mem_append.mpr ⟨h, h'⟩

theorem Outlined.within (h : Outlined ts es) (hs : ts ⊆ us) : Outlined us es :=
  fun x hx => ⟨hs (h x hx).mem, (h x hx).numbered⟩

theorem Outlined.inner {t : Token} (h : Outlined ts es) : Outlined (t :: ts) es :=
  h.within (List.subset_cons_self _ _)

theorem Outlined.left (h : Outlined ts es) (us : List Token) : Outlined (ts ++ us) es :=
  h.within (List.subset_append_left _ _)

theorem Outlined.right (h : Outlined ts es) (us : List Token) : Outlined (us ++ ts) es :=
  h.within (List.subset_append_right _ _)

/-- A node is listed in front of those below it. -/
theorem Outlined.below {x : Entry} (h : Outlined ts es) (hmem : x.node.token ∈ ts)
    (hx : x.node.Numbered) : Outlined ts (x :: es) :=
  List.forall_mem_cons.mpr ⟨⟨hmem, hx⟩, h⟩

theorem ParametersDerivation.outlined {ps : List Token} {ns : List Identifier}
    (h : ParametersDerivation ps ns) (depth : Nat) (role : Role) :
    Outlined ps (ns.map (Identifier.entry depth role)) := by
  induction h with
  | nil => exact outlined_nil _
  | one ht => exact (outlined_nil _).below List.mem_cons_self trivial
  | more ht hc _ ih => exact ih.inner.inner.below List.mem_cons_self trivial

/-! A derivation lists the nodes of its tree. -/

mutual

theorem ExprDerivation.outlined {l : Level} {ts : List Token} {e : Expr} (depth : Nat)
    (role : Role) : ExprDerivation l ts e → Outlined ts (e.outline depth role)
  | .tighter _ d => d.outlined depth role
  | .binary _ _ dl dr => by
    rw [Expr.outline]
    refine Outlined.below (.append ?_ ?_) (List.mem_append_right _ List.mem_cons_self) trivial
    · exact (dl.outlined (depth + 1) .left).left _
    · exact (dr.outlined (depth + 1) .right).inner.right _
  | .unary _ d => by
    rw [Expr.outline]
    exact (d.outlined (depth + 1) .right).inner.below List.mem_cons_self trivial
  | .call _ _ d => by
    rw [Expr.outline]
    refine Outlined.below (.append ?_ (outlined_nil _))
      (List.mem_append_right _ List.mem_cons_self) trivial
    exact (d.outlined (depth + 1) .function).left _
  | .callWith _ _ d as => by
    rw [Expr.outline]
    refine Outlined.below (.append ?_ ?_) (List.mem_append_right _ List.mem_cons_self) trivial
    · exact (d.outlined (depth + 1) .function).left _
    · exact ((as.outlined (depth + 1)).left _).inner.right _
  | .identifier _ | .yes _ | .no _ => (outlined_nil _).below List.mem_cons_self trivial
  | .integer ht hv =>
    (outlined_nil _).below List.mem_cons_self ⟨ht, congrArg Nat.cast hv.value_eq.symm⟩
  | .grouping _ _ d => ((d.outlined depth role).left _).inner
  | .conditional _ _ _ dc db => by
    rw [Expr.outline]
    refine Outlined.below (.append (.append ?_ ?_) (outlined_nil _)) List.mem_cons_self trivial
    · exact ((dc.outlined (depth + 1) .condition).left _).inner.inner
    · exact ((db.outlined (depth + 1) .consequence).inner.right _).inner.inner
  | .conditionalElse _ _ _ _ dc db da => by
    rw [Expr.outline]
    refine Outlined.below (.append (.append ?_ ?_) ?_) List.mem_cons_self trivial
    · exact ((dc.outlined (depth + 1) .condition).left _).inner.inner
    · exact (((db.outlined (depth + 1) .consequence).left _).inner.right _).inner.inner
    · exact (((da.outlined (depth + 1) .alternative).inner.right _).inner.right _).inner.inner
  | .function _ _ _ hp db => by
    rw [Expr.outline]
    refine Outlined.below (.append ?_ ?_) List.mem_cons_self trivial
    · exact ((hp.outlined (depth + 1) .param).left _).inner.inner
    · exact ((db.outlined (depth + 1) .body).inner.right _).inner.inner

theorem ArgumentsDerivation.outlined {ts : List Token} {es : List Expr} (depth : Nat) :
    ArgumentsDerivation ts es → Outlined ts (outlineArguments depth es)
  | .one d => (d.outlined depth .arg).append (outlined_nil _)
  | .more _ d as =>
    ((d.outlined depth .arg).left _).append ((as.outlined depth).inner.right _)

theorem StmtDerivation.outlined {ts : List Token} {s : Stmt} (depth : Nat) (role : Role) :
    StmtDerivation ts s → Outlined ts (s.outline depth role)
  | .define _ _ _ d _ => by
    rw [Stmt.outline]
    refine Outlined.below (Outlined.below ?_ ?_ trivial) List.mem_cons_self trivial
    · exact ((d.outlined (depth + 1) .value).left _).inner.inner.inner
    · exact List.mem_cons_of_mem _ List.mem_cons_self
  | .returning _ d _ => by
    rw [Stmt.outline]
    exact ((d.outlined (depth + 1) .value).left _).inner.below List.mem_cons_self trivial
  | .expression d _ => by
    rw [Stmt.outline, ← List.cons_append]
    exact ((d.outlined (depth + 1) .expression).left _).below List.mem_cons_self trivial

theorem StmtsDerivation.outlined {ts : List Token} {ss : List Stmt} (depth : Nat) :
    StmtsDerivation ts ss → Outlined ts (outlineStatements depth ss)
  | .nil => outlined_nil _
  | .cons d ds => ((d.outlined depth .stmt).left _).append ((ds.outlined depth).right _)

theorem BlockDerivation.outlined {ts : List Token} {b : Block} (depth : Nat) (role : Role) :
    BlockDerivation ts b → Outlined ts (b.outline depth role)
  | .braces _ _ ds => by
    rw [Block.outline]
    exact ((ds.outlined (depth + 1)).left _).inner.below List.mem_cons_self trivial

end

end ScriptReader
