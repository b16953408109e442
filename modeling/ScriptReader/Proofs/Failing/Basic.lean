import ScriptReader.Proofs.Grammar.Flat
import ScriptReader.Proofs.Parser.Steps

/-! Readers that fail. A diagnostic is about one token. It is justified if the
tokens before that one begin a phrase, and still do so with a token of the kind
that was expected. -/

namespace ScriptReader

/-- The place of the token that a diagnostic is about, for a reader that stopped at `d`. A kind is
expected behind the current token, but the brace that closes a block is so in its place. -/
def Cause.site (cause : Cause) (d : Cursor) : Cursor :=
  match cause with
  | .unexpected .rightBrace _ => d
  | .unexpected _ _ => d.advance
  | _ => d

theorem Cause.site_unexpected {kind found : TokenKind} (hk : kind ≠ .rightBrace) (d : Cursor) :
    (Cause.unexpected kind found).site d = d.advance := by
  cases kind <;> first | rfl | contradiction

/-- With more tokens behind them, the tokens are a phrase of `P`. -/
def Viable (P : List Token → Prop) (ts : List Token) : Prop := ∃ us, P (ts ++ us)

variable {P Q : List Token → Prop} {ts us pre : List Token}

theorem viable_of_phrase (h : P ts) : Viable P ts := ⟨[], by rwa [List.append_nil]⟩

theorem Viable.of_append (h : Viable P (ts ++ us)) : Viable P ts := by
  obtain ⟨vs, hv⟩ := h
  exact ⟨us ++ vs, by rwa [← List.append_assoc]⟩

theorem Viable.within (h : Viable P ts) (hf : ∀ vs, P vs → Viable Q (pre ++ vs)) :
    Viable Q (pre ++ ts) := by
  obtain ⟨us, hu⟩ := h
  have hv := hf _ hu
  rw [← List.append_assoc] at hv
  exact hv.of_append

/-- What a diagnostic about the token at `m` says of the tokens `ts` before it, which begin at
`c`. -/
structure Explains (P : List Token → Prop) (c m : Cursor) (e : Diagnostic) (ts : List Token) :
    Prop where
  ahead : c.ahead = ts ++ m.ahead
  position : e.position = m.current.span.start
  viable : Viable P ts
  expected (kind found : TokenKind) (h : e.cause = .unexpected kind found) (u : Token)
    (hu : u.kind = kind) : Viable P (ts ++ [u])

namespace Parser

variable {α β : Type} {c m d : Cursor} {o : Outcome α}

/-- If a phrase that starts at `c` is not read, there is a good reason for it or it is nested too
deep. -/
def Justified (P : List Token → Prop) (c : Cursor) : Outcome α → Prop
  | .ok _ _ => True
  | .error e d => (∀ n, e.cause ≠ .tooDeep n) → ∃ ts, Explains P c (e.cause.site d) e ts

theorem justified_pure (a : α) : Justified P c ((pure a : Parser α).run m) := trivial

theorem Justified.bind {p : Parser α} {f : α → Parser β} (h : Justified P c (p.run m))
    (hf : ∀ a d, p.run m = .ok a d → Justified P c ((f a).run d)) :
    Justified P c ((p >>= f).run m) := by
  rw [run_bind]
  cases hp : p.run m with
  | ok a d => exact hf a d hp
  | error e d => rwa [hp] at h

/-- What begins a phrase of `P` begins one of `Q` behind the tokens `pre`. -/
theorem Justified.within (h : Justified P m o) (hc : c.ahead = pre ++ m.ahead)
    (hf : ∀ ts, P ts → Viable Q (pre ++ ts)) : Justified Q c o := by
  cases o with
  | ok a d => trivial
  | error e d =>
    intro hdeep
    obtain ⟨ts, hx⟩ := h hdeep
    refine ⟨pre ++ ts, by rw [hc, hx.ahead, List.append_assoc], hx.position,
      hx.viable.within hf, fun kind found hk u hu => ?_⟩
    rw [List.append_assoc]
    exact (hx.expected kind found hk u hu).within hf

theorem justified_expect {kind : TokenKind} (hs : c.Spans ts m) (hk : kind ≠ .rightBrace)
    (hv : ∀ u : Token, u.kind = kind → Viable P (ts ++ [u])) :
    Justified P c ((expect kind).run m) := by
  rw [run_expect]
  split
  · trivial
  · rintro -
    rw [Cause.site_unexpected hk]
    refine ⟨ts, hs.ahead, rfl, (hv ⟨kind, "", ⟨.null, .null⟩⟩ rfl).of_append, ?_⟩
    rintro _ _ ⟨⟩
    exact hv

theorem justified_accept (kind : TokenKind) : Justified P c ((accept kind).run m) := by
  rw [run_accept]
  split <;> trivial

/-- The current token cannot start a phrase. -/
theorem justified_failAt {cause : Cause} (hp : Viable P [])
    (hc : ∀ kind found, cause ≠ .unexpected kind found) :
    Justified P c ((failAt c.current cause : Parser α).run c) := by
  intro _
  have hsite : cause.site c = c := by
    cases cause with
    | unexpected kind found => exact absurd rfl (hc kind found)
    | _ => rfl
  rw [hsite]
  exact ⟨[], rfl, rfl, hp, fun kind found h => absurd h (hc kind found)⟩

theorem justified_many {item : Parser (Option α)} {ha : item.Advances} {I : Cursor → Prop}
    (hitem : ∀ m, I m → Justified P c (item.run m))
    (hinv : ∀ m a d, I m → item.run m = .ok (some a) d → I d) (hm : I m) :
    Justified P c ((many item ha).run m) := by
  induction hn : m.ahead.length using Nat.strongRecOn generalizing m with
  | ind n ih =>
    rw [run_many]
    refine (hitem m hm).bind fun o d ho => ?_
    cases o with
    | none => exact justified_pure _
    | some a =>
      exact (ih _ (hn ▸ ha ho) (hinv m a d hm ho) rfl).bind fun as d' _ => justified_pure _

theorem many_keeps {item : Parser (Option α)} {ha : item.Advances} {I : Cursor → Prop}
    (hinv : ∀ m o d, I m → item.run m = .ok o d → I d) {as : List α} (hm : I m)
    (h : (many item ha).run m = .ok as d) : I d := by
  induction as generalizing m with
  | nil => exact hinv m none d hm (many_nil_iff.mp h)
  | cons a as ih =>
    obtain ⟨k, ha, has⟩ := many_cons_iff.mp h
    exact ih (hinv m (some a) k hm ha) has

/-- Items with commas between them. One of them may stand wherever `I` holds, and where `J` does, a
comma or the closing parenthesis. -/
theorem justified_commaList {item : Parser α} {I J : Cursor → Prop}
    (hitem : ∀ m, I m → Justified P c (item.run m))
    (hread : ∀ m a d, I m → item.run m = .ok a d → J d)
    (hcomma : ∀ m, J m → m.peek.kind = .comma → I m.advance)
    (hclose : ∀ m, J m → Justified P c ((expect .rightParen).run m)) (hm : I m) :
    Justified P c ((commaList item).run m) := by
  have hnext : ∀ k, J k → Justified P c ((commaItem item).run k) := by
    intro k hk
    rw [commaItem, bind_peek]
    split
    · rename_i hp
      rw [bind_advance]
      exact (hitem _ (hcomma k hk hp)).bind fun _ _ _ => justified_pure _
    · exact justified_pure _
  have hkeep : ∀ k o d, J k → (commaItem item).run k = .ok o d → J d := by
    intro k o d hk h
    cases o with
    | none =>
      obtain ⟨-, rfl⟩ := commaItem_none_iff.mp h
      exact hk
    | some a =>
      obtain ⟨hp, hi⟩ := commaItem_some_iff.mp h
      exact hread _ a d (hcomma k hk hp) hi
  rw [run_commaList]
  split
  · trivial
  · refine Justified.bind ?_ fun as d has => ?_
    · exact (hitem m hm).bind fun a k ha =>
        (justified_many hnext (fun k a => hkeep k (some a)) (hread m a k hm ha)).bind
          fun _ _ _ => justified_pure _
    · simp only [commaItems, bind_ok_iff, pure_ok_iff] at has
      obtain ⟨a, k, ha, as, _, has, rfl, rfl⟩ := has
      exact (hclose _ (many_keeps hkeep (hread m a k hm ha) has)).bind
        fun _ _ _ => justified_pure _

end Parser

end ScriptReader
