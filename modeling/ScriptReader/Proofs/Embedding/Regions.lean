import Mathlib.Data.List.TakeWhile
import ScriptReader.Proofs.Embedding.Basic
import ScriptReader.Proofs.Grammar.Braces

/-! Where a source is read as it is within another: everywhere if nothing else
stands behind it, and otherwise if it ends with a semicolon and closes its
braces. -/

namespace ScriptReader

/-- The last token, if there is one, is a semicolon, and the opening braces are closed. -/
structure Sealed (ts : List Token) : Prop where
  semicolon (t : Token) (h : ts.getLast? = some t) : t.kind = .semicolon
  braces : BracesClosed ts

theorem sealed_iff {ts : List Token} :
    Sealed ts ↔ (∀ t ∈ ts.getLast?, t.kind = .semicolon) ∧ BracesClosed ts :=
  ⟨fun h => ⟨h.semicolon, h.braces⟩, fun h => ⟨h.1, h.2⟩⟩

instance decidableSealed (ts : List Token) : Decidable (Sealed ts) :=
  decidable_of_iff _ sealed_iff.symm

theorem Sealed.of_suffix {ts us : List Token} (h : Sealed ts) (hs : us <:+ ts) : Sealed us := by
  refine ⟨fun t ht => ?_, h.braces.of_suffix hs⟩
  obtain ⟨vs, rfl⟩ := hs
  have hne : us ≠ [] := by
    rintro rfl
    simp at ht
  exact h.semicolon t (by rw [List.getLast?_append_of_ne_nil _ hne, ht])

theorem Sealed.tail_ne_nil {ts : List Token} {t : Token} (h : Sealed (t :: ts))
    (ht : t.kind ≠ .semicolon) : ts ≠ [] := by
  rintro rfl
  exact ht (h.semicolon t rfl)

theorem Sealed.dropWhile_ne_nil {ts : List Token} {p : Token → Bool} (h : Sealed ts)
    (hne : ts ≠ []) (hp : ∀ t : Token, t.kind = .semicolon → p t = false) :
    ts.dropWhile p ≠ [] := by
  intro hd
  rw [List.dropWhile_eq_nil_iff] at hd
  have hlast := List.getLast?_eq_some_getLast hne
  have hfalse := hp _ (h.semicolon _ hlast)
  rw [hd _ (List.getLast_mem hne)] at hfalse
  contradiction

namespace Embedding

variable {m : Embedding}

theorem dropWhile_map_token (m : Embedding) (kinds : List TokenKind) (ts : List Token) :
    (ts.map m.token).dropWhile (fun t => !t.isOneOf kinds) =
      (ts.dropWhile fun t => !t.isOneOf kinds).map m.token := by
  have hfun : (fun t : Token => !t.isOneOf kinds) ∘ m.token = fun t => !t.isOneOf kinds := by
    funext t
    simp [Token.isOneOf, m.kind_token]
  rw [List.dropWhile_map, hfun]

/-- Where tokens stand behind a source, from any token of it that is sealed. -/
def sealedRegion (m : Embedding) : m.Region where
  At c := c.ahead ≠ [] ∧ Sealed c.ahead
  InBlock c := (c.ahead ≠ [] ∧ Sealed c.ahead) ∧ Closes 1 c.ahead
  sees h := m.sees_of_ne_nil h.1
  advance := by
    rintro ⟨ts, stop⟩ ⟨hne, hs⟩ hk
    cases ts with
    | nil => contradiction
    | cons t ts => exact ⟨hs.tail_ne_nil hk, hs.of_suffix (List.suffix_cons t ts)⟩
  enter := by
    rintro ⟨ts, stop⟩ ⟨hne, hs⟩ hk
    cases ts with
    | nil => contradiction
    | cons t ts =>
      have hc : Closes 1 ts := hs.braces.1 hk
      exact ⟨⟨hc.ne_nil, hs.of_suffix (List.suffix_cons t ts)⟩, hc⟩
  inside h := h.1
  statement := by
    rintro c d ts s ⟨⟨-, hs⟩, hc⟩ hts D
    rw [hts.ahead] at hs hc
    -- A statement has its braces in pairs, so the one that closes the block is still ahead.
    have hc' : Closes 1 d.advance.ahead := (D.paired 0 _).mp hc
    exact ⟨⟨hc'.ne_nil, hs.of_suffix (List.suffix_append ts _)⟩, hc'⟩
  reaches h hr hd := ⟨hd, h.2.of_suffix hr.suffix⟩
  skip := by
    rintro c ⟨hne, hs⟩
    have hd : (c.skipTo [.semicolon, .eof]).ahead ≠ [] :=
      hs.dropWhile_ne_nil hne fun t ht => by simp [Token.isOneOf, ht]
    refine ⟨⟨hd, hs.of_suffix (List.dropWhile_suffix _)⟩, ?_⟩
    have hd' : (c.ahead.dropWhile fun t => !t.isOneOf [.semicolon, .eof]).isEmpty = false :=
      List.isEmpty_eq_false_iff.mpr hd
    simp only [Cursor.skipTo, cursor, List.dropWhile_append, dropWhile_map_token, List.isEmpty_map,
      hd', Bool.false_eq_true, if_false]

/-- Where nothing stands behind a source, from any cursor of it. -/
def wholeRegion (m : Embedding) (stop : Position) (hmore : m.more = [])
    (hstop : m.token (.ofEnd stop) = .ofEnd m.stop) : m.Region where
  At c := c.stop = stop
  InBlock c := c.stop = stop
  sees := by
    rintro ⟨ts, _⟩ rfl
    cases ts with
    | nil =>
      refine ⟨?_, ?_⟩
      · simp [cursor, Cursor.current, Cursor.endToken, hmore, hstop]
      · simp [cursor, Cursor.advance, hmore]
    | cons t ts => exact m.sees_of_ne_nil (by simp)
  advance h _ := h
  enter h _ := h
  inside h := h
  statement h hs _ := hs.stop.trans h
  reaches h hr _ := hr.stop.trans h
  skip := by
    rintro c h
    refine ⟨h, ?_⟩
    rw [Cursor.skipTo, cursor, hmore, List.append_nil, dropWhile_map_token, cursor, hmore,
      List.append_nil, Cursor.skipTo]

end Embedding

end ScriptReader
