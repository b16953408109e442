import ScriptReader.Diagnostic.Snippet
import ScriptReader.Proofs.Printing
import ScriptReader.Proofs.Segments
import ScriptReader.Proofs.Source.Lines

/-! Snippets against the lines that they show. A snippet is refused just if its
caret stood too far to the right, which is a matter of how much of the line
stands between the indentation and the place. -/

namespace ScriptReader

open Text

theorem takeWhile_append_of_stop {p : Char → Bool} {cs ds : List Char}
    (h : ∀ c, ds.head? = some c → p c = false) :
    (cs ++ ds).takeWhile p = cs.takeWhile p ∧ (cs ++ ds).dropWhile p = cs.dropWhile p ++ ds := by
  induction cs with
  | nil => exact takeWhile_run (List.forall_mem_nil _) h
  | cons c cs ih =>
    by_cases hc : p c = true
    · simp [hc, ih]
    · simp [hc]

theorem dropEndWhile_eq_self {p : Char → Bool} {cs : List Char} (h : ∀ c ∈ cs, p c = false) :
    dropEndWhile p cs = cs := by
  have hrev : ∀ c, cs.reverse.head? = some c → p c = false := fun c hc =>
    h c (List.mem_reverse.mp (List.mem_of_mem_head? hc))
  rw [dropEndWhile, ← List.nil_append cs.reverse,
    (takeWhile_run (List.forall_mem_nil _) hrev).2, List.reverse_reverse]

theorem dropEndWhile_append_of_all {p : Char → Bool} {ds : List Char} (h : ∀ c ∈ ds, p c = true)
    (cs : List Char) : dropEndWhile p (cs ++ ds) = dropEndWhile p cs := by
  have hrev : ∀ c ∈ ds.reverse, p c = true := fun c hc => h c (List.mem_reverse.mp hc)
  rw [dropEndWhile, List.reverse_append, List.dropWhile_append_of_pos hrev, dropEndWhile]

theorem dropEndWhile_append_of_exists {p : Char → Bool} {ds : List Char}
    (h : ∃ c ∈ ds, p c = false) (cs : List Char) :
    dropEndWhile p (cs ++ ds) = cs ++ dropEndWhile p ds := by
  have hne : ¬(ds.reverse.dropWhile p).isEmpty = true := by
    simpa [List.dropWhile_eq_nil_iff] using h
  rw [dropEndWhile, List.reverse_append, List.dropWhile_append, if_neg hne, List.reverse_append,
    List.reverse_reverse, dropEndWhile]

theorem dropEndWhile_sublist (p : Char → Bool) (cs : List Char) :
    (dropEndWhile p cs).Sublist cs := by
  rw [dropEndWhile, ← List.reverse_sublist, List.reverse_reverse]
  exact (List.dropWhile_suffix p).sublist

namespace Line.Cuts

variable {l : Line} {number : Nat} {before body behind : List Char}

/-- The line feed behind a line is no part of its indentation. -/
theorem indentation (h : l.Cuts number before body behind) :
    l.chars.takeWhile isIndent = body.takeWhile isIndent ∧
      l.chars.dropWhile isIndent = body.dropWhile isIndent ++ behind.take 1 := by
  rw [h.chars_eq]
  refine takeWhile_append_of_stop fun c hc => ?_
  rcases h.ends with rfl | hhead
  · contradiction
  · obtain ⟨rest, rfl⟩ := List.head?_eq_some_iff.mp hhead
    obtain rfl : '\n' = c := by simpa using hc
    rfl

variable {d : Diagnostic} {source : String}

theorem code_eq (h : (locate source d.position.offset).Cuts number before body behind) :
    (Snippet.ofDiagnostic d source).code = dropEndWhile isWhiteSpace (body.dropWhile isIndent) := by
  have hfeed : ∀ c ∈ behind.take 1, isWhiteSpace c = true := by
    rcases h.ends with rfl | hhead
    · simp
    · obtain ⟨rest, rfl⟩ := List.head?_eq_some_iff.mp hhead
      simpa using show isWhiteSpace '\n' = true from rfl
  rw [Snippet.ofDiagnostic, h.indentation.2, dropEndWhile_append_of_all hfeed]

theorem dashes_eq (h : (locate source d.position.offset).Cuts number before body behind) :
    (Snippet.ofDiagnostic d source).dashes =
      (locate source d.position.offset).offset - byteLength (body.takeWhile isIndent) := by
  rw [Snippet.ofDiagnostic, h.indentation.1]

end Line.Cuts

theorem Diagnostic.render_eq_ok_iff {d : Diagnostic} {source text : String} :
    d.render source = .ok text ↔ (Snippet.ofDiagnostic d source).dashes < lastCaretColumn ∧
      (Snippet.ofDiagnostic d source).text = text := by
  by_cases h : (Snippet.ofDiagnostic d source).dashes < lastCaretColumn <;> simp [render, h]

/-- A diagnostic is rendered just if fewer than 65535 bytes of its line stand between the
indentation of the line and the place. A place past the end of the source counts as the end. -/
theorem exists_render_iff (d : Diagnostic) (source : String) :
    ∃ before indent body behind, source.toList = before ++ (indent ++ body) ++ behind ∧
      (before = [] ∨ before.getLast? = some '\n') ∧ '\n' ∉ indent ++ body ∧
      (behind = [] ∨ behind.head? = some '\n') ∧
      (∀ c ∈ indent, isIndent c = true) ∧ (∀ c, body.head? = some c → isIndent c = false) ∧
      let place := min d.position.offset source.utf8ByteSize
      byteLength before ≤ place ∧ place ≤ byteLength (before ++ (indent ++ body)) ∧
        ((∃ text, d.render source = .ok text) ↔
          place < byteLength (before ++ indent) + 65535) := by
  obtain ⟨before, line, behind, hsource, hcuts, hoffset⟩ :=
    exists_cuts_locate source d.position.offset
  have hline : line.takeWhile isIndent ++ line.dropWhile isIndent = line :=
    List.takeWhile_append_dropWhile
  have hle := hcuts.offset_le
  refine ⟨before, line.takeWhile isIndent, line.dropWhile isIndent, behind, ?_, hcuts.begins, ?_,
    hcuts.ends, fun c hc => List.all_eq_true.mp List.all_takeWhile c hc, fun c hc => ?_, ?_⟩
  · rw [hline, hsource]
  · rw [hline]
    exact hcuts.unbroken
  · have hhead := List.head?_dropWhile_not isIndent line
    rw [hc] at hhead
    simpa using hhead
  · have hrender : (∃ text, d.render source = .ok text) ↔
        (Snippet.ofDiagnostic d source).dashes < lastCaretColumn := by
      simp [Diagnostic.render_eq_ok_iff]
    intro place
    rw [hrender, hline, hcuts.dashes_eq, lastCaretColumn, byteLength_append, byteLength_append]
    omega

/-! A source that is refused: a long line of which only the beginning can be seen. -/

/-- The word `let` and `n` spaces. -/
def paddedLet (n : Nat) : List Char := "let".toList ++ List.replicate n ' '

theorem byteLength_paddedLet (n : Nat) : byteLength (paddedLet n) = 3 + n := by
  rw [paddedLet, byteLength_append]
  refine congrArg (3 + ·) ?_
  induction n with
  | zero => rfl
  | succ n ih =>
    rw [List.replicate_succ, byteLength_cons, ih, Nat.add_comm]
    rfl

theorem signs_paddedLet (n : Nat) : signs (paddedLet n) = [(.letWord, "let")] := by
  have hspaces : ∀ c ∈ List.replicate n ' ', isLayout c = true := fun c hc =>
    (List.eq_of_mem_replicate hc) ▸ rfl
  have hbreaks : Breaks (List.replicate n ' ') := fun c hc => by
    obtain rfl := List.eq_of_mem_replicate (List.mem_of_mem_head? hc)
    exact ⟨rfl, rfl⟩
  have hblank : signs (List.replicate n ' ') = [] := by
    have h : signs (List.replicate n ' ' ++ []) = signs [] := signs_layouts hspaces
    rwa [List.append_nil, signs_nil] at h
  rw [paddedLet, signs_reserved (k := .letWord) (by decide) hbreaks, hblank]

theorem statement_paddedLet (span : Span) (stop : Position) :
    (Parser.statement Parser.expression).run ⟨[⟨.letWord, "let", span⟩], stop⟩ =
      .error ⟨.unexpected .identifier .eof, stop⟩ ⟨[⟨.letWord, "let", span⟩], stop⟩ := rfl

theorem diagnostics_paddedLet (n : Nat) :
    (Report.ofSource (String.ofList (paddedLet n)) none).diagnostics =
      [⟨.unexpected .identifier .eof, ⟨saturate ↑(3 + n), "shell"⟩⟩] := by
  let l : Lexer := ⟨paddedLet n, 0, "shell"⟩
  have hsource : Lexer.ofSource (String.ofList (paddedLet n)) none = l := by
    rw [Lexer.ofSource, String.toList_ofList]
    rfl
  have hsigns : l.tokens.map Token.sign = [(.letWord, "let")] :=
    l.map_sign_tokens.trans (signs_paddedLet n)
  obtain ⟨⟨kind, text, span⟩, htokens, ht⟩ := List.map_eq_singleton_iff.mp hsigns
  obtain ⟨rfl, rfl⟩ := Prod.mk.inj ht
  have hstop : l.stop = ⟨saturate ↑(3 + n), "shell"⟩ := by
    rw [Lexer.stop, Nat.zero_add, byteLength_paddedLet]
  have hcursor : Cursor.ofLexer l = ⟨[⟨.letWord, "let", span⟩], ⟨saturate ↑(3 + n), "shell"⟩⟩ := by
    rw [Cursor.ofLexer, htokens, hstop]
  rw [Report.ofSource, hsource, Report.ofLexer, hcursor, turns_of_ne_nil (List.cons_ne_nil _ _),
    Turn.ofCursor_of_error (statement_paddedLet _ _), turns_of_nil rfl]
  rfl

theorem dashes_paddedLet {d : Diagnostic} {n : Nat} (hd : d.position.offset = 3 + n) :
    (Snippet.ofDiagnostic d (String.ofList (paddedLet n))).dashes = 3 + n := by
  have hfeed : '\n' ∉ paddedLet n := by simp [paddedLet]
  have hplace :
      locate (String.ofList (paddedLet n)) d.position.offset = ⟨1, paddedLet n, 3 + n⟩ := by
    rw [locate, String.toList_ofList, locateFrom_of_not_mem hfeed, byteLength_paddedLet, hd,
      Nat.min_self]
  rw [Snippet.ofDiagnostic, hplace]
  rfl

/-- The end of a source may be too far to the right. -/
theorem ofSource_render_refused :
    ¬∀ (source : String) (file : Option String), ∀ e ∈ (Report.ofSource source file).diagnostics,
      ∃ text, e.render source = .ok text := by
  intro h
  have hall := h (String.ofList (paddedLet 65532)) none
  rw [diagnostics_paddedLet, saturate_of_le (Nat.le_refl _) (by decide),
    List.forall_mem_singleton] at hall
  obtain ⟨text, htext⟩ := hall
  have hdashes := (Diagnostic.render_eq_ok_iff.mp htext).1
  rw [dashes_paddedLet rfl] at hdashes
  exact absurd hdashes (by decide)

end ScriptReader
