import ScriptReader.Proofs.Source.Lines

/-! The bytes of a source. A line feed is one byte, which is part of no other
character, so that the lines of a source can be told by its bytes. -/

namespace ScriptReader

open Text

/-- The bytes of a text in UTF-8. -/
def utf8Bytes (cs : List Char) : List UInt8 := cs.flatMap String.utf8EncodeChar

@[simp] theorem utf8Bytes_append (cs ds : List Char) :
    utf8Bytes (cs ++ ds) = utf8Bytes cs ++ utf8Bytes ds := List.flatMap_append

theorem toByteArray_ofList (cs : List Char) :
    (String.ofList cs).toByteArray.data.toList = utf8Bytes cs := by
  rw [String.toByteArray_ofList, List.utf8Encode, List.data_toByteArray]
  rfl

theorem toByteArray_eq (s : String) : s.toByteArray.data.toList = utf8Bytes s.toList := by
  rw [← toByteArray_ofList, String.ofList_toList]

theorem length_utf8Bytes (cs : List Char) : (utf8Bytes cs).length = byteLength cs := by
  induction cs with
  | nil => rfl
  | cons c cs ih =>
    rw [utf8Bytes, List.flatMap_cons, List.length_append, String.length_utf8EncodeChar,
      byteLength_cons]
    exact congrArg _ ih

theorem lineFeed_eq_ofNat_iff {n : Nat} : (10 : UInt8) = UInt8.ofNat n ↔ n % 256 = 10 := by
  rw [eq_comm, ← UInt8.toNat_inj, UInt8.toNat_ofNat']
  rfl

theorem lineFeed_mem_utf8EncodeChar {c : Char} : 10 ∈ String.utf8EncodeChar c ↔ c = '\n' := by
  have hc : c = '\n' ↔ c.val.toNat = 10 := by
    rw [← Char.val_inj, ← UInt32.toNat_inj]
    rfl
  -- Where a character has several bytes, all of them are 128 or more.
  rw [hc, String.utf8EncodeChar]
  split_ifs <;> simp only [List.mem_cons, List.not_mem_nil, or_false, lineFeed_eq_ofNat_iff] <;>
    omega

theorem lineFeed_mem_utf8Bytes {cs : List Char} : 10 ∈ utf8Bytes cs ↔ '\n' ∈ cs := by
  rw [utf8Bytes, List.mem_flatMap]
  constructor
  · rintro ⟨c, hc, h⟩
    exact lineFeed_mem_utf8EncodeChar.mp h ▸ hc
  · exact fun h => ⟨'\n', h, lineFeed_mem_utf8EncodeChar.mpr rfl⟩

theorem count_utf8Bytes (cs : List Char) : (utf8Bytes cs).count 10 = cs.count '\n' := by
  induction cs with
  | nil => rfl
  | cons c cs ih =>
    have hcs : utf8Bytes (c :: cs) = String.utf8EncodeChar c ++ utf8Bytes cs := rfl
    rw [hcs, List.count_append, ih]
    by_cases hc : c = '\n'
    · subst hc
      rw [List.count_cons_self, Nat.add_comm]
      rfl
    · have hnone := List.count_eq_zero_of_not_mem (mt lineFeed_mem_utf8EncodeChar.mp hc)
      rw [List.count_cons_of_ne hc, hnone, Nat.zero_add]

theorem getLast?_utf8Bytes {cs : List Char} (h : cs.getLast? = some '\n') :
    (utf8Bytes cs).getLast? = some 10 := by
  obtain ⟨ds, rfl⟩ := List.getLast?_eq_some_iff.mp h
  rw [utf8Bytes_append, List.getLast?_append]
  rfl

/-- What the line is in the bytes of its text. -/
theorem Line.Cuts.bytes {l : Line} {number : Nat} {before body behind : List Char}
    (h : l.Cuts number before body behind) :
    let line := l.text.toByteArray.data.toList
    utf8Bytes (before ++ body ++ behind) =
        utf8Bytes before ++ line ++ utf8Bytes (behind.drop 1) ∧
      10 ∉ line.take l.offset ∧ 10 ∉ (line.drop l.offset).dropLast ∧
      (utf8Bytes (behind.drop 1) = [] ∨ (line.drop l.offset).getLast? = some 10) := by
  intro line
  have hline : line = utf8Bytes body ++ utf8Bytes (behind.take 1) := by
    simp only [line, Line.text, toByteArray_ofList, h.chars_eq, utf8Bytes_append]
  have hle : l.offset ≤ (utf8Bytes body).length := length_utf8Bytes body ▸ h.offset_le
  have hbody : 10 ∉ utf8Bytes body := mt lineFeed_mem_utf8Bytes.mp h.unbroken
  have hdrop : 10 ∉ (utf8Bytes body).drop l.offset := fun hm => hbody (List.mem_of_mem_drop hm)
  rw [hline, List.take_append_of_le_length hle, List.drop_append_of_le_length hle]
  refine ⟨?_, fun hm => hbody (List.mem_of_mem_take hm), ?_⟩
  · rw [← List.append_assoc, List.append_assoc, List.append_assoc, ← utf8Bytes_append,
      ← utf8Bytes_append, ← utf8Bytes_append, List.take_append_drop, List.append_assoc]
  · rcases h.ends with rfl | hhead
    · refine ⟨fun hm => hdrop ?_, .inl rfl⟩
      simpa [utf8Bytes] using (List.dropLast_sublist _).subset hm
    · obtain ⟨rest, rfl⟩ := List.head?_eq_some_iff.mp hhead
      have hfeed : utf8Bytes (('\n' :: rest).take 1) = [10] := rfl
      rw [hfeed, List.dropLast_concat]
      exact ⟨hdrop, .inr List.getLast?_concat⟩

/-- The line that is found for a position, in bytes. A position past the end counts as the end. The
number of the line is one more than there are line feeds in front of the position. The line begins
behind the last of these, or with the source, and goes on up to the next line feed and with it, or
to the end of the source. Read from the place on that is found for its start, the line of a token
begins with the token. -/
theorem locate_exact (source : String) (position : Nat) :
    (∃ before line after, source.toByteArray.data.toList = before ++ line ++ after ∧
      (locate source position).text.toByteArray.data.toList = line ∧
      let l := locate source position
      let pos := min position source.utf8ByteSize
      before.length + l.offset = pos ∧
        l.number = 1 + (source.toByteArray.data.toList.take pos).count 10 ∧
        (before = [] ∨ before.getLast? = some 10) ∧ 10 ∉ line.take l.offset ∧
        10 ∉ (line.drop l.offset).dropLast ∧
        (after = [] ∨ (line.drop l.offset).getLast? = some 10)) ∧
    ∀ file, source.utf8ByteSize < 4294967296 → ∀ t ∈ tokenize source file,
      let l := locate source t.span.start.offset
      t.text.toByteArray.data.toList <+: l.text.toByteArray.data.toList.drop l.offset := by
  constructor
  · obtain ⟨before, body, behind, hsource, hcuts, hoffset⟩ := exists_cuts_locate source position
    obtain ⟨hbytes, htake, hdrop, hends⟩ := hcuts.bytes
    rw [← hsource, ← toByteArray_eq] at hbytes
    refine ⟨_, _, _, hbytes, rfl, ?_⟩
    intro l pos
    have hpos : (utf8Bytes before).length + l.offset = pos := by rw [length_utf8Bytes, hoffset]
    refine ⟨hpos, ?_, hcuts.begins.imp (congrArg utf8Bytes) getLast?_utf8Bytes, htake, hdrop, hends⟩
    have hle : l.offset ≤ l.text.toByteArray.data.toList.length := by
      rw [Line.text, toByteArray_ofList, length_utf8Bytes, hcuts.chars_eq, byteLength_append]
      exact Nat.le_add_right_of_le hcuts.offset_le
    have hcount := List.count_eq_zero_of_not_mem htake
    rw [← hpos, hbytes, List.append_assoc, List.take_length_add_append,
      List.take_append_of_le_length hle, List.count_append, hcount, count_utf8Bytes,
      hcuts.number_eq, Nat.add_zero]
  · intro file hlength t ht l
    obtain ⟨before, lead, rest, behind, -, hcuts, hlead, -, -⟩ :=
      exists_cuts_of_mem_tokenize hlength ht
    refine ⟨utf8Bytes (rest ++ behind.take 1), ?_⟩
    rw [toByteArray_eq, Line.text, toByteArray_ofList, hcuts.chars_eq, ← hlead, ← length_utf8Bytes]
    simp

/-- A position inside a character of the second line, and the tokens of both lines. -/
theorem locate_exact_accent :
    let source := String.ofList ['x', '\n', 'é', ';']
    locate source 3 = ⟨2, ['é', ';'], 1⟩ ∧ source.utf8ByteSize < 4294967296 ∧
      ∀ t ∈ tokenize source none,
        let l := locate source t.span.start.offset
        t.text.toByteArray.data.toList <+: l.text.toByteArray.data.toList.drop l.offset := by
  intro source
  have hlength : source.utf8ByteSize < 4294967296 := by
    rw [utf8ByteSize_ofList]
    decide
  exact ⟨by decide, hlength, (locate_exact source 3).2 none hlength⟩

end ScriptReader
