import MapAudit.Stream.Bytes

namespace MapAudit.Stream

def ofText (s : String) : Bytes := s.toUTF8.toList

theorem loop_toList (b : ByteArray) (i : Nat) (r : Bytes) :
    ByteArray.toList.loop b i r = r.reverse ++ b.data.toList.drop i := by
  fun_induction ByteArray.toList.loop b i r with
  | case1 i r h ih =>
    have hi : i < b.data.toList.length := h
    have hget : b.get! i = b.data.toList[i] := getElem!_pos b.data i h
    rw [ih, List.drop_eq_getElem_cons hi, hget, List.reverse_cons, List.append_assoc]
    rfl
  | case2 i r h =>
    have hi : b.data.toList.length ≤ i := Nat.le_of_not_lt h
    rw [List.drop_eq_nil_of_le hi, List.append_nil]

theorem toList_byteArray (b : ByteArray) : b.toList = b.data.toList := loop_toList b 0 []

theorem ofText_eq (s : String) : ofText s = s.toList.flatMap String.utf8EncodeChar := by
  unfold ofText
  rw [toList_byteArray, String.toUTF8_eq_toByteArray, ← String.utf8Encode_toList, List.utf8Encode,
    List.toList_data_toByteArray]

theorem ofText_append (s t : String) : ofText (s ++ t) = ofText s ++ ofText t := by
  rw [ofText_eq, ofText_eq, ofText_eq, String.toList_append, List.flatMap_append]

/-- A byte below 128 is a character by itself. -/
theorem toNat_of_mem_utf8EncodeChar {c : Char} {b : UInt8} (h : b ∈ String.utf8EncodeChar c)
    (hb : b.toNat < 128) : c.toNat = b.toNat := by
  -- Every byte of a longer encoding has at least 128 added to its bits of the character.
  have hlarge {n k : Nat} (hk : 128 ≤ n) (hsum : k + n < 256) : b ≠ UInt8.ofNat (k + n) := by
    rintro rfl
    rw [UInt8.toNat_ofNat', Nat.mod_eq_of_lt hsum] at hb
    omega
  unfold String.utf8EncodeChar at h
  dsimp only at h
  split at h
  · next hascii =>
    obtain rfl := List.mem_singleton.1 h
    rw [UInt8.toNat_ofNat', Nat.mod_eq_of_lt (by omega)]
    rfl
  · exfalso
    split at h
    · simp only [List.mem_cons, List.not_mem_nil, or_false] at h
      rcases h with h | h <;> exact hlarge (by omega) (by omega) h
    · split at h
      · simp only [List.mem_cons, List.not_mem_nil, or_false] at h
        rcases h with h | h | h <;> exact hlarge (by omega) (by omega) h
      · simp only [List.mem_cons, List.not_mem_nil, or_false] at h
        rcases h with h | h | h | h <;> exact hlarge (by omega) (by omega) h

theorem lineFeed_not_mem_ofText {s : String} (h : '\n' ∉ s.toList) : lineFeed ∉ ofText s := by
  rw [ofText_eq, List.mem_flatMap]
  rintro ⟨c, hc, hmem⟩
  have hvalue := toNat_of_mem_utf8EncodeChar hmem (by decide)
  obtain rfl : c = '\n' := Char.toNat_inj.1 hvalue
  exact h hc

theorem utf8EncodeChar_of_toNat_lt {c : Char} (h : c.toNat < 128) :
    String.utf8EncodeChar c = [UInt8.ofNat c.toNat] := by
  unfold String.utf8EncodeChar
  exact if_pos (Nat.le_of_lt_succ h)

/-- A last byte below 128 is the last character of the text. -/
theorem exists_concat_of_ofText {s : String} {bs : Bytes} {b : UInt8} (h : ofText s = bs ++ [b])
    (hb : b.toNat < 128) :
    ∃ cs c, s.toList = cs ++ [c] ∧ c.toNat = b.toNat ∧ bs = ofText (String.ofList cs) := by
  rw [ofText_eq] at h
  rcases List.eq_nil_or_concat s.toList with hs | ⟨cs, c, hs⟩
  · rw [hs] at h
    exact absurd h.symm (List.append_ne_nil_of_right_ne_nil _ (List.cons_ne_nil _ _))
  · rw [List.concat_eq_append] at hs
    rw [hs, List.flatMap_append, List.flatMap_singleton] at h
    have hmem : b ∈ String.utf8EncodeChar c := by
      have hlast := congrArg List.getLast? h
      rw [List.getLast?_append, List.getLast?_concat,
        List.getLast?_eq_some_getLast String.utf8EncodeChar_ne_nil, Option.some_or] at hlast
      exact Option.some.inj hlast ▸ List.getLast_mem _
    have hc := toNat_of_mem_utf8EncodeChar hmem hb
    rw [utf8EncodeChar_of_toNat_lt (hc ▸ hb)] at h
    refine ⟨cs, c, hs, hc, ?_⟩
    rw [ofText_eq, String.toList_ofList]
    exact (List.append_inj_left' h rfl).symm

/-- The bytes of a text end in a carriage return only if the text does. -/
theorem getLast?_ofText {s : String} (h : (ofText s).getLast? = some carriageReturn) :
    s.toList.getLast? = some '\r' := by
  obtain ⟨bs, hbs⟩ := List.getLast?_eq_some_iff.1 h
  obtain ⟨cs, c, hs, hc, -⟩ := exists_concat_of_ofText hbs (by decide)
  obtain rfl : c = '\r' := Char.toNat_inj.1 hc
  rw [hs, List.getLast?_concat]

namespace Cut

theorem step_lineFeed (c : Cut) : c.step lineFeed = ⟨(lineFeed :: c.rest).reverse :: c.done, []⟩ :=
  if_pos rfl

theorem step_of_ne (c : Cut) {b : UInt8} (h : b ≠ lineFeed) : c.step b = ⟨c.done, b :: c.rest⟩ :=
  if_neg h

theorem foldl_step_of_not_mem {bs : Bytes} (h : lineFeed ∉ bs) (c : Cut) :
    bs.foldl step c = ⟨c.done, bs.reverse ++ c.rest⟩ := by
  induction bs generalizing c with
  | nil => rfl
  | cons b bs ih =>
    have hb : b ≠ lineFeed := fun hb => h (hb ▸ List.mem_cons_self)
    rw [List.foldl_cons, step_of_ne c hb, ih fun hmem => h (List.mem_cons_of_mem _ hmem),
      List.reverse_cons, List.append_assoc]
    rfl

/-- Lines that are cut off already stay in front of those to come. -/
theorem lines_foldl_step (bs : Bytes) (done : List Bytes) (rest : Bytes) :
    (bs.foldl step ⟨done, rest⟩).lines = done.reverse ++ (bs.foldl step ⟨[], rest⟩).lines := by
  induction bs generalizing done rest with
  | nil =>
    change (if rest.isEmpty then done else rest.reverse :: done).reverse =
      done.reverse ++ (if rest.isEmpty then [] else [rest.reverse]).reverse
    split
    · rw [List.reverse_nil, List.append_nil]
    · rw [List.reverse_cons]
      rfl
  | cons b bs ih =>
    rw [List.foldl_cons, List.foldl_cons]
    by_cases hb : b = lineFeed
    · rw [hb, step_lineFeed, step_lineFeed, ih, ih [_], List.reverse_cons, List.append_assoc]
      rfl
    · rw [step_of_ne _ hb, step_of_ne _ hb, ih]

end Cut

/-- A line is cut off at its line feed. -/
theorem lines_append {bs : Bytes} (h : lineFeed ∉ bs) (rest : Bytes) :
    lines (bs ++ lineFeed :: rest) = (bs ++ [lineFeed]) :: lines rest := by
  have hline : (lineFeed :: bs.reverse).reverse = bs ++ [lineFeed] := by
    rw [List.reverse_cons, List.reverse_reverse]
  unfold lines
  rw [List.foldl_append, Cut.foldl_step_of_not_mem h, List.append_nil, List.foldl_cons,
    Cut.step_lineFeed, Cut.lines_foldl_step, hline]
  rfl

/-- What follows the last line feed is a line unless it is empty. -/
theorem lines_of_not_mem {bs : Bytes} (h : lineFeed ∉ bs) :
    lines bs = if bs.isEmpty then [] else [bs] := by
  unfold lines
  rw [Cut.foldl_step_of_not_mem h, List.append_nil]
  unfold Cut.lines
  rw [List.isEmpty_reverse, List.reverse_reverse]
  split <;> rfl

theorem content_append_crlf (bs : Bytes) : content (bs ++ [carriageReturn, lineFeed]) = bs := by
  unfold content
  rw [List.reverse_append]
  exact List.reverse_reverse bs

theorem content_append_lineFeed {bs : Bytes} (h : bs.getLast? ≠ some carriageReturn) :
    content (bs ++ [lineFeed]) = bs := by
  unfold content
  rw [List.reverse_append]
  cases hbs : bs.reverse with
  | nil => rw [List.reverse_eq_nil_iff.1 hbs]; rfl
  | cons c cs =>
    have hc : c ≠ carriageReturn := by
      rintro rfl
      exact h (by rw [← List.head?_reverse, hbs]; rfl)
    change (if lineFeed = lineFeed then
      if c = carriageReturn then cs.reverse else (c :: cs).reverse else _) = bs
    rw [if_pos rfl, if_neg hc, ← hbs, List.reverse_reverse]

theorem content_of_not_mem {bs : Bytes} (h : lineFeed ∉ bs) : content bs = bs := by
  have hrev : lineFeed ∉ bs.reverse := fun hmem => h (List.mem_reverse.1 hmem)
  unfold content
  split
  · next b c cs hbs =>
    rw [if_neg]
    rintro rfl
    exact hrev (hbs ▸ List.mem_cons_self)
  · next b hbs =>
    rw [if_neg]
    rintro rfl
    exact hrev (hbs ▸ List.mem_cons_self)
  · next hbs => exact (List.reverse_eq_nil_iff.1 hbs).symm

theorem text?_of_content {line : Bytes} {s : String} (h : content line = ofText s) :
    text? line = some s := by
  unfold text?
  have hbytes : (⟨(ofText s).toArray⟩ : ByteArray) = s.toByteArray := by
    unfold ofText
    rw [toList_byteArray]
    rfl
  rw [h, hbytes]
  exact dif_pos s.isValidUTF8

theorem ofText_lineFeed : ofText "\n" = [lineFeed] := by
  rw [ofText_eq]
  rfl

theorem ofText_crlf : ofText "\r\n" = [carriageReturn, lineFeed] := by
  rw [ofText_eq]
  rfl

theorem text?_append_crlf (s : String) : text? (ofText (s ++ "\r\n")) = some s := by
  apply text?_of_content
  rw [ofText_append, ofText_crlf, content_append_crlf]

theorem text?_append_lineFeed {s : String} (h : s.toList.getLast? ≠ some '\r') :
    text? (ofText (s ++ "\n")) = some s := by
  apply text?_of_content
  rw [ofText_append, ofText_lineFeed]
  exact content_append_lineFeed fun hlast => h (getLast?_ofText hlast)

/-- The texts that end a line. -/
def EndsLine (e : String) : Prop := e = "\n" ∨ e = "\r\n"

/-- A text without line feeds is a line as soon as it is ended. -/
theorem lines_ofText_append {s e : String} (hs : '\n' ∉ s.toList) (he : EndsLine e)
    (rest : String) :
    lines (ofText (s ++ e ++ rest)) = ofText (s ++ e) :: lines (ofText rest) := by
  have hline := lineFeed_not_mem_ofText hs
  simp only [ofText_append]
  rcases he with rfl | rfl
  · rw [ofText_lineFeed, List.append_assoc]
    exact lines_append hline _
  · have hreturn : lineFeed ∉ ofText s ++ [carriageReturn] := by
      rw [List.mem_append, not_or]
      exact ⟨hline, by decide⟩
    have hsplit := lines_append hreturn (ofText rest)
    rw [List.append_assoc, List.append_assoc] at hsplit
    rw [ofText_crlf, List.append_assoc]
    exact hsplit

theorem text?_ofText {s : String} (h : '\n' ∉ s.toList) : text? (ofText s) = some s :=
  text?_of_content (content_of_not_mem (lineFeed_not_mem_ofText h))

end MapAudit.Stream
