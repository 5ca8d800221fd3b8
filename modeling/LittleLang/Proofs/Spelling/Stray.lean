import LittleLang.Proofs.Spelling.Lemmas.Recovery

/-!
# Bytes that fit nowhere but in strings

The quotes of a text open and close strings in turn, so their number tells whether a place lies
within a string. The reading of a text ends at its first stray byte.
-/

namespace LittleLang.Decl

open ByteClass Scanner

/-- A blank, a digit, an ASCII letter or the underscore, a mark or the quote. -/
def Familiar (b : UInt8) : Prop :=
  (b = 0x20 ∨ b = 0x09 ∨ b = 0x0D ∨ b = 0x0A) ∨ (0x30 ≤ b ∧ b ≤ 0x39) ∨
    (0x61 ≤ b ∧ b ≤ 0x7A ∨ 0x41 ≤ b ∧ b ≤ 0x5A ∨ b = 0x5F) ∨ b ∈ ascii "=,()\x7b\x7d#" ∨ b = 0x22

/-- The byte at the index is not familiar, and an even number of quotes comes before it. -/
def Stray (text : List UInt8) (i : Nat) : Prop :=
  ∃ b ∈ text[i]?, ¬ Familiar b ∧ (text.take i).count 0x22 % 2 = 0

instance : DecidablePred Familiar := fun _ => inferInstanceAs (Decidable (_ ∨ _ ∨ _ ∨ _ ∨ _))

instance (text : List UInt8) (i : Nat) : Decidable (Stray text i) :=
  inferInstanceAs (Decidable (∃ b ∈ text[i]?, ¬ Familiar b ∧ (text.take i).count 0x22 % 2 = 0))

variable {b : UInt8} {kind : TokenKind} {passed bytes rest value : List UInt8} {i : Nat}

/-! ## Familiar bytes -/

theorem familiar_iff : Familiar b ↔ lexicon.blank.trigger.contains b = true ∨
    ∃ rule ∈ lexicon.rules, rule.trigger.contains b = true := by
  simp only [Familiar, lexicon, BlankRule.whitespace, List.mem_cons, List.not_mem_nil, or_false,
    exists_eq_or_imp, exists_eq_left, contains_blanks, contains_digits, contains_letters,
    contains_punctuation, contains_quote]

theorem not_familiar (blank : lexicon.blank.trigger.contains b = false)
    (found : lexicon.ruleFor? b = none) : ¬ Familiar b := by
  rw [familiar_iff, blank]
  simpa [Lexicon.ruleFor?] using found

theorem familiar_of_blank (h : lexicon.blank.trigger.contains b = true) : Familiar b :=
  .inl (contains_blanks.mp h)

theorem familiar_of_digit (h : digits.contains b = true) : Familiar b :=
  .inr (.inl (contains_digits.mp h))

theorem familiar_of_letter (h : letters.contains b = true) : Familiar b :=
  .inr (.inr (.inl (contains_letters.mp h)))

theorem familiar_of_alphanumeric (h : alphanumeric.contains b = true) : Familiar b := by
  rcases contains_alphanumeric.mp h with h | h
  · exact familiar_of_letter h
  · exact familiar_of_digit h

theorem familiar_of_mark (h : kind.mark? = some b) : Familiar b := by
  refine .inr (.inr (.inr (.inl ?_)))
  cases kind <;> cases h <;> decide

theorem familiar_quote : Familiar 0x22 := .inr (.inr (.inr (.inr rfl)))

/-! ## Texts that begin with a blank or a token -/

theorem not_stray_of_familiar (h : ∀ b ∈ bytes, Familiar b) (lt : i < bytes.length) :
    ¬ Stray (bytes ++ rest) i := by
  rintro ⟨b, stands, strange, -⟩
  rw [List.getElem?_append_left lt] at stands
  exact strange (h b (List.mem_of_getElem? stands))

/-- Behind the opening quote the number of quotes is odd. -/
theorem not_stray_inside (free : 0x22 ∉ value) (le : i ≤ value.length) :
    ¬ Stray (0x22 :: (value ++ rest)) i := by
  rintro ⟨b, stands, strange, even⟩
  cases i with
  | zero =>
      cases stands
      exact strange familiar_quote
  | succ i =>
      have inside : 0x22 ∉ value.take i := fun mem => free (List.mem_of_mem_take mem)
      rw [List.take_succ_cons, List.take_append_of_le_length (Nat.le_of_succ_le le),
        List.count_cons_self, List.count_eq_zero.mpr inside] at even
      cases even

theorem Spelling.not_stray (h : Spelling kind value bytes rest) (lt : i < bytes.length) :
    ¬ Stray (bytes ++ rest) i := by
  cases h with
  | num ne all stop => exact not_stray_of_familiar (fun b hb => familiar_of_digit (all b hb)) lt
  | word hb more stop =>
      refine not_stray_of_familiar (List.forall_mem_cons.mpr ⟨familiar_of_letter hb, ?_⟩) lt
      exact fun c hc => familiar_of_alphanumeric (more c hc)
  | mark hm => exact not_stray_of_familiar (by simpa using familiar_of_mark hm) lt
  | @closed _ rest free =>
      rw [List.cons_append, List.append_assoc]
      simp only [List.length_cons, List.length_append, List.length_nil] at lt
      rcases Nat.lt_or_eq_of_le (Nat.le_of_lt_succ lt) with lt | rfl
      · exact not_stray_inside free (Nat.le_of_lt_succ lt)
      · rintro ⟨b, stands, strange, -⟩
        have closing : b = 0x22 := by simpa using stands.symm
        exact strange (closing ▸ familiar_quote)
  | unclosed free => exact not_stray_inside free (Nat.le_of_lt_succ lt)

theorem stray_append (even : bytes.count 0x22 % 2 = 0) :
    Stray (bytes ++ rest) (bytes.length + i) ↔ Stray rest i := by
  simp only [Stray, List.getElem?_append_right (Nat.le_add_right _ _), Nat.add_sub_cancel_left,
    List.take_length_add_append, List.count_append, Nat.add_mod, even, Nat.zero_add, Nat.mod_mod]

theorem not_stray_nil : ¬ Stray [] i := by
  rintro ⟨b, stands, -⟩
  cases stands

/-- Behind bytes that are not stray, which leave no string open unless the text ends with them, the
bytes are stray as they are by themselves. -/
theorem stray_append_iff (clear : ∀ i < bytes.length, ¬ Stray (bytes ++ rest) i)
    (even : rest ≠ [] → bytes.count 0x22 % 2 = 0) :
    Stray (bytes ++ rest) i ↔ ∃ j, i = bytes.length + j ∧ Stray rest j := by
  constructor
  · intro stray
    obtain ⟨j, rfl⟩ := Nat.exists_eq_add_of_le (Nat.le_of_not_lt fun lt => clear i lt stray)
    refine ⟨j, rfl, ?_⟩
    by_cases ne : rest = []
    · obtain ⟨b, stands, -⟩ := stray
      simp [ne] at stands
    · exact (stray_append (even ne)).mp stray
  · rintro ⟨j, rfl, stray⟩
    have ne : rest ≠ [] := by
      rintro rfl
      exact not_stray_nil stray
    exact (stray_append (even ne)).mpr stray

theorem Spelling.stray_iff (h : Spelling kind value bytes rest) :
    Stray (bytes ++ rest) i ↔ ∃ j, i = bytes.length + j ∧ Stray rest j :=
  stray_append_iff (fun _ => h.not_stray) h.even_quotes

theorem stray_blank_iff (hb : lexicon.blank.trigger.contains b = true) :
    Stray ([b] ++ rest) i ↔ ∃ j, i = [b].length + j ∧ Stray rest j := by
  refine stray_append_iff (fun _ => not_stray_of_familiar ?_) fun _ => ?_
  · simpa using familiar_of_blank hb
  · rcases blank_of_trigger hb with rfl | rfl | rfl | rfl <;> rfl

/-! ## Whole texts -/

/-- Either the bytes ahead have tokens and none of them is stray, or the first stray byte is
reported with its place in the whole text. -/
def EndsAtStray (passed rest : List UInt8) : Prop :=
  ((∃ ts, tokensFrom passed rest = .ok ts) ∧ ∀ i, ¬ Stray rest i) ∨
    ∃ i b, Stray rest i ∧ (∀ j < i, ¬ Stray rest j) ∧ rest[i]? = some b ∧
      tokensFrom passed rest = Outcome.fault (.unexpectedByte b
        ⟨lineAfter (passed.reverse ++ rest.take i), columnAfter (passed.reverse ++ rest.take i),
          passed.length + i⟩)

theorem EndsAtStray.behind {f : List Token → List Token}
    (later : EndsAtStray (bytes.reverse ++ passed) rest)
    (stray : ∀ {i}, Stray (bytes ++ rest) i ↔ ∃ j, i = bytes.length + j ∧ Stray rest j)
    (read : tokensFrom passed (bytes ++ rest) = f <$> tokensFrom (bytes.reverse ++ passed) rest) :
    EndsAtStray passed (bytes ++ rest) := by
  rcases later with ⟨⟨ts, lexed⟩, clear⟩ | ⟨i, b, first, before, stands, stops⟩
  · refine .inl ⟨⟨f ts, by rw [read, lexed]; rfl⟩, fun i h => ?_⟩
    obtain ⟨j, -, h⟩ := stray.mp h
    exact clear j h
  · have place : (bytes.reverse ++ passed).reverse ++ rest.take i =
        passed.reverse ++ (bytes ++ rest).take (bytes.length + i) := by
      rw [List.take_length_add_append]
      simp
    have offset : (bytes.reverse ++ passed).length + i = passed.length + (bytes.length + i) := by
      simp only [List.length_append, List.length_reverse]
      omega
    rw [place, offset] at stops
    refine .inr ⟨bytes.length + i, b, stray.mpr ⟨i, rfl, first⟩, fun k lt inside => ?_, ?_, ?_⟩
    · obtain ⟨j, rfl, h⟩ := stray.mp inside
      exact before j (Nat.lt_of_add_lt_add_left lt) h
    · rw [List.getElem?_append_right (Nat.le_add_right _ _), Nat.add_sub_cancel_left, stands]
    · rw [read, stops]
      rfl

theorem endsAtStray (passed rest : List UInt8) : EndsAtStray passed rest := by
  induction rest using reading_induction generalizing passed with
  | done => exact .inl ⟨⟨[], rfl⟩, fun _ => not_stray_nil⟩
  | blank b rest hb ih =>
      refine @EndsAtStray.behind passed [b] rest id (ih (b :: passed)) (stray_blank_iff hb) ?_
      rw [id_map]
      exact tokensFrom_blank hb
  | token kind value bytes rest spelled ih =>
      exact (ih (bytes.reverse ++ passed)).behind spelled.stray_iff (tokensFrom_spelling spelled passed)
  | stray b rest hb found =>
      have first : Stray (b :: rest) 0 := ⟨b, rfl, not_familiar hb found, rfl⟩
      refine .inr ⟨0, b, first, fun j lt => absurd lt (Nat.not_lt_zero j), rfl, ?_⟩
      rw [tokensFrom_none hb found, position_tracking]
      simp

end LittleLang.Decl
