import LittleLang.Proofs.Spelling.Lemmas.Lexing

/-!
# What is spelled is read
-/

namespace LittleLang.Decl

open Scanner

variable {b : UInt8} {passed rest : List UInt8}

/-! ## The rule for a byte -/

theorem not_blank_of_digit (h : ByteClass.digits.contains b = true) :
    lexicon.blank.trigger.contains b = false := by
  cases hb : lexicon.blank.trigger.contains b with
  | false => rfl
  | true => rcases blank_of_trigger hb with rfl | rfl | rfl | rfl <;> cases h

theorem not_blank_of_letter (h : ByteClass.letters.contains b = true) :
    lexicon.blank.trigger.contains b = false := by
  cases hb : lexicon.blank.trigger.contains b with
  | false => rfl
  | true => rcases blank_of_trigger hb with rfl | rfl | rfl | rfl <;> cases h

theorem not_digit_of_letter (h : ByteClass.letters.contains b = true) :
    ByteClass.digits.contains b = false := by
  simp [ByteClass.letters, ByteClass.digits, ByteClass.union, ByteClass.between, ByteClass.single,
    UInt8.le_iff_toNat_le, ← UInt8.toNat_inj] at *
  omega

theorem ruleFor?_digit (h : ByteClass.digits.contains b = true) :
    lexicon.ruleFor? b = some ⟨.digits, readRun .num .digits⟩ := by
  simp [Lexicon.ruleFor?, lexicon, h]

theorem ruleFor?_letter (h : ByteClass.letters.contains b = true) :
    lexicon.ruleFor? b = some ⟨.letters, readRun .word .alphanumeric⟩ := by
  simp [Lexicon.ruleFor?, lexicon, h, not_digit_of_letter h]

theorem mark_known {kind : TokenKind} (h : kind.mark? = some b) :
    lexicon.blank.trigger.contains b = false ∧ b ≠ 0x0A ∧ TokenKind.ofMark? b = some kind ∧
      lexicon.ruleFor? b = some ⟨.punctuation, readMark⟩ := by
  cases kind <;> cases h <;> exact ⟨rfl, by decide, rfl, rfl⟩

/-! ## Runs of a class -/

theorem takeWhile_run {p : UInt8 → Bool} {bs : List UInt8} (h : ∀ b ∈ bs, p b = true)
    (stop : ∀ b ∈ rest.head?, p b = false) :
    (bs ++ rest).takeWhile p = bs ∧ (bs ++ rest).dropWhile p = rest := by
  have ends : rest.takeWhile p = [] ∧ rest.dropWhile p = rest := by
    cases rest with
    | nil => exact ⟨rfl, rfl⟩
    | cons c rest => simp [stop c rfl]
  rw [List.takeWhile_append_of_pos h, List.dropWhile_append_of_pos h, ends.1, ends.2]
  simp

theorem readRun_spelled {c : ByteClass} (hc : c.contains 0x0A = false) (kind : TokenKind)
    {bs : List UInt8} (h : ∀ b ∈ bs, c.contains b = true)
    (stop : ∀ b ∈ rest.head?, c.contains b = false) (passed : List UInt8) :
    readRun kind c (tracking passed (bs ++ rest)) =
      (⟨kind, bs, lineAfter passed.reverse, columnAfter passed.reverse⟩,
        tracking (bs.reverse ++ passed) rest) := by
  obtain ⟨taken, dropped⟩ := takeWhile_run h stop
  rw [readRun_tracking hc, taken, dropped]

theorem ne_of_not_mem {q : UInt8} {bs : List UInt8} (free : q ∉ bs) :
    ∀ b ∈ bs, (b != q) = true := by
  intro b hb
  simp only [bne_iff_ne]
  rintro rfl
  exact free hb

theorem readString_closed {value : List UInt8} (free : 0x22 ∉ value) (passed rest : List UInt8) :
    readString (tracking passed (0x22 :: (value ++ 0x22 :: rest))) =
      (⟨.str, value, lineAfter passed.reverse, columnAfter passed.reverse⟩,
        tracking (0x22 :: (value.reverse ++ 0x22 :: passed)) rest) := by
  obtain ⟨taken, dropped⟩ :=
    @takeWhile_run (0x22 :: rest) (· != 0x22) value (ne_of_not_mem free) (by simp)
  simp only [readString, advance_tracking (show (0x22 : UInt8) ≠ 0x0A by decide),
    takeString_tracking, startingAt_tracking, taken, dropped]
  simp

theorem readString_unclosed {value : List UInt8} (free : 0x22 ∉ value) (passed : List UInt8) :
    readString (tracking passed (0x22 :: value)) =
      (⟨.str, value, lineAfter passed.reverse, columnAfter passed.reverse⟩,
        tracking (value.reverse ++ 0x22 :: passed) []) := by
  obtain ⟨taken, dropped⟩ := @takeWhile_run [] (· != 0x22) value (ne_of_not_mem free) (by simp)
  rw [List.append_nil] at taken dropped
  simp only [readString, advance_tracking (show (0x22 : UInt8) ≠ 0x0A by decide),
    takeString_tracking, startingAt_tracking, taken, dropped]
  simp

/-! ## Whole texts -/

/-- The tokens of the bytes ahead, where others have been passed. -/
def tokensFrom (passed rest : List UInt8) : Outcome LexFault (List Token) :=
  (lexicon.scanWithin rest.length (tracking passed rest)).1

theorem tokensFrom_blank (hb : lexicon.blank.trigger.contains b = true) :
    tokensFrom passed (b :: rest) = tokensFrom (b :: passed) rest :=
  congrArg Prod.fst (scanWithin_blank hb)

theorem tokensFrom_none (hb : lexicon.blank.trigger.contains b = false)
    (found : lexicon.ruleFor? b = none) : tokensFrom passed (b :: rest) =
      Outcome.fault (.unexpectedByte b (tracking passed (b :: rest)).position) :=
  congrArg Prod.fst (scanWithin_none hb found)

theorem tokensFrom_rule {rule : TokenRule Token} {t : Token} {later ahead : List UInt8}
    (hb : lexicon.blank.trigger.contains b = false) (found : lexicon.ruleFor? b = some rule)
    (read : rule.read (tracking passed (b :: rest)) = (t, tracking later ahead))
    (le : ahead.length ≤ rest.length) :
    tokensFrom passed (b :: rest) = (t :: ·) <$> tokensFrom later ahead := by
  have rounds := Lexicon.scanWithin_eq lexicon_advances (s := tracking later ahead) rfl le
    (Nat.le_refl ahead.length)
  rw [tokensFrom, List.length_cons, scanWithin_rule hb found read, rounds]
  rfl

/-- A spelled token is read, and the reading goes on behind it. -/
theorem tokensFrom_spelling {kind : TokenKind} {value bytes : List UInt8}
    (h : Spelling kind value bytes rest) (passed : List UInt8) :
    tokensFrom passed (bytes ++ rest) =
      (⟨kind, value, lineAfter passed.reverse, columnAfter passed.reverse⟩ :: ·) <$>
        tokensFrom (bytes.reverse ++ passed) rest := by
  cases h with
  | num ne digits stop =>
      obtain ⟨b, bs, rfl⟩ := List.exists_cons_of_ne_nil ne
      have hb := digits b List.mem_cons_self
      exact tokensFrom_rule (not_blank_of_digit hb) (ruleFor?_digit hb)
        (readRun_spelled rfl .num digits stop passed) (by simp)
  | @word b bs _ hb more stop =>
      have all : ∀ c ∈ b :: bs, ByteClass.alphanumeric.contains c = true :=
        List.forall_mem_cons.mpr ⟨letters_subset hb, more⟩
      exact tokensFrom_rule (not_blank_of_letter hb) (ruleFor?_letter hb)
        (readRun_spelled rfl .word all stop passed) (by simp)
  | @mark _ b _ hm =>
      obtain ⟨blank, ne, known, found⟩ := mark_known hm
      refine tokensFrom_rule blank found ?_ (Nat.le_refl _)
      simp only [readMark, byte_tracking_cons, known, Option.getD_some,
        startingAt_tracking, advance_tracking ne]
      rfl
  | closed free =>
      have read := readString_closed free passed rest
      have shorter : rest.length ≤ (value ++ 0x22 :: rest).length := by
        simp only [List.length_append, List.length_cons]
        omega
      rw [List.cons_append, List.append_assoc]
      refine (tokensFrom_rule rfl rfl read shorter).trans ?_
      simp
  | unclosed free =>
      have read := readString_unclosed free passed
      rw [List.append_nil]
      refine (tokensFrom_rule rfl rfl read (by simp)).trans ?_
      simp

theorem tokensFrom_gap {gap : List UInt8} (h : Blank gap) (passed rest : List UInt8) :
    tokensFrom passed (gap ++ rest) = tokensFrom (gap.reverse ++ passed) rest := by
  induction gap generalizing passed with
  | nil => rfl
  | cons b gap ih =>
      obtain ⟨hb, more⟩ := List.forall_mem_cons.mp h
      have blank : lexicon.blank.trigger.contains b = true := by
        rcases hb with rfl | rfl | rfl | rfl <;> rfl
      rw [List.cons_append, tokensFrom_blank blank, ih more]
      simp

/-- The tokens that lie in a text are read. -/
theorem Layout.tokensFrom_eq {before text : List UInt8} {ts : List Token}
    (h : Layout before text ts) : tokensFrom before.reverse text = .ok ts := by
  induction h with
  | @gap before gap hg =>
      rw [← List.append_nil gap, tokensFrom_gap hg]
      rfl
  | @token before gap bytes rest ts t hg hs line column later ih =>
      rw [List.reverse_append, List.reverse_append] at ih
      rw [List.append_assoc, tokensFrom_gap hg, tokensFrom_spelling hs, ih,
        ← List.reverse_append, List.reverse_reverse, ← line, ← column]
      rfl

theorem Spelling.ne_nil {kind : TokenKind} {value bytes : List UInt8}
    (h : Spelling kind value bytes rest) : bytes ≠ [] := by
  cases h with
  | num ne digits stop => exact ne
  | word hb more stop => simp
  | mark hm => simp
  | closed free => simp
  | unclosed free => simp

/-- Only a token that runs to the end of the text can have an odd number of quotes. -/
theorem Spelling.even_quotes {kind : TokenKind} {value bytes : List UInt8}
    (h : Spelling kind value bytes rest) (ne : rest ≠ []) : bytes.count 0x22 % 2 = 0 := by
  cases h with
  | num _ digits stop => simp [List.count_eq_zero.mpr (not_mem_of_class (q := 0x22) rfl digits)]
  | @word b bs _ hb more stop =>
      have all : ∀ c ∈ b :: bs, ByteClass.alphanumeric.contains c = true :=
        List.forall_mem_cons.mpr ⟨letters_subset hb, more⟩
      simp only [List.count_eq_zero.mpr (not_mem_of_class (q := 0x22) rfl all)]
  | @mark _ b _ hm => cases kind <;> cases hm <;> rfl
  | closed free => simp [List.count_append, List.count_eq_zero.mpr free]
  | unclosed free => exact absurd rfl ne

/-- Texts are read from the front: a text is at its end, or goes on with a blank, or with the
spelling of a token, or with a byte that no rule is for. -/
@[elab_as_elim]
theorem reading_induction {motive : List UInt8 → Prop} (text : List UInt8) (done : motive [])
    (blank : ∀ b rest, lexicon.blank.trigger.contains b = true → motive rest → motive (b :: rest))
    (token : ∀ kind value bytes rest, Spelling kind value bytes rest → motive rest →
      motive (bytes ++ rest))
    (stray : ∀ b rest, lexicon.blank.trigger.contains b = false → lexicon.ruleFor? b = none →
      motive (b :: rest)) : motive text := by
  -- What comes behind a blank or a token is shorter.
  induction size : text.length using Nat.strongRecOn generalizing text with
  | ind size ih =>
      cases text with
      | nil => exact done
      | cons b rest =>
          subst size
          cases hb : lexicon.blank.trigger.contains b with
          | true => exact blank b rest hb (ih rest.length (Nat.lt_succ_self _) rest rfl)
          | false =>
              cases found : lexicon.ruleFor? b with
              | none => exact stray b rest hb found
              | some rule =>
                  obtain ⟨kind, value, bytes, later, whole, spelled, -⟩ := rule_reads [] rest
                    (Lexicon.mem_of_ruleFor? found) (Lexicon.contains_of_ruleFor? found)
                  have pos := List.length_pos_iff.mpr spelled.ne_nil
                  have shorter : later.length < (b :: rest).length := by
                    rw [whole, List.length_append]
                    omega
                  rw [whole]
                  exact token kind value bytes later spelled (ih later.length shorter later rfl)

end LittleLang.Decl
