import LittleLang.Decl.Language
import LittleLang.Proofs.Spelling.Layout

/-!
# Tokens are read as they are spelled
-/

namespace LittleLang.Decl

open Scanner

variable {b : UInt8} {passed rest : List UInt8}

theorem startingAt_tracking (kind : TokenKind) (value passed rest : List UInt8) :
    Token.startingAt (tracking passed rest) kind value =
      ⟨kind, value, lineAfter passed.reverse, columnAfter passed.reverse⟩ := by
  simp only [Token.startingAt, position_tracking]

theorem readRun_tracking {c : ByteClass} (hc : c.contains 0x0A = false) (kind : TokenKind)
    (passed rest : List UInt8) :
    readRun kind c (tracking passed rest) =
      (⟨kind, rest.takeWhile c.contains, lineAfter passed.reverse, columnAfter passed.reverse⟩,
        tracking ((rest.takeWhile c.contains).reverse ++ passed) (rest.dropWhile c.contains)) := by
  simp only [readRun, takeWhile_tracking hc, startingAt_tracking]

theorem takeString_tracking (passed rest : List UInt8) :
    takeString (tracking passed rest) =
      (rest.takeWhile (· != 0x22),
        tracking ((rest.takeWhile (· != 0x22)).reverse ++ passed)
          (rest.dropWhile (· != 0x22))) := by
  induction rest generalizing passed with
  | nil =>
      rw [takeString, if_neg (by simp)]
      rfl
  | cons b rest ih =>
      rw [takeString]
      by_cases hb : b = 0x22
      · rw [if_neg (by simp [hb, ByteClass.quote, ByteClass.single])]
        simp [hb]
      · rw [if_pos (by simp [hb, ByteClass.quote, ByteClass.single]), byte_tracking_cons,
          pass_tracking, ih]
        simp [hb]

/-! ## One token -/

/-- The token that is read is spelled at the start of `rest`, has its place, and the scanner goes on
behind it. -/
def Reads (read : Scanner → Token × Scanner) (passed rest : List UInt8) : Prop :=
  ∃ kind value bytes later, rest = bytes ++ later ∧ Spelling kind value bytes later ∧
    read (tracking passed rest) =
      (⟨kind, value, lineAfter passed.reverse, columnAfter passed.reverse⟩,
        tracking (bytes.reverse ++ passed) later)

theorem not_of_mem_head?_dropWhile {p : UInt8 → Bool} {bs : List UInt8} :
    ∀ b ∈ (bs.dropWhile p).head?, p b = false := by
  intro b hb
  have := List.head?_dropWhile_not p bs
  rw [Option.mem_def.mp hb] at this
  simpa using this

theorem reads_number (hb : ByteClass.digits.contains b = true) :
    Reads (readRun .num .digits) passed (b :: rest) := by
  refine ⟨_, _, _, _, ?_, ?_, readRun_tracking rfl .num passed (b :: rest)⟩
  · exact List.takeWhile_append_dropWhile.symm
  · refine .num ?_ ?_ not_of_mem_head?_dropWhile
    · simp [hb]
    · exact List.all_eq_true.mp List.all_takeWhile

theorem reads_word (hb : ByteClass.letters.contains b = true) :
    Reads (readRun .word .alphanumeric) passed (b :: rest) := by
  have begins : (b :: rest).takeWhile ByteClass.alphanumeric.contains =
      b :: rest.takeWhile ByteClass.alphanumeric.contains := by
    simp [letters_subset hb]
  refine ⟨_, _, _, _, ?_, ?_, readRun_tracking rfl .word passed (b :: rest)⟩
  · exact List.takeWhile_append_dropWhile.symm
  · rw [begins]
    exact .word hb (List.all_eq_true.mp List.all_takeWhile) not_of_mem_head?_dropWhile

theorem exists_mark (hb : ByteClass.punctuation.contains b = true) :
    ∃ kind : TokenKind, TokenKind.ofMark? b = some kind ∧ kind.mark? = some b ∧ b ≠ 0x0A := by
  have one : b = 0x3D ∨ b = 0x2C ∨ b = 0x28 ∨ b = 0x29 ∨ b = 0x7B ∨ b = 0x7D ∨ b = 0x23 := by
    simpa [ascii] using ByteClass.contains_punctuation.mp hb
  rcases one with rfl | rfl | rfl | rfl | rfl | rfl | rfl <;> exact ⟨_, rfl, rfl, by decide⟩

theorem reads_mark (hb : ByteClass.punctuation.contains b = true) :
    Reads readMark passed (b :: rest) := by
  obtain ⟨kind, known, mark, ne⟩ := exists_mark hb
  refine ⟨kind, [b], [b], rest, rfl, .mark mark, ?_⟩
  simp only [readMark, byte_tracking_cons, known, Option.getD_some, startingAt_tracking,
    advance_tracking ne]
  rfl

theorem not_mem_takeWhile_ne (q : UInt8) (bs : List UInt8) : q ∉ bs.takeWhile (· != q) := by
  intro hq
  simpa using List.all_eq_true.mp List.all_takeWhile q hq

theorem reads_string : Reads readString passed (0x22 :: rest) := by
  have inside := not_mem_takeWhile_ne 0x22 rest
  have whole : rest.takeWhile (· != 0x22) ++ rest.dropWhile (· != 0x22) = rest :=
    List.takeWhile_append_dropWhile
  have read : readString (tracking passed (0x22 :: rest)) =
      (⟨.str, rest.takeWhile (· != 0x22), lineAfter passed.reverse, columnAfter passed.reverse⟩,
        let after := tracking ((rest.takeWhile (· != 0x22)).reverse ++ 0x22 :: passed)
          (rest.dropWhile (· != 0x22))
        if after.hasByte then after.advance else after) := by
    simp only [readString, advance_tracking (show (0x22 : UInt8) ≠ 0x0A by decide),
      takeString_tracking, startingAt_tracking]
  cases hd : rest.dropWhile (· != 0x22) with
  | nil =>
      rw [hd, List.append_nil] at whole
      rw [hd, whole] at read
      rw [whole] at inside
      exact ⟨_, _, 0x22 :: rest, [], by simp, .unclosed inside, by simpa using read⟩
  | cons q later =>
      have hq : q = 0x22 := by
        simpa using @not_of_mem_head?_dropWhile (· != 0x22) rest q (by simp [hd])
      subst hq
      rw [hd] at whole read
      refine ⟨_, _, 0x22 :: (rest.takeWhile (· != 0x22) ++ [0x22]), later, ?_, .closed inside, ?_⟩
      · simpa using whole.symm
      · rw [read]
        simp [advance_tracking]

theorem rule_reads {rule : TokenRule Token} (passed rest : List UInt8) (mem : rule ∈ lexicon.rules)
    (hb : rule.trigger.contains b = true) : Reads rule.read passed (b :: rest) := by
  simp only [lexicon, List.mem_cons, List.not_mem_nil, or_false] at mem
  rcases mem with rfl | rfl | rfl | rfl
  · exact reads_number hb
  · exact reads_word hb
  · exact reads_mark hb
  · cases ByteClass.contains_quote.mp hb
    exact reads_string

/-! ## Whole texts -/

theorem blank_of_trigger (hb : lexicon.blank.trigger.contains b = true) :
    b = 0x20 ∨ b = 0x09 ∨ b = 0x0D ∨ b = 0x0A :=
  ByteClass.contains_blanks.mp hb

theorem skip_tracking (b : UInt8) (passed rest : List UInt8) :
    lexicon.blank.skip (tracking passed (b :: rest)) = tracking (b :: passed) rest := by
  show (if b = 0x0A then ((tracking passed (b :: rest)).addLines 1).advance
    else (tracking passed (b :: rest)).advance) = _
  rw [← apply_ite advance]
  exact pass_tracking b passed rest

variable {rounds : Nat}

theorem scanWithin_blank (hb : lexicon.blank.trigger.contains b = true) :
    lexicon.scanWithin (rounds + 1) (tracking passed (b :: rest)) =
      lexicon.scanWithin rounds (tracking (b :: passed) rest) := by
  rw [Lexicon.scanWithin_of_blank hasByte_tracking_cons hb, skip_tracking]

theorem scanWithin_rule {rule : TokenRule Token} {t : Token} {s : Scanner}
    (hb : lexicon.blank.trigger.contains b = false) (found : lexicon.ruleFor? b = some rule)
    (read : rule.read (tracking passed (b :: rest)) = (t, s)) :
    lexicon.scanWithin (rounds + 1) (tracking passed (b :: rest)) =
      ((t :: ·) <$> (lexicon.scanWithin rounds s).1, (lexicon.scanWithin rounds s).2) := by
  rw [Lexicon.scanWithin_of_token hasByte_tracking_cons hb found, read]

theorem scanWithin_none (hb : lexicon.blank.trigger.contains b = false)
    (found : lexicon.ruleFor? b = none) :
    lexicon.scanWithin (rounds + 1) (tracking passed (b :: rest)) =
      (Outcome.fault (.unexpectedByte b (tracking passed (b :: rest)).position),
        tracking passed (b :: rest)) :=
  Lexicon.Strays.scanWithin_succ ⟨hasByte_tracking_cons, hb, found⟩

/-- The tokens that a scanner goes on to read lie in the bytes ahead. -/
theorem layout_of_scanWithin {ts : List Token}
    (h : (lexicon.scanWithin rounds (tracking passed rest)).1 = .ok ts) :
    Layout passed.reverse rest ts := by
  induction rounds generalizing passed rest ts with
  | zero =>
      cases rest with
      | nil =>
          cases h
          exact layout_nil
      | cons b rest => cases h
  | succ rounds ih =>
      cases rest with
      | nil =>
          cases h
          exact layout_nil
      | cons b rest =>
          cases blank : lexicon.blank.trigger.contains b with
          | true =>
              -- The blank joins the gap in front of the next token.
              rw [scanWithin_blank blank] at h
              have later := ih h
              rw [List.reverse_cons] at later
              exact later.blank_cons (blank_of_trigger blank)
          | false =>
              cases found : lexicon.ruleFor? b with
              | none =>
                  rw [scanWithin_none blank found] at h
                  cases h
              | some rule =>
                  obtain ⟨kind, value, bytes, later, whole, spelled, read⟩ :=
                    rule_reads passed rest (Lexicon.mem_of_ruleFor? found)
                      (Lexicon.contains_of_ruleFor? found)
                  rw [scanWithin_rule blank found read] at h
                  rcases tail : (lexicon.scanWithin rounds
                    (tracking (bytes.reverse ++ passed) later)).1 with failure | us
                  · rw [tail] at h
                    cases h
                  · rw [tail] at h
                    cases h
                    have laid := ih tail
                    rw [List.reverse_append, List.reverse_reverse] at laid
                    rw [whole]
                    exact .of_spelling spelled laid

theorem tokenize_eq_ok_iff {text : List UInt8} {tokens : List Token} : tokenize text = .ok tokens ↔
    (lexicon.scanWithin text.length (tracking [] text)).1 = .ok tokens := by
  rw [tokenize, Outcome.settle_eq_ok_iff]
  exact Outcome.mapFault_eq_ok_iff

theorem oneLine_of_tokenize {text : List UInt8} {tokens : List Token}
    (h : tokenize text = .ok tokens) : ∀ t ∈ tokens, t.OneLine :=
  (layout_of_scanWithin (tokenize_eq_ok_iff.mp h)).oneLine

theorem tokenize_eq_error_iff {text : List UInt8} {fault : Fault} : tokenize text = .error fault ↔
    ∃ e, lexicon.tokens text = .error (.raised e) ∧ Fault.lexical e = fault := by
  rw [tokenize, Outcome.settle_eq_error_iff]
  exact Outcome.mapFault_eq_fault_iff

end LittleLang.Decl
