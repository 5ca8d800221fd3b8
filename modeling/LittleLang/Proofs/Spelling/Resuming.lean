import LittleLang.Proofs.Scan.Rescanning
import LittleLang.Proofs.Spelling.Stray

/-!
# Reading on behind a stray byte

A scanner that has stopped at a stray byte can go on behind it. What it finds there is what the
bytes hold by themselves, and the lines it has counted before are not forgotten.
-/

namespace LittleLang.Decl

open Scanner

variable {passed passed' rest text : List UInt8} {ts : List Token} {next last : Scanner} {b : UInt8}
  {p : Position} {before : Nat}

/-- What is left of an outcome without lines and columns: the kinds and values of the tokens, or the
stray byte and the number of bytes in front of it. -/
def outline (before : Nat) (o : Outcome LexFault (List Token)) :
    Outcome (UInt8 × Nat) (List (TokenKind × List UInt8)) :=
  Outcome.mapFault (LexFault.spot before) (List.map (fun t => (t.kind, t.value)) <$> o)

theorem outline_cons (before : Nat) (t : Token) (o : Outcome LexFault (List Token)) :
    outline before ((t :: ·) <$> o) = ((t.kind, t.value) :: ·) <$> outline before o := by
  rcases o with (e | _) | ts <;> rfl

theorem outline_fault (before : Nat) (b : UInt8) (p : Position) :
    outline before (Outcome.fault (.unexpectedByte b p)) = Outcome.fault (b, before + p.offset) := rfl

/-- The bytes that have been passed show in lines, columns and offsets only. -/
theorem outline_tokensFrom (behind : passed'.length = before + passed.length) (rest : List UInt8) :
    outline 0 (tokensFrom passed' rest) = outline before (tokensFrom passed rest) := by
  induction rest using reading_induction generalizing passed passed' with
  | done => rfl
  | blank b rest hb ih =>
      rw [tokensFrom_blank hb, tokensFrom_blank hb]
      refine ih ?_
      rw [List.length_cons, List.length_cons, behind, Nat.add_assoc]
  | token kind value bytes rest spelled ih =>
      have later : (bytes.reverse ++ passed').length = before + (bytes.reverse ++ passed).length := by
        simp only [List.length_append, List.length_reverse]
        omega
      rw [tokensFrom_spelling spelled, tokensFrom_spelling spelled, outline_cons, outline_cons,
        ih later]
  | stray b rest hb found =>
      rw [tokensFrom_none hb found, tokensFrom_none hb found, position_tracking, position_tracking,
        outline_fault, outline_fault, behind, Nat.zero_add]

/-! ## Scans that keep count -/

theorem round_tracking (h : lexicon.Round (tracking passed rest) ts next) :
    ∃ passed' rest', next = tracking passed' rest' ∧
      passed'.reverse ++ rest' = passed.reverse ++ rest := by
  cases rest with
  | nil => cases h.hasByte
  | cons b rest =>
      cases h with
      | blank has hb => exact ⟨_, _, skip_tracking b passed rest, by simp⟩
      | token has hb found =>
          rw [byte_tracking_cons] at found
          obtain ⟨kind, value, bytes, later, whole, spelled, read⟩ :=
            rule_reads passed rest (Lexicon.mem_of_ruleFor? found)
              (Lexicon.contains_of_ruleFor? found)
          rw [read, whole]
          exact ⟨_, _, rfl, by simp⟩

theorem scanWithin_tracking (rounds : Nat) (passed rest : List UInt8) :
    ∃ passed' rest', (lexicon.scanWithin rounds (tracking passed rest)).2 = tracking passed' rest' ∧
      passed'.reverse ++ rest' = passed.reverse ++ rest := by
  induction rounds generalizing passed rest with
  | zero => exact ⟨passed, rest, rfl, rfl⟩
  | succ rounds ih =>
      rcases lexicon.round_cases (tracking passed rest) with has | stray | ⟨ts, next, round⟩
      · rw [Lexicon.scanWithin_of_end has]
        exact ⟨passed, rest, rfl, rfl⟩
      · rw [stray.scanWithin_succ]
        exact ⟨passed, rest, rfl, rfl⟩
      · obtain ⟨passed', rest', rfl, whole⟩ := round_tracking round
        rw [round.scanWithin_succ, ← whole]
        exact ih passed' rest'

/-- A scan that has stopped at a stray byte goes on with the bytes behind it. -/
theorem scan_behind_stray
    (h : lexicon.Returns (.ofBytes text) (.error (.unexpectedByte b p)) last) :
    (lexicon.scan last).1 =
      tokensFrom (text.take (p.offset + 1)).reverse (text.drop (p.offset + 1)) ∧
      (text.take (p.offset + 1)).length = p.offset + 1 := by
  have stops := h.stops
  obtain ⟨rounds, run⟩ := h
  obtain ⟨passed, rest, last_eq, whole⟩ := scanWithin_tracking rounds [] text
  have there : last = tracking passed rest := by
    rw [← last_eq]
    exact (congrArg Prod.snd run).symm
  subst there
  cases stops with
  | stray stray =>
      cases rest with
      | nil => cases stray.hasByte
      | cons b rest =>
          -- A line feed is blank, so the stray byte is none, and passing it counts no line.
          have ne : b ≠ 0x0A := by
            rintro rfl
            cases stray.blank
          have text_eq : text = (b :: passed).reverse ++ rest := by
            simpa using whole.symm
          have offset_eq : (tracking passed (b :: rest)).position.offset + 1 =
              (b :: passed).reverse.length := by
            simp [position_tracking]
          have rounds := Lexicon.scanWithin_eq lexicon_advances (s := tracking (b :: passed) rest) rfl
            (Nat.le_succ rest.length) (Nat.le_refl rest.length)
          rw [offset_eq, text_eq, List.take_left, List.drop_left, List.reverse_reverse, Lexicon.scan,
            advance_tracking ne]
          exact ⟨congrArg Prod.fst rounds, rfl⟩

theorem place_of_tokensFrom (h : tokensFrom passed rest = Outcome.fault (.unexpectedByte b p)) :
    p.line = lineAfter ((passed.reverse ++ rest).take p.offset) ∧
      p.column = columnAfter ((passed.reverse ++ rest).take p.offset) := by
  rcases endsAtStray passed rest with ⟨⟨ts, lexed⟩, -⟩ | ⟨i, c, -, -, -, stops⟩
  · rw [lexed] at h
    cases h
  · rw [stops] at h
    cases h
    have front : (passed.reverse ++ rest).take (passed.length + i) =
        passed.reverse ++ rest.take i := by
      rw [← List.length_reverse, List.take_length_add_append]
    rw [front]
    exact ⟨rfl, rfl⟩

/-! ## Whole texts -/

/-- Behind a stray byte a second scan finds what the bytes there hold by themselves: with routines
the same tokens, or the same stray byte so many bytes further on. No scan with routines that comes to
an end, be it the first, the second or that of the bytes there, is cut off before. The tokens of the
declaration language have the same kinds and values, and their places, as well as that of a stray
byte, are those in the whole text. -/
theorem reads_on_behind_stray :
    (∀ {τ : Type} (x : Lexicon τ), x.ByRoutines →
      (∀ (s : Scanner) (o : Except LexFault (List τ)) (last : Scanner),
        x.Returns s o last ↔ x.scan s = (o.mapError .raised, last)) ∧
      ∀ (text : List UInt8) (b : UInt8) (p : Position) (last : Scanner),
        x.Returns (.ofBytes text) (.error (.unexpectedByte b p)) last →
          Outcome.mapFault (LexFault.spot 0) (x.scan last).1 =
            Outcome.mapFault (LexFault.spot (p.offset + 1)) (x.tokens (text.drop (p.offset + 1)))) ∧
      ∀ (text : List UInt8) (b : UInt8) (p : Position) (last : Scanner),
        lexicon.Returns (.ofBytes text) (.error (.unexpectedByte b p)) last →
          outline 0 (lexicon.scan last).1 =
              outline (p.offset + 1) (lexicon.tokens (text.drop (p.offset + 1))) ∧
            (∀ ts, (lexicon.scan last).1 = .ok ts →
              Layout (text.take (p.offset + 1)) (text.drop (p.offset + 1)) ts) ∧
            ∀ c q, (lexicon.scan last).1 = Outcome.fault (.unexpectedByte c q) →
              q.line = lineAfter (text.take q.offset) ∧
                q.column = columnAfter (text.take q.offset) := by
  constructor
  · intro τ x hx
    exact ⟨fun s o last => hx.returns_iff, fun text b p last => Lexicon.scan_behind_fault hx⟩
  · intro text b p last h
    obtain ⟨again, length_eq⟩ := scan_behind_stray h
    rw [again]
    refine ⟨?_, ?_, ?_⟩
    · refine outline_tokensFrom ?_ (text.drop (p.offset + 1))
      rw [List.length_reverse, length_eq]
      rfl
    · intro ts found
      have laid := layout_of_scanWithin found
      rw [List.reverse_reverse] at laid
      exact laid
    · intro c q stops
      have place := place_of_tokensFrom stops
      rw [List.reverse_reverse, List.take_append_drop] at place
      exact place

/-- Words behind a semicolon up to a percent sign; and a string on the line behind one, which is
found with that line, as is a percent sign there. -/
theorem reads_on_behind_semicolon :
    (∃ (x : Lexicon (List UInt8)) (last : Scanner), x.ByRoutines ∧
      x.Returns (.ofBytes (ascii "ab;c\nd%")) (.error (.unexpectedByte 0x3B ⟨1, 3, 2⟩)) last ∧
      Outcome.mapFault (LexFault.spot 0) (x.scan last).1 = Outcome.fault (0x25, 6)) ∧
      (∃ (last : Scanner) (ts : List Token),
        lexicon.Returns (.ofBytes (ascii "a;\n \"b\"")) (.error (.unexpectedByte 0x3B ⟨1, 2, 1⟩)) last ∧
        outline 0 (lexicon.scan last).1 = .ok [(.str, ascii "b")] ∧
        (lexicon.scan last).1 = .ok ts ∧ Layout (ascii "a;") (ascii "\n \"b\"") ts) ∧
      ∃ (last : Scanner) (q : Position),
        lexicon.Returns (.ofBytes (ascii "a;\n %")) (.error (.unexpectedByte 0x3B ⟨1, 2, 1⟩)) last ∧
        (lexicon.scan last).1 = Outcome.fault (.unexpectedByte 0x25 q) ∧
        q.line = lineAfter (ascii "a;\n ") ∧ q.column = columnAfter (ascii "a;\n ") := by
  obtain ⟨with_routines, with_tokens⟩ := reads_on_behind_stray
  refine ⟨?_, ?_, ?_⟩
  · have stops : (Lexicon.ofClasses .whitespace [.letters]).Returns (.ofBytes (ascii "ab;c\nd%"))
        (.error (.unexpectedByte 0x3B ⟨1, 3, 2⟩)) _ :=
      Lexicon.returns_of_scan (Prod.ext (by decide +kernel) rfl)
    have routines := Lexicon.byRoutines_ofClasses [.letters]
    refine ⟨_, _, routines, stops, ?_⟩
    rw [(with_routines _ routines).2 _ _ _ _ stops]
    decide +kernel
  · have stops : lexicon.Returns (.ofBytes (ascii "a;\n \"b\""))
        (.error (.unexpectedByte 0x3B ⟨1, 2, 1⟩)) _ :=
      Lexicon.returns_of_scan (Prod.ext (by decide +kernel) rfl)
    obtain ⟨same, places, -⟩ := with_tokens _ _ _ _ stops
    have found : (lexicon.scan (lexicon.scan (.ofBytes (ascii "a;\n \"b\""))).2).1 =
        .ok [⟨.str, ascii "b", 2, 2⟩] := by
      decide +kernel
    refine ⟨_, _, stops, ?_, found, places _ found⟩
    rw [same]
    decide +kernel
  · have stops : lexicon.Returns (.ofBytes (ascii "a;\n %"))
        (.error (.unexpectedByte 0x3B ⟨1, 2, 1⟩)) _ :=
      Lexicon.returns_of_scan (Prod.ext (by decide +kernel) rfl)
    obtain ⟨-, -, place⟩ := with_tokens _ _ _ _ stops
    have found : (lexicon.scan (lexicon.scan (.ofBytes (ascii "a;\n %"))).2).1 =
        Outcome.fault (.unexpectedByte 0x25 ⟨2, 2, 4⟩) := by
      decide +kernel
    exact ⟨_, _, stops, found, place _ _ found⟩

end LittleLang.Decl
