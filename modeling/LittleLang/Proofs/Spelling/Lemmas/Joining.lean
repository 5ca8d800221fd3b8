import LittleLang.Proofs.Spelling.Lemmas.Recovery

/-!
# Texts one below the other

A text whose strings are all closed can be followed by a line feed and another text: behind the
line feed the tokens are those of the other text, further down.
-/

namespace LittleLang

/-- The place, when so many lines and bytes come before the text. -/
def Position.shift (lines bytes : Nat) (p : Position) : Position :=
  ⟨p.line + lines, p.column, p.offset + bytes⟩

/-- The fault, when so many lines and bytes come before the text. -/
def LexFault.shift (lines bytes : Nat) : LexFault → LexFault
  | .unexpectedByte b p => .unexpectedByte b (p.shift lines bytes)

/-! ## Places behind a line feed -/

variable {before text : List UInt8}

theorem lineAfter_behind (before text : List UInt8) :
    lineAfter (before ++ 0x0A :: text) = lineAfter text + (before.count 0x0A + 1) := by
  simp only [lineAfter, List.count_append, List.count_cons_self]
  omega

theorem takeWhile_stopped {p : UInt8 → Bool} {c : UInt8} (stop : p c = false) (bs rest : List UInt8) :
    (bs ++ c :: rest).takeWhile p = bs.takeWhile p := by
  induction bs with
  | nil => simp [stop]
  | cons b bs ih =>
      rw [List.cons_append, List.takeWhile_cons, List.takeWhile_cons, ih]

theorem reverse_behind (passed before : List UInt8) :
    (passed ++ 0x0A :: before.reverse).reverse = before ++ 0x0A :: passed.reverse := by
  simp

theorem columnAfter_behind (before text : List UInt8) :
    columnAfter (before ++ 0x0A :: text) = columnAfter text := by
  have reversed : (before ++ 0x0A :: text).reverse = text.reverse ++ 0x0A :: before.reverse := by
    simp
  rw [columnAfter, columnAfter, reversed, takeWhile_stopped (by decide)]

namespace Decl

open Scanner

variable {kind : TokenKind} {value bytes rest : List UInt8} {ts : List Token}

/-- The token, when so many lines come before the text. -/
def Token.lower (lines : Nat) (t : Token) : Token := { t with line := t.line + lines }

theorem position_behind (before passed rest : List UInt8) :
    (tracking (passed ++ 0x0A :: before.reverse) rest).position =
      (tracking passed rest).position.shift (before.count 0x0A + 1) (before.length + 1) := by
  simp only [position_tracking, reverse_behind, lineAfter_behind, columnAfter_behind, Position.shift,
    List.length_append, List.length_cons, List.length_reverse]

theorem lowered_eq (before passed : List UInt8) (kind : TokenKind) (value : List UInt8) :
    (⟨kind, value, lineAfter (passed ++ 0x0A :: before.reverse).reverse,
        columnAfter (passed ++ 0x0A :: before.reverse).reverse⟩ : Token) =
      Token.lower (before.count 0x0A + 1)
        ⟨kind, value, lineAfter passed.reverse, columnAfter passed.reverse⟩ := by
  rw [reverse_behind, lineAfter_behind, columnAfter_behind, Token.lower]

/-- The outcome, when a text of so many lines and bytes comes before. -/
def shifted (lines bytes : Nat) (o : Outcome LexFault (List Token)) :
    Outcome LexFault (List Token) :=
  Outcome.mapFault (LexFault.shift lines bytes) (List.map (Token.lower lines) <$> o)

theorem shifted_cons (lines bytes : Nat) (t : Token) (o : Outcome LexFault (List Token)) :
    shifted lines bytes ((t :: ·) <$> o) = (t.lower lines :: ·) <$> shifted lines bytes o := by
  rcases o with (e | _) | ts <;> rfl

/-- Behind a line feed the reading begins anew. -/
theorem tokensFrom_behind (before passed rest : List UInt8) :
    tokensFrom (passed ++ 0x0A :: before.reverse) rest =
      shifted (before.count 0x0A + 1) (before.length + 1) (tokensFrom passed rest) := by
  induction rest using reading_induction generalizing passed with
  | done => rfl
  | blank b rest hb ih =>
      rw [tokensFrom_blank hb, tokensFrom_blank hb]
      exact ih (b :: passed)
  | token kind value bytes rest spelled ih =>
      have tail := ih (bytes.reverse ++ passed)
      rw [tokensFrom_spelling spelled, tokensFrom_spelling spelled, shifted_cons, ← tail,
        lowered_eq, List.append_assoc]
  | stray b rest hb found =>
      rw [tokensFrom_none hb found, tokensFrom_none hb found, position_behind]
      rfl

/-! ## The seam -/

theorem stops_at_seam {c : ByteClass} (hc : c.contains 0x0A = false)
    (stop : ∀ b ∈ rest.head?, c.contains b = false) (next : List UInt8) :
    ∀ b ∈ (rest ++ 0x0A :: next).head?, c.contains b = false := by
  cases rest with
  | nil =>
      rintro b ⟨⟩
      exact hc
  | cons b rest => exact stop

/-- A token is spelled as before when a line feed and more bytes come after the text, unless it is a
string that is not closed: that has a single quote. -/
theorem Spelling.before_seam (h : Spelling kind value bytes rest)
    (even : (bytes ++ rest).count 0x22 % 2 = 0) (next : List UInt8) :
    Spelling kind value bytes (rest ++ 0x0A :: next) ∧ rest.count 0x22 % 2 = 0 := by
  constructor
  · cases h with
    | num ne digits stop => exact .num ne digits (stops_at_seam rfl stop next)
    | word hb more stop => exact .word hb more (stops_at_seam rfl stop next)
    | mark hm => exact .mark hm
    | closed free => exact .closed free
    | unclosed free =>
        rw [List.append_nil, List.count_cons_self, List.count_eq_zero.mpr free] at even
        cases even
  · by_cases ne : rest = []
    · rw [ne]
      rfl
    · have first := h.even_quotes ne
      rw [List.count_append] at even
      omega

theorem blank_count {gap : List UInt8} (h : Blank gap) : gap.count 0x22 = 0 := by
  refine List.count_eq_zero.mpr fun mem => ?_
  have := h _ mem
  revert this
  decide

/-- The tokens that lie in a text are read first when a line feed and more bytes come after it. -/
theorem Layout.tokensFrom_append (h : Layout before text ts) (even : text.count 0x22 % 2 = 0)
    (next : List UInt8) :
    tokensFrom before.reverse (text ++ 0x0A :: next) =
      (ts ++ ·) <$> tokensFrom (0x0A :: (before ++ text).reverse) next := by
  induction h with
  | @gap before gap hg =>
      rw [tokensFrom_gap hg, tokensFrom_blank rfl, List.reverse_append]
      cases tokensFrom (0x0A :: (gap.reverse ++ before.reverse)) next <;> rfl
  | @token before gap bytes rest ts t hg hs line column later ih =>
      rw [List.append_assoc, List.count_append, blank_count hg, Nat.zero_add] at even
      obtain ⟨spelled, even⟩ := hs.before_seam even next
      have tail := ih even
      rw [List.reverse_append, List.reverse_append] at tail
      rw [List.append_assoc, List.append_assoc, tokensFrom_gap hg, tokensFrom_spelling spelled, tail]
      have place : (⟨t.kind, t.value, lineAfter (gap.reverse ++ before.reverse).reverse,
          columnAfter (gap.reverse ++ before.reverse).reverse⟩ : Token) = t := by
        rw [← List.reverse_append, List.reverse_reverse, ← line, ← column]
      rw [place]
      simp only [List.append_assoc]
      cases tokensFrom (0x0A :: (before ++ (gap ++ (bytes ++ rest))).reverse) next <;> rfl

/-! ## Whole texts -/

theorem tokensFrom_join {a : List UInt8} (h : tokenize a = .ok ts) (even : a.count 0x22 % 2 = 0)
    (b : List UInt8) : tokensFrom [] (a ++ 0x0A :: b) =
      (ts ++ ·) <$> shifted (a.count 0x0A + 1) (a.length + 1) (tokensFrom [] b) := by
  have layout : Layout [] a ts := layout_of_scanWithin (tokenize_eq_ok_iff.mp h)
  have first := layout.tokensFrom_append even b
  have behind := tokensFrom_behind a [] b
  rw [List.nil_append] at behind
  rw [List.nil_append, behind] at first
  exact first

end Decl

end LittleLang
