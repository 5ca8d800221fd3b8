import LittleLang.Proofs.Spelling.Stray
import LittleLang.Proofs.Spelling.Writing

/-!
# The tokens of a text
-/

namespace LittleLang.Decl

variable {text : List UInt8} {tokens : List Token}

/-- Nothing of a text is lost on the way to its tokens: it consists of their spellings and the gaps
around them, and each token has the place of its first byte. -/
theorem layout_of_tokenize (h : tokenize text = .ok tokens) : Layout [] text tokens :=
  layout_of_scanWithin (tokenize_eq_ok_iff.mp h)

/-- A string that begins on the second line and runs to the end. -/
theorem layout_of_unclosed_string :
    tokenize (ascii "a\n \"b") = .ok [⟨.word, ascii "a", 1, 1⟩, ⟨.str, ascii "b", 2, 2⟩] ∧
      Layout [] (ascii "a\n \"b") [⟨.word, ascii "a", 1, 1⟩, ⟨.str, ascii "b", 2, 2⟩] := by
  have read : tokenize (ascii "a\n \"b") =
      .ok [⟨.word, ascii "a", 1, 1⟩, ⟨.str, ascii "b", 2, 2⟩] :=
    Outcome.eq_ok_of_toOption (by decide +kernel)
  exact ⟨read, layout_of_tokenize read⟩

/-! ## Texts of given tokens -/

/-- However tokens are written down, as long as gaps keep those apart that would run together, they
are found again. -/
theorem tokenize_written {pieces : List Piece} {last : List UInt8} (h : Legal pieces last) :
    ∃ ts, tokenize (written pieces last) = .ok ts ∧
      ts.map (fun t => (t.kind, t.value)) = pieces.map fun p => (p.kind, p.value) := by
  obtain ⟨ts, laid, same⟩ := h.exists_layout []
  exact ⟨ts, tokenize_eq_ok_iff.mpr laid.tokensFrom_eq, same⟩

/-- A word right behind a number, a number behind the word, and two strings without a gap. -/
theorem tokenize_written_close :
    Legal [⟨[], .num, ascii "1"⟩, ⟨[], .word, ascii "a_2"⟩, ⟨ascii " ", .num, ascii "3"⟩,
        ⟨[], .str, []⟩, ⟨[], .str, ascii "x\n"⟩, ⟨[], .hash, ascii "#"⟩] (ascii "\n") ∧
      ∃ ts, tokenize (ascii "1a_2 3\"\"\"x\n\"#\n") = .ok ts ∧
        ts.map (fun t => (t.kind, t.value)) = [(.num, ascii "1"), (.word, ascii "a_2"),
          (.num, ascii "3"), (.str, []), (.str, ascii "x\n"), (.hash, ascii "#")] := by
  have legal : Legal [⟨[], .num, ascii "1"⟩, ⟨[], .word, ascii "a_2"⟩, ⟨ascii " ", .num, ascii "3"⟩,
      ⟨[], .str, []⟩, ⟨[], .str, ascii "x\n"⟩, ⟨[], .hash, ascii "#"⟩] (ascii "\n") := by
    refine .cons (by decide) (.num (by decide) (List.all_eq_true.mp rfl)) (by simp [Piece.RunsInto]) ?_
    refine .cons (by decide) (.word rfl (List.all_eq_true.mp rfl)) (by simp [ascii]) ?_
    refine .cons (by decide) (.num (by decide) (List.all_eq_true.mp rfl)) (by simp [Piece.RunsInto]) ?_
    refine .cons (by decide) (.str (by decide)) (by simp [Piece.RunsInto]) ?_
    refine .cons (by decide) (.str (by decide)) (by simp [Piece.RunsInto]) ?_
    exact .cons (by decide) (.mark rfl) (by simp) (.nil (by decide))
  exact ⟨legal, tokenize_written legal⟩

/-! ## Texts without tokens -/

/-- A text has no tokens exactly if it has a stray byte, and then the first one is reported with its
place. -/
theorem rejects_first_stray (text : List UInt8) :
    ((∃ fault, tokenize text = .error fault) ↔ ∃ i, Stray text i) ∧
      ∀ i, Stray text i → (∀ j < i, ¬ Stray text j) → ∃ b ∈ text[i]?,
        tokenize text = .error (.lexical (.unexpectedByte b
          ⟨lineAfter (text.take i), columnAfter (text.take i), i⟩)) := by
  rcases endsAtStray [] text with ⟨⟨ts, lexed⟩, clear⟩ | ⟨i, b, first, before, stands, stops⟩
  · have done : tokenize text = .ok ts := tokenize_eq_ok_iff.mpr lexed
    constructor
    · simp [done, clear]
    · exact fun i h => absurd h (clear i)
  · rw [List.reverse_nil, List.nil_append, List.length_nil, Nat.zero_add] at stops
    have failed := tokenize_eq_error_iff.mpr ⟨_, stops, rfl⟩
    constructor
    · exact ⟨fun _ => ⟨i, first⟩, fun _ => ⟨_, failed⟩⟩
    · intro k h least
      have same : k = i := by
        apply Nat.le_antisymm
        · exact Nat.le_of_not_lt fun lt => least i lt first
        · exact Nat.le_of_not_lt fun lt => before k lt h
      subst same
      exact ⟨b, stands, failed⟩

/-- A semicolon may stand within a string, also on its second line, but not behind it. -/
theorem rejects_semicolon_after_string :
    Stray (ascii "let s = \"a;\n;\" ;") 15 ∧ (∀ j < 15, ¬ Stray (ascii "let s = \"a;\n;\" ;") j) ∧
      tokenize (ascii "let s = \"a;\n;\" ;") =
        .error (.lexical (.unexpectedByte 0x3B ⟨2, 4, 15⟩)) := by
  have first : Stray (ascii "let s = \"a;\n;\" ;") 15 := by decide +kernel
  have least : ∀ j < 15, ¬ Stray (ascii "let s = \"a;\n;\" ;") j := by decide +kernel
  have semicolon : (ascii "let s = \"a;\n;\" ;")[15]? = some 0x3B := by decide +kernel
  obtain ⟨-, rejects⟩ := rejects_first_stray (ascii "let s = \"a;\n;\" ;")
  obtain ⟨b, stands, failed⟩ := rejects 15 first least
  rw [Option.mem_def, semicolon] at stands
  cases stands
  exact ⟨first, least, failed⟩

end LittleLang.Decl
