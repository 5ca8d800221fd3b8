import LittleLang.Proofs.Spelling.Lemmas.Recovery

/-!
# Writing tokens down

Tokens are written one after another with gaps around them. A gap may be empty unless the two
tokens beside it would run together.
-/

namespace LittleLang.Decl

open ByteClass

/-- A value that a token of the kind can have in a text. -/
inductive Lexable : TokenKind → List UInt8 → Prop
  | num {value} : value ≠ [] → (∀ b ∈ value, digits.contains b = true) → Lexable .num value
  | word {b bs} : letters.contains b = true → (∀ c ∈ bs, alphanumeric.contains c = true) →
      Lexable .word (b :: bs)
  | str {value} : 0x22 ∉ value → Lexable .str value
  | mark {kind b} : TokenKind.mark? kind = some b → Lexable kind [b]

/-- The bytes that a token is written as: strings stand in quotes. -/
def spell : TokenKind → List UInt8 → List UInt8
  | .str, value => 0x22 :: (value ++ [0x22])
  | _, value => value

/-- A token without a place, with the gap in front of it. -/
structure Piece where
  gap : List UInt8
  kind : TokenKind
  value : List UInt8

namespace Piece

def bytes (p : Piece) : List UInt8 := p.gap ++ spell p.kind p.value

/-- Without a gap between them, the bytes of `q` would be read as a part of `p`. -/
def RunsInto (p q : Piece) : Prop :=
  p.kind = .word ∧ q.kind = .word ∨ p.kind = .word ∧ q.kind = .num ∨ p.kind = .num ∧ q.kind = .num

end Piece

/-- The text of the pieces, with a gap at its end. -/
def written (pieces : List Piece) (last : List UInt8) : List UInt8 :=
  pieces.flatMap Piece.bytes ++ last

/-- The gaps are blank, each token can be written, and a gap that keeps two tokens apart is not
empty. -/
inductive Legal : List Piece → List UInt8 → Prop
  | nil {last} : Blank last → Legal [] last
  | cons {p pieces last} : Blank p.gap → Lexable p.kind p.value →
      (∀ q ∈ pieces.head?, p.RunsInto q → q.gap ≠ []) → Legal pieces last →
      Legal (p :: pieces) last

variable {b : UInt8} {kind : TokenKind} {value rest last : List UInt8} {pieces : List Piece}

theorem written_cons {p : Piece} : written (p :: pieces) last =
    p.gap ++ spell p.kind p.value ++ written pieces last := by
  simp [written, Piece.bytes]

theorem Lexable.spelling (h : Lexable kind value)
    (num : kind = .num → ∀ b ∈ rest.head?, digits.contains b = false)
    (word : kind = .word → ∀ b ∈ rest.head?, alphanumeric.contains b = false) :
    Spelling kind value (spell kind value) rest := by
  cases h with
  | num ne all => exact .num ne all (num rfl)
  | word hb more => exact .word hb more (word rfl)
  | str free => exact .closed free
  | @mark kind b hm =>
      have plain : spell kind [b] = [b] := by
        cases kind with
        | str => cases hm
        | _ => rfl
      rw [plain]
      exact .mark hm

/-! ## Where a token begins -/

theorem alphanumeric_of_blank (h : b = 0x20 ∨ b = 0x09 ∨ b = 0x0D ∨ b = 0x0A) :
    alphanumeric.contains b = false := by
  rcases h with rfl | rfl | rfl | rfl <;> rfl

theorem digits_of_alphanumeric (h : alphanumeric.contains b = false) :
    digits.contains b = false := by
  cases hd : digits.contains b with
  | false => rfl
  | true =>
      rw [contains_alphanumeric.mpr (.inr hd)] at h
      cases h

theorem Lexable.spell_ne_nil (h : Lexable kind value) : spell kind value ≠ [] := by
  cases h with
  | num ne all => exact ne
  | word hb more => simp [spell]
  | str free => simp [spell]
  | @mark kind b hm => cases kind <;> simp [spell]

theorem Lexable.first (h : Lexable kind value) : ∀ b ∈ (spell kind value).head?,
    kind = .num ∨ kind = .word ∧ letters.contains b = true ∨ alphanumeric.contains b = false := by
  intro b hb
  cases h with
  | num ne all => exact .inl rfl
  | word letter more =>
      cases hb
      exact .inr (.inl ⟨rfl, letter⟩)
  | str free =>
      cases hb
      exact .inr (.inr rfl)
  | @mark kind m hm =>
      cases kind <;> cases hm <;> cases hb <;> exact .inr (.inr rfl)

/-- The text begins with a blank, with its end, or at once with its first token. -/
theorem Legal.first (h : Legal pieces last) : ∀ b ∈ (written pieces last).head?,
    (b = 0x20 ∨ b = 0x09 ∨ b = 0x0D ∨ b = 0x0A) ∨ ∃ q ∈ pieces.head?, q.gap = [] ∧
      Lexable q.kind q.value ∧ b ∈ (spell q.kind q.value).head? := by
  intro b hb
  cases h with
  | nil blank => exact .inl (blank b (List.mem_of_head? hb))
  | @cons p pieces last blank lexable apart later =>
      rw [written_cons, List.append_assoc] at hb
      cases gap : p.gap with
      | nil =>
          obtain ⟨b', bs, spelled⟩ := List.exists_cons_of_ne_nil lexable.spell_ne_nil
          rw [gap, spelled] at hb
          exact .inr ⟨p, rfl, gap, lexable, spelled ▸ hb⟩
      | cons b' gap' =>
          rw [gap] at hb
          cases hb
          exact .inl (blank b (by simp [gap]))

/-- The token of the first piece ends where its bytes do. -/
theorem Legal.spelling {p : Piece} (h : Legal (p :: pieces) last) :
    Spelling p.kind p.value (spell p.kind p.value) (written pieces last) := by
  cases h with
  | cons blank lexable apart later =>
      refine lexable.spelling (fun num b hb => ?_) fun word b hb => ?_
      · rcases later.first b hb with blank | ⟨q, next, gap, lexable, hb⟩
        · exact digits_of_alphanumeric (alphanumeric_of_blank blank)
        · rcases lexable.first b hb with num' | ⟨-, letter⟩ | other
          · exact absurd gap (apart q next (.inr (.inr ⟨num, num'⟩)))
          · exact not_digit_of_letter letter
          · exact digits_of_alphanumeric other
      · rcases later.first b hb with blank | ⟨q, next, gap, lexable, hb⟩
        · exact alphanumeric_of_blank blank
        · rcases lexable.first b hb with num | ⟨word', -⟩ | other
          · exact absurd gap (apart q next (.inr (.inl ⟨word, num⟩)))
          · exact absurd gap (apart q next (.inl ⟨word, word'⟩))
          · exact other

/-! ## Whole texts -/

/-- The text of the pieces has a layout with their tokens. -/
theorem Legal.exists_layout (h : Legal pieces last) (before : List UInt8) :
    ∃ ts, Layout before (written pieces last) ts ∧
      ts.map (fun t => (t.kind, t.value)) = pieces.map fun p => (p.kind, p.value) := by
  induction h generalizing before with
  | nil blank => exact ⟨[], .gap blank, rfl⟩
  | @cons p pieces last blank lexable apart later ih =>
      have spelled := (Legal.cons blank lexable apart later).spelling
      obtain ⟨ts, laid, same⟩ := ih (before ++ p.gap ++ spell p.kind p.value)
      rw [written_cons]
      refine ⟨⟨p.kind, p.value, lineAfter (before ++ p.gap), columnAfter (before ++ p.gap)⟩ :: ts,
        .token blank spelled rfl rfl laid, ?_⟩
      simp [same]

end LittleLang.Decl
