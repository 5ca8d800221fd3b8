import LittleLang.Decl.Token
import LittleLang.Proofs.Scan.Tracking

/-!
# How tokens lie in a text
-/

namespace LittleLang.Decl

/-- The byte that a punctuation mark is written as. -/
def TokenKind.mark? : TokenKind → Option UInt8
  | eql => some 0x3D
  | comma => some 0x2C
  | leftPrt => some 0x28
  | rightPrt => some 0x29
  | leftBrace => some 0x7B
  | rightBrace => some 0x7D
  | hash => some 0x23
  | _ => none

/-- `Spelling kind value bytes rest`: the bytes spell a token of that kind and value, where `rest`
comes after them. A number or a word goes on as far as it can, and only a string that runs to the
end of the text lacks its closing quote. -/
inductive Spelling : TokenKind → List UInt8 → List UInt8 → List UInt8 → Prop
  | num {value rest} : value ≠ [] → (∀ b ∈ value, ByteClass.digits.contains b = true) →
      (∀ b ∈ rest.head?, ByteClass.digits.contains b = false) → Spelling .num value value rest
  | word {b bs rest} : ByteClass.letters.contains b = true →
      (∀ c ∈ bs, ByteClass.alphanumeric.contains c = true) →
      (∀ c ∈ rest.head?, ByteClass.alphanumeric.contains c = false) →
      Spelling .word (b :: bs) (b :: bs) rest
  | mark {kind b rest} : kind.mark? = some b → Spelling kind [b] [b] rest
  | closed {value rest} : 0x22 ∉ value → Spelling .str value (0x22 :: (value ++ [0x22])) rest
  | unclosed {value} : 0x22 ∉ value → Spelling .str value (0x22 :: value) []

/-- Only spaces, tabs, carriage returns and line feeds. -/
def Blank (gap : List UInt8) : Prop := ∀ b ∈ gap, b = 0x20 ∨ b = 0x09 ∨ b = 0x0D ∨ b = 0x0A

instance : DecidablePred Blank := fun gap => List.decidableBAll _ gap

/-- `Layout before text ts`: the text, which comes after the bytes `before`, consists of the
spellings of the tokens with gaps around them, and each token has the place of its first byte. -/
inductive Layout : List UInt8 → List UInt8 → List Token → Prop
  | gap {before gap} : Blank gap → Layout before gap []
  | token {before gap bytes rest ts} {t : Token} : Blank gap →
      Spelling t.kind t.value bytes rest → t.line = lineAfter (before ++ gap) →
      t.column = columnAfter (before ++ gap) → Layout (before ++ gap ++ bytes) rest ts →
      Layout before (gap ++ bytes ++ rest) (t :: ts)

theorem Layout.blank_cons {before rest : List UInt8} {b : UInt8} {ts : List Token}
    (hb : b = 0x20 ∨ b = 0x09 ∨ b = 0x0D ∨ b = 0x0A) (h : Layout (before ++ [b]) rest ts) :
    Layout before (b :: rest) ts := by
  cases h with
  | gap hg => exact .gap (List.forall_mem_cons.mpr ⟨hb, hg⟩)
  | @token _ gap bytes rest ts t hg hs line column later =>
      rw [← List.append_cons] at line column later
      exact .token (List.forall_mem_cons.mpr ⟨hb, hg⟩) hs line column later

theorem layout_nil {before : List UInt8} : Layout before [] [] := .gap (by simp [Blank])

theorem Layout.of_spelling {kind : TokenKind} {value before bytes rest : List UInt8}
    {ts : List Token} (spelled : Spelling kind value bytes rest)
    (later : Layout (before ++ bytes) rest ts) :
    Layout before (bytes ++ rest) (⟨kind, value, lineAfter before, columnAfter before⟩ :: ts) := by
  have first := @Layout.token before [] bytes rest ts
    ⟨kind, value, lineAfter before, columnAfter before⟩ (by simp [Blank]) spelled (by simp)
    (by simp)
  rw [List.append_nil, List.nil_append] at first
  exact first later

/-! ## The bytes of values -/

theorem Spelling.value_subset {kind : TokenKind} {value bytes rest : List UInt8}
    (h : Spelling kind value bytes rest) : value ⊆ bytes := by
  cases h with
  | num => exact List.Subset.refl _
  | word => exact List.Subset.refl _
  | mark => exact List.Subset.refl _
  | closed => exact fun b hb => by simp [hb]
  | unclosed => exact fun b hb => by simp [hb]

theorem Layout.value_subset {before text : List UInt8} {ts : List Token}
    (h : Layout before text ts) : ∀ t ∈ ts, t.value ⊆ text := by
  induction h with
  | gap => simp
  | token hg hs line column later ih =>
      refine List.forall_mem_cons.mpr ⟨fun b hb => ?_, fun t mem b hb => ?_⟩
      · simp [hs.value_subset hb]
      · simp [ih t mem hb]

/-! ## Values on one line -/

/-- The value of the token, unless it is a string, is not empty and has no line feed in it. -/
def Token.OneLine (t : Token) : Prop := t.kind ≠ .str → t.value ≠ [] ∧ 0x0A ∉ t.value

theorem not_mem_of_class {c : ByteClass} {q : UInt8} {bs : List UInt8} (hc : c.contains q = false)
    (h : ∀ b ∈ bs, c.contains b = true) : q ∉ bs := by
  intro mem
  have := h _ mem
  rw [hc] at this
  cases this

theorem Spelling.oneLine {t : Token} {bytes rest : List UInt8}
    (h : Spelling t.kind t.value bytes rest) : t.OneLine := by
  intro notString
  rcases t with ⟨kind, value, line, column⟩
  cases h with
  | num ne digits => exact ⟨ne, not_mem_of_class rfl digits⟩
  | @word b bs _ hb more =>
      have inside : 0x0A ∉ bs := not_mem_of_class rfl more
      refine ⟨by simp, fun mem => ?_⟩
      rcases List.mem_cons.mp mem with rfl | mem
      · cases hb
      · exact inside mem
  | @mark _ b _ hm =>
      have ne : b ≠ 0x0A := by
        rintro rfl
        cases kind <;> cases hm
      simp [ne.symm]
  | closed => exact absurd rfl notString
  | unclosed => exact absurd rfl notString

theorem Layout.oneLine {before text : List UInt8} {ts : List Token} (h : Layout before text ts) :
    ∀ t ∈ ts, t.OneLine := by
  induction h with
  | gap => simp
  | token hg hs line column later ih => exact List.forall_mem_cons.mpr ⟨hs.oneLine, ih⟩

end LittleLang.Decl
