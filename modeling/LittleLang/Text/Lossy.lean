/-!
Reading bytes as UTF-8. Every maximal stretch that begins a character and cannot be completed is
read as one replacement character, so that every list of bytes has a text.
-/
namespace LittleLang.Text

/-- The character that stands for bytes which encode none. -/
def replacement : Char := '\ufffd'

/-- What the first byte of a character of several bytes says about the others. -/
structure Lead where
  /-- How many bytes follow. -/
  following : Nat
  /-- The least byte that may come next. -/
  low : UInt8
  /-- The greatest byte that may come next. -/
  high : UInt8
  /-- The bits of the character that the first byte holds. -/
  bits : Nat

/-- The first byte of a character of several bytes. The bounds on the second byte exclude
overlong forms, surrogates and values beyond the last character. -/
def lead? (b : UInt8) : Option Lead :=
  if b < 0xC2 then none
  else if b < 0xE0 then some ⟨1, 0x80, 0xBF, b.toNat - 0xC0⟩
  else if b < 0xF0 then
    some ⟨2, if b = 0xE0 then 0xA0 else 0x80, if b = 0xED then 0x9F else 0xBF, b.toNat - 0xE0⟩
  else if b < 0xF5 then
    some ⟨3, if b = 0xF0 then 0x90 else 0x80, if b = 0xF4 then 0x8F else 0xBF, b.toNat - 0xF0⟩
  else none

/-- Reads the `n` bytes that complete a character, the first of them within the given bounds, and
returns the character with the bytes after it. -/
def complete (bits : Nat) : Nat → UInt8 → UInt8 → List UInt8 → Char × List UInt8
  | 0, _, _, rest => (Char.ofNat bits, rest)
  | _ + 1, _, _, [] => (replacement, [])
  | n + 1, low, high, b :: rest =>
    if low ≤ b ∧ b ≤ high then complete (bits * 64 + (b.toNat - 0x80)) n 0x80 0xBF rest
    else (replacement, b :: rest)

/-- The character that `b` begins, with the bytes after it. -/
def character (b : UInt8) (rest : List UInt8) : Char × List UInt8 :=
  if b < 0x80 then (Char.ofNat b.toNat, rest)
  else
    match lead? b with
    | some l => complete l.bits l.following l.low l.high rest
    | none => (replacement, rest)

theorem complete_length_le (bits n : Nat) (low high : UInt8) (rest : List UInt8) :
    (complete bits n low high rest).2.length ≤ rest.length := by
  induction n generalizing bits low high rest with
  | zero => exact Nat.le_refl _
  | succ n ih =>
    cases rest with
    | nil => exact Nat.le_refl _
    | cons b rest =>
      simp only [complete]
      split
      · exact Nat.le_trans (ih _ _ _ _) (Nat.le_succ _)
      · exact Nat.le_refl _

theorem character_length_le (b : UInt8) (rest : List UInt8) :
    (character b rest).2.length ≤ rest.length := by
  unfold character
  split
  · exact Nat.le_refl _
  · split
    · exact complete_length_le _ _ _ _ _
    · exact Nat.le_refl _

/-- The text of any list of bytes. -/
def ofBytes : List UInt8 → List Char
  | [] => []
  | b :: rest => (character b rest).1 :: ofBytes (character b rest).2
termination_by bytes => bytes.length
decreasing_by exact Nat.lt_succ_of_le (character_length_le b rest)

end LittleLang.Text
