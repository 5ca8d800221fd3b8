/-!
Classes of bytes, and the spelling of text in bytes. A class is known by its members alone.
-/
namespace LittleLang

/-- The bytes of a text whose characters are all ASCII. -/
def ascii (text : String) : List UInt8 :=
  text.toList.map fun c => c.toNat.toUInt8

/-- The bytes of a text in UTF-8. -/
def utf8 (text : String) : List UInt8 := text.toUTF8.toList

/-- A class of bytes, given by its membership test. -/
@[ext] structure ByteClass where
  contains : UInt8 → Bool

namespace ByteClass

/-- Exactly one byte. -/
def single (b : UInt8) : ByteClass := ⟨fun x => x == b⟩

/-- The bytes from `lo` to `hi`, both included; none if `hi < lo`. -/
def between (lo hi : UInt8) : ByteClass := ⟨fun x => lo ≤ x && x ≤ hi⟩

/-- The listed bytes. -/
def ofList (bytes : List UInt8) : ByteClass := ⟨fun x => bytes.contains x⟩

/-- The bytes that some class of the list contains. -/
def union (classes : List ByteClass) : ByteClass := ⟨fun x => classes.any (·.contains x)⟩

/-- The bytes that `c` does not contain. -/
def complement (c : ByteClass) : ByteClass := ⟨fun x => !c.contains x⟩

/-- The bytes whose bits under `mask` are those of `pattern`. -/
def masked (mask pattern : UInt8) : ByteClass := ⟨fun x => x &&& mask == pattern⟩

/-- The class without a member. -/
def empty : ByteClass := ofList []

/-- The decimal digits. -/
def digits : ByteClass := between 0x30 0x39

/-- The ASCII letters and the underscore. -/
def letters : ByteClass := union [between 0x61 0x7A, between 0x41 0x5A, single 0x5F]

/-- Letters, the underscore and digits. -/
def alphanumeric : ByteClass := union [letters, digits]

/-- The double quote. -/
def quote : ByteClass := single 0x22

/-- The marks `=`, `,`, the round brackets, the braces and `#`. -/
def punctuation : ByteClass := ofList (ascii "=,()\x7b\x7d#")

/-- The space. -/
def space : ByteClass := single 0x20

/-- Space, tab, carriage return and line feed. -/
def blanks : ByteClass := ofList (ascii " \t\r\n")

theorem contains_digits {b : UInt8} : digits.contains b = true ↔ 0x30 ≤ b ∧ b ≤ 0x39 := by
  simp [digits, between]

theorem contains_letters {b : UInt8} : letters.contains b = true ↔
    0x61 ≤ b ∧ b ≤ 0x7A ∨ 0x41 ≤ b ∧ b ≤ 0x5A ∨ b = 0x5F := by
  simp [letters, union, between, single]

theorem contains_alphanumeric {b : UInt8} : alphanumeric.contains b = true ↔
    letters.contains b = true ∨ digits.contains b = true := by
  simp [alphanumeric, union]

theorem contains_quote {b : UInt8} : quote.contains b = true ↔ b = 0x22 := by
  simp [quote, single]

theorem contains_punctuation {b : UInt8} :
    punctuation.contains b = true ↔ b ∈ ascii "=,()\x7b\x7d#" := by
  simp [punctuation, ofList]

theorem contains_blanks {b : UInt8} : blanks.contains b = true ↔
    b = 0x20 ∨ b = 0x09 ∨ b = 0x0D ∨ b = 0x0A := by
  simp [blanks, ofList, ascii]

/-- The members, in increasing order. -/
def members (c : ByteClass) : List UInt8 :=
  ((List.range 256).map (·.toUInt8)).filter c.contains

/-- Puts a byte before the runs above it, as a part of the first one if they touch. -/
def extendRuns (b : UInt8) : List (UInt8 × UInt8) → List (UInt8 × UInt8)
  | [] => [(b, b)]
  | (lo, hi) :: later =>
    if b.toNat + 1 = lo.toNat then (b, hi) :: later else (b, b) :: (lo, hi) :: later

/-- The members as maximal runs of neighbours, in increasing order. -/
def runs (c : ByteClass) : List (UInt8 × UInt8) := c.members.foldr extendRuns []

end ByteClass

end LittleLang
