import LittleLang.Scan.Lexicon
import LittleLang.Text.Lossy

/-!
The tokens of the declaration language and the lexicon that finds them.
-/
namespace LittleLang.Decl

/-- The kinds of tokens. -/
inductive TokenKind where
  | num
  | word
  | str
  | eql
  | comma
  | leftPrt
  | rightPrt
  | leftBrace
  | rightBrace
  | hash
  deriving DecidableEq

namespace TokenKind

/-- All kinds. -/
def all : List TokenKind :=
  [num, word, str, eql, comma, leftPrt, rightPrt, leftBrace, rightBrace, hash]

/-- The name of the kind in reports. -/
def name : TokenKind → String
  | num => "Num"
  | word => "Word"
  | str => "Str"
  | eql => "Eql"
  | comma => "Comma"
  | leftPrt => "LeftPrt"
  | rightPrt => "RightPrt"
  | leftBrace => "LeftBrace"
  | rightBrace => "RightBrace"
  | hash => "Hash"

/-- The kind of a punctuation mark. -/
def ofMark? (b : UInt8) : Option TokenKind :=
  if b = 0x3D then some eql
  else if b = 0x2C then some comma
  else if b = 0x28 then some leftPrt
  else if b = 0x29 then some rightPrt
  else if b = 0x7B then some leftBrace
  else if b = 0x7D then some rightBrace
  else if b = 0x23 then some hash
  else none

end TokenKind

instance : Inspect TokenKind := ⟨fun k => .atom k.name⟩

/-- A token with the place of its first byte. -/
structure Token where
  kind : TokenKind
  /-- The bytes of the token; those of a string without its quotes. -/
  value : List UInt8
  line : Nat
  column : Nat
  deriving DecidableEq

namespace Token

/-- Whether the token is the word of that spelling. -/
def isWord (t : Token) (spelling : List UInt8) : Bool := t.kind == .word && t.value == spelling

/-- The bytes of the token as text. -/
def text (t : Token) : List Char := Text.ofBytes t.value

/-- The token as a report names it. -/
def message (t : Token) : String := t.kind.name ++ "(" ++ Text.quoted t.text ++ ")"

/-- A token that begins at the loaded byte. -/
def startingAt (s : Scanner) (kind : TokenKind) (value : List UInt8) : Token :=
  ⟨kind, value, s.position.line, s.position.column⟩

end Token

instance : Inspect Token where
  inspect t := .record "Token"
    [.field "kind" (inspect t.kind), .field "value" (inspect t.value),
      .field "line" (inspect t.line), .field "column" (inspect t.column)] true

/-- Reads the longest run of bytes of a class. -/
def readRun (kind : TokenKind) (c : ByteClass) (s : Scanner) : Token × Scanner :=
  let taken := s.takeWhile c
  (.startingAt s kind taken.1, taken.2)

/-- Reads one punctuation mark. -/
def readMark (s : Scanner) : Token × Scanner :=
  (.startingAt s ((TokenKind.ofMark? s.byte).getD .hash) [s.byte], s.advance)

/-- Passes the inside of a string, up to a quote or the end, and counts its lines. -/
def takeString (s : Scanner) : List UInt8 × Scanner :=
  if s.hasByte ∧ ByteClass.quote.contains s.byte = false then
    let later := takeString (if s.byte = 0x0A then s.addLines 1 else s).advance
    (s.byte :: later.1, later.2)
  else ([], s)
termination_by s.pending
decreasing_by
  rename_i h
  split
  · exact Scanner.pending_advance_lt (s := s.addLines 1) h.1
  · exact Scanner.pending_advance_lt h.1

/-- Reads a string from its opening quote to the closing one, or to the end if there is none. -/
def readString (s : Scanner) : Token × Scanner :=
  let taken := takeString s.advance
  (.startingAt s .str taken.1, if taken.2.hasByte then taken.2.advance else taken.2)

/-- Numbers are runs of digits; words begin with a letter and go on over letters and digits;
strings stand in double quotes and may run over several lines. -/
def lexicon : Lexicon Token where
  blank := .whitespace
  rules := [
    ⟨.digits, readRun .num .digits⟩,
    ⟨.letters, readRun .word .alphanumeric⟩,
    ⟨.punctuation, readMark⟩,
    ⟨.quote, readString⟩]

end LittleLang.Decl
