import LittleLang.Failure
import LittleLang.Scan.Scanner

/-!
A lexicon says how the bytes of a text fall into tokens. For each byte the blank rule is tried
first, then the token rules in their order; the first rule whose trigger contains the byte takes
over the scanner.
-/
namespace LittleLang

/-- Why a text has no tokens. -/
inductive LexFault where
  /-- No rule of the lexicon is triggered by the byte. -/
  | unexpectedByte (byte : UInt8) (position : Position)
  deriving DecidableEq

namespace LexFault

/-- Where the fault lies. -/
def position : LexFault → Position
  | .unexpectedByte _ p => p

/-- The report of the fault. -/
def message : LexFault → String
  | .unexpectedByte b p => s!"unexpected byte 0x{Text.hexByte b} at {p.message}"

end LexFault

instance : Inspect LexFault where
  inspect
    | .unexpectedByte b p =>
      .record "UnexpectedByte" [.field "byte" (inspect b), .field "position" (inspect p)] true

/-- Passes bytes that separate tokens and belong to none. -/
structure BlankRule where
  trigger : ByteClass
  skip : Scanner → Scanner

namespace BlankRule

/-- Skips spaces, one at a time. -/
def spaces : BlankRule := ⟨.space, Scanner.advance⟩

/-- Skips spaces, tabs and line ends, and counts the lines. -/
def whitespace : BlankRule :=
  ⟨.blanks, fun s => if s.byte = 0x0A then (s.addLines 1).advance else s.advance⟩

/-- Skips nothing. -/
def none : BlankRule := ⟨.empty, Scanner.advance⟩

end BlankRule

/-- Reads one token of a kind. -/
structure TokenRule (τ : Type) where
  trigger : ByteClass
  read : Scanner → τ × Scanner

/-- The rules by which bytes fall into tokens. -/
structure Lexicon (τ : Type) where
  blank : BlankRule
  rules : List (TokenRule τ)

namespace Lexicon

variable {τ : Type}

/-- The first rule that the byte triggers. -/
def ruleFor? (x : Lexicon τ) (b : UInt8) : Option (TokenRule τ) :=
  x.rules.find? (·.trigger.contains b)

theorem mem_of_ruleFor? {x : Lexicon τ} {b : UInt8} {rule : TokenRule τ}
    (h : x.ruleFor? b = some rule) : rule ∈ x.rules :=
  List.mem_of_find?_eq_some h

theorem contains_of_ruleFor? {x : Lexicon τ} {b : UInt8} {rule : TokenRule τ}
    (h : x.ruleFor? b = some rule) : rule.trigger.contains b = true := by
  simpa using List.find?_some h

/-- Reads tokens to the end of the bytes, in at most `rounds` uses of a rule. -/
def scanWithin (x : Lexicon τ) : Nat → Scanner → Outcome LexFault (List τ) × Scanner
  | 0, s => (if s.hasByte then .error .endless else .ok [], s)
  | rounds + 1, s =>
    if s.hasByte then
      if x.blank.trigger.contains s.byte then x.scanWithin rounds (x.blank.skip s)
      else
        match x.ruleFor? s.byte with
        | some rule =>
          let first := rule.read s
          let later := x.scanWithin rounds first.2
          ((first.1 :: ·) <$> later.1, later.2)
        | none => (Outcome.fault (.unexpectedByte s.byte s.position), s)
    else (.ok [], s)

/-- Loads a byte and reads tokens to the end. A rule that passes at least one byte is used at most
once for each byte, so only rules that do not advance run out of rounds. -/
def scan (x : Lexicon τ) (s : Scanner) : Outcome LexFault (List τ) × Scanner :=
  x.scanWithin s.rest.length s.advance

/-- The tokens of a text. -/
def tokens (x : Lexicon τ) (text : List UInt8) : Outcome LexFault (List τ) :=
  (x.scan (.ofBytes text)).1

end Lexicon

instance : Inspect ByteClass := ⟨fun _ => .atom "ByteRange(..)"⟩

instance : Inspect BlankRule where
  inspect r := .record "IgnoreRule" [.field "trigger" (inspect r.trigger)] false

instance {τ : Type} : Inspect (TokenRule τ) where
  inspect r := .record "LexicalRule" [.field "trigger" (inspect r.trigger)] false

instance {τ : Type} : Inspect (Lexicon τ) where
  inspect x := .record "Lexer"
    [.field "ignore" (inspect x.blank), .field "rules" (inspect x.rules)] true

end LittleLang
