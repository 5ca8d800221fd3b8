import LittleLang.Byte.Class
import LittleLang.Inspect

/-!
A scanner walks over bytes once, from the first to the last, and counts lines for its reports.
-/
namespace LittleLang

/-- A place in a text: line and column count from one, the offset from zero. -/
structure Position where
  line : Nat
  column : Nat
  offset : Nat
  deriving DecidableEq

/-- A place as a report names it. -/
def Position.message (p : Position) : String := s!"line {p.line} column {p.column}"

instance : Inspect Position where
  inspect p := .record "Position"
    [.field "line" (inspect p.line), .field "column" (inspect p.column),
      .field "offset" (inspect p.offset)] true

/-- A walk over bytes. No byte is loaded until the first advance; from then on the first byte of
`rest` is, and after the last byte that one stays loaded. -/
structure Scanner where
  /-- The bytes left behind, the last one first. -/
  passed : List UInt8
  /-- The bytes that lie ahead, the loaded one included. -/
  rest : List UInt8
  /-- How many bytes are left behind. -/
  offset : Nat
  offset_eq : offset = passed.length
  loaded : Bool
  /-- One more than the lines counted so far. -/
  line : Nat
  /-- The offset at which the line begins. -/
  lineStart : Nat
  deriving DecidableEq

namespace Scanner

/-- A scanner before its first byte. -/
def ofBytes (content : List UInt8) : Scanner := ⟨[], content, 0, rfl, false, 1, 0⟩

/-- All bytes, passed and to come. -/
def content (s : Scanner) : List UInt8 := s.passed.reverse ++ s.rest

/-- Whether bytes lie ahead. -/
def hasByte (s : Scanner) : Bool := !s.rest.isEmpty

/-- The loaded byte, zero if there is none. -/
def byte (s : Scanner) : UInt8 :=
  if s.loaded then
    match s.rest with
    | b :: _ => b
    | [] => s.passed.headD 0
  else 0

/-- Loads the next byte. The first call loads the first byte, and after the last byte nothing
changes. -/
def advance (s : Scanner) : Scanner :=
  if s.loaded then
    match s.rest with
    | b :: rest =>
      { s with
        passed := b :: s.passed
        rest := rest
        offset := s.offset + 1
        offset_eq := congrArg (· + 1) s.offset_eq }
    | [] => s
  else { s with loaded := true }

/-- Counts `n` lines as ended by the loaded byte. -/
def addLines (n : Nat) (s : Scanner) : Scanner :=
  { s with line := s.line + n, lineStart := s.offset + 1 }

/-- The place of the loaded byte. Before the line begins the column is one. -/
def position (s : Scanner) : Position := ⟨s.line, s.offset - s.lineStart + 1, s.offset⟩

/-- How many advances are left that change something. -/
def pending (s : Scanner) : Nat := s.rest.length + if s.loaded then 0 else 1

theorem pending_advance_lt {s : Scanner} (h : s.hasByte = true) : s.advance.pending < s.pending := by
  rcases s with ⟨passed, rest, offset, offset_eq, loaded, line, lineStart⟩
  cases loaded with
  | false => simp [advance, pending]
  | true =>
    cases rest with
    | nil => simp [hasByte] at h
    | cons b rest => simp [advance, pending]

/-- Passes the bytes that the class accepts, as far as they go, and returns them. -/
def takeWhile (c : ByteClass) (s : Scanner) : List UInt8 × Scanner :=
  if s.hasByte ∧ c.contains s.byte then
    let later := takeWhile c s.advance
    (s.byte :: later.1, later.2)
  else ([], s)
termination_by s.pending
decreasing_by exact pending_advance_lt (And.left ‹_›)

end Scanner

instance : Inspect Scanner where
  inspect s := .record "Cursor"
    [.field "content" (inspect s.content), .field "offset" (inspect s.offset),
      .field "loaded" (inspect s.loaded), .field "line" (inspect s.line),
      .field "line_start" (inspect s.lineStart)] true

end LittleLang
