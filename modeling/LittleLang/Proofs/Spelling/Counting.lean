import LittleLang.Decl.Token
import LittleLang.Proofs.Scan.Discipline

/-!
# Rules that count at line feeds alone

The rules that can pass line feeds are the one for white space and the one for strings. Both count a
line at each of them, so positions are those of the bytes.
-/

namespace LittleLang

open Scanner

variable {s : Scanner} {passed rest : List UInt8} {b : UInt8}

theorem BlankRule.whitespace_passes (h : s.Between passed (b :: rest)) :
    whitespace.skip s = s.moves (passing [b]) := by
  show (if s.byte = 0x0A then (s.addLines 1).advance else s.advance) = _
  rw [moves_passing_cons, h.byte_cons]
  split <;> rfl

namespace Decl

theorem takeString_passes (h : s.Between passed rest) :
    (takeString s).2 = s.moves (passing (rest.takeWhile (· != 0x22))) := by
  induction rest generalizing s passed with
  | nil =>
      rw [takeString, if_neg (by simp [h.hasByte_nil])]
      rfl
  | cons b rest ih =>
      rw [takeString]
      by_cases quote : b = 0x22
      · rw [if_neg (by simp [h.byte_cons, quote, ByteClass.quote, ByteClass.single])]
        simp [quote, passing, moves]
      · rw [if_pos (by simp [h.hasByte_cons, h.byte_cons, quote, ByteClass.quote, ByteClass.single]),
          h.byte_cons]
        simp only [List.takeWhile_cons, bne_iff_ne, ne_eq, quote, not_false_eq_true, if_true,
          moves_passing_cons]
        exact ih h.pass

/-- The bytes from one quote to the next, or to the end. -/
theorem readString_passes_bytes (h : s.Between passed (0x22 :: rest)) :
    ∃ bytes later, 0x22 :: rest = bytes ++ later ∧
      (readString s).2 = s.moves (passing bytes) := by
  have whole : rest.takeWhile (· != 0x22) ++ rest.dropWhile (· != 0x22) = rest :=
    List.takeWhile_append_dropWhile
  have inside : (takeString s.advance).2 =
      s.moves (passing (0x22 :: rest.takeWhile (· != 0x22))) := by
    rw [takeString_passes h.advance, moves_passing_cons, if_neg (by decide)]
  have after : (takeString s.advance).2.Between
      ((0x22 :: rest.takeWhile (· != 0x22)).reverse ++ passed) (rest.dropWhile (· != 0x22)) := by
    rw [inside]
    refine Between.moves_passing ?_
    rwa [List.cons_append, whole]
  have read : (readString s).2 = if (takeString s.advance).2.hasByte then
      (takeString s.advance).2.advance else (takeString s.advance).2 := rfl
  cases left : rest.dropWhile (· != 0x22) with
  | nil =>
      rw [left] at after whole
      refine ⟨0x22 :: rest.takeWhile (· != 0x22), [], by rw [List.cons_append, whole], ?_⟩
      rw [read, if_neg (by simp [after.hasByte_nil]), inside]
  | cons q later =>
      have stop := List.head?_dropWhile_not (· != 0x22) rest
      rw [left] at after whole stop
      obtain rfl : q = 0x22 := by simpa using stop
      refine ⟨0x22 :: rest.takeWhile (· != 0x22) ++ [0x22], later, by simpa using whole.symm, ?_⟩
      rw [read, if_pos after.hasByte_cons, inside, moves_passing_append]
      rfl

end Decl

/-! ## Positions -/

/-- Between the calls of a disciplined walk, unless a line has been counted and its line feed is still
to be passed, the position is the one that the bytes before it give: the line by their line feeds, the
column by the length of the last line. The rules for white space and for strings, where a scan begins
them, go on with calls that keep the walk disciplined. -/
theorem disciplined_positions (buffer : List UInt8) (ms : List Move)
    (disciplined : Disciplined (ofBytes buffer) ms) :
    (∀ before, before <+: ms → (∀ n, before.getLast? ≠ some (.addLines n)) →
      let s := (ofBytes buffer).moves before
      ∃ front line, buffer.take s.offset = front ++ line ∧
        (front = [] ∨ front.getLast? = some 0x0A) ∧ 0x0A ∉ line ∧
          s.position = ⟨1 + (buffer.take s.offset).count 0x0A, 1 + s.offset - front.length,
            s.offset⟩) ∧
    let s := (ofBytes buffer).moves ms
    (s.Meets BlankRule.whitespace.trigger → ∃ bytes, bytes <+: s.rest ∧
      BlankRule.whitespace.skip s = s.moves (passing bytes) ∧
        Disciplined (ofBytes buffer) (ms ++ passing bytes)) ∧
    (s.Meets .quote → ∃ bytes, bytes <+: s.rest ∧
      (Decl.readString s).2 = s.moves (passing bytes) ∧
        Disciplined (ofBytes buffer) (ms ++ passing bytes)) := by
  refine ⟨fun before first passed => ?_, fun meets => ?_, fun meets => ?_⟩
  · obtain ⟨place, seen⟩ := (disciplined.of_prefix first passed).position_eq
    obtain ⟨front, line, split, begins, free, column⟩ :=
      exists_line (buffer.take ((ofBytes buffer).moves before).offset)
    refine ⟨front, line, split, begins, free, ?_⟩
    rw [split, List.length_append] at seen
    rw [place, column, lineAfter, Position.mk.injEq]
    exact ⟨rfl, by omega, rfl⟩
  · obtain ⟨b, rest, -, between⟩ := meets.between
    exact ⟨[b], by simp [between.rest_eq], BlankRule.whitespace_passes between,
      disciplined.append (@Between.disciplined _ _ rest [b] between)⟩
  · obtain ⟨b, rest, quote, between⟩ := meets.between
    cases ByteClass.contains_quote.mp quote
    obtain ⟨bytes, later, ahead, read⟩ := Decl.readString_passes_bytes between
    rw [ahead] at between
    exact ⟨bytes, ⟨later, between.rest_eq.symm⟩, read, disciplined.append between.disciplined⟩

/-- Behind the first line feed of `a`, a line feed and a string that is not closed, the second line
begins. The string is passed by disciplined calls up to the end. -/
theorem disciplined_positions_before_string :
    let buffer := ascii "a\n\"b\n"
    let ms : List Move := [.advance, .advance, .addLines 1, .advance]
    let s := (ofBytes buffer).moves ms
    Disciplined (ofBytes buffer) ms ∧ ms <+: ms ∧ (∀ n, ms.getLast? ≠ some (.addLines n)) ∧
      s.Meets .quote ∧
      (∃ front line, ascii "a\n" = front ++ line ∧ (front = [] ∨ front.getLast? = some 0x0A) ∧
        0x0A ∉ line ∧ s.position = ⟨2, 3 - front.length, 2⟩) ∧
      ∃ bytes, bytes <+: s.rest ∧ (Decl.readString s).2 = s.moves (passing bytes) ∧
        Disciplined (ofBytes buffer) (ms ++ passing bytes) := by
  intro buffer ms s
  have disciplined : Disciplined (ofBytes buffer) ms := by
    refine .pass (fun feed => absurd feed.loaded (by decide)) ?_
    refine .pass (fun feed => absurd feed.contains (by decide)) ?_
    exact .count ⟨rfl, rfl, rfl⟩ .done
  have last (n : Nat) : ms.getLast? ≠ some (.addLines n) := nofun
  have meets : s.Meets .quote := ⟨rfl, rfl, rfl⟩
  obtain ⟨places, -, string⟩ := disciplined_positions buffer ms disciplined
  exact ⟨disciplined, List.prefix_rfl, last, meets, places ms List.prefix_rfl last, string meets⟩

end LittleLang
