import LittleLang.Proofs.Scan.Tracking
import LittleLang.Proofs.Scan.Between
import LittleLang.Proofs.Scan.Walks

/-!
# Counting at line feeds alone

A scanner counts no lines by itself. If its calls count one line at each line feed that is passed,
right before it is passed, and none elsewhere, then its position is that of the next byte.
-/

namespace LittleLang

/-- A text is whole lines and then the line that its end belongs to, whose length gives the column. -/
theorem exists_line (text : List UInt8) : ∃ front line, text = front ++ line ∧
    (front = [] ∨ front.getLast? = some 0x0A) ∧ 0x0A ∉ line ∧ columnAfter text = 1 + line.length := by
  refine ⟨(text.reverse.dropWhile (· != 0x0A)).reverse, (text.reverse.takeWhile (· != 0x0A)).reverse,
    ?_, ?_, ?_, by rw [List.length_reverse]; rfl⟩
  · rw [← List.reverse_append, List.takeWhile_append_dropWhile, List.reverse_reverse]
  · rw [List.getLast?_reverse, List.reverse_eq_nil_iff]
    cases rest : text.reverse.dropWhile (· != 0x0A) with
    | nil => exact .inl rfl
    | cons b rest' =>
        have stop := List.head?_dropWhile_not (· != 0x0A) text.reverse
        rw [rest] at stop
        simpa using stop
  · intro mem
    simpa using List.all_eq_true.mp List.all_takeWhile _ (List.mem_reverse.mp mem)

namespace Scanner

/-- A line feed is loaded, which the next advance passes. -/
abbrev AtLineFeed (s : Scanner) : Prop := s.Meets (.single 0x0A)

theorem Meets.between {s : Scanner} {c : ByteClass} (h : s.Meets c) :
    ∃ b rest, c.contains b = true ∧ s.Between s.passed (b :: rest) := by
  cases ahead : s.rest with
  | nil =>
      have has := h.hasByte
      simp [Scanner.hasByte, ahead] at has
  | cons b rest =>
      exact ⟨b, rest, byte_of_rest h.loaded ahead ▸ h.contains, h.loaded, rfl, ahead⟩

/-- `Disciplined s ms`: from `s`, the calls pass each line feed right after one line has been counted
while it was loaded, and count no lines at any other time. -/
inductive Disciplined : Scanner → List Move → Prop
  | done {s : Scanner} : Disciplined s []
  | pass {s : Scanner} {ms : List Move} : ¬ s.AtLineFeed → Disciplined s.advance ms →
      Disciplined s (.advance :: ms)
  | count {s : Scanner} {ms : List Move} : s.AtLineFeed → Disciplined (s.addLines 1).advance ms →
      Disciplined s (.addLines 1 :: .advance :: ms)

variable {s : Scanner} {ms ms' before : List Move} {passed rest bytes : List UInt8} {b : UInt8}

theorem Disciplined.append (h : Disciplined s ms) (later : Disciplined (s.moves ms) ms') :
    Disciplined s (ms ++ ms') := by
  induction h with
  | done => exact later
  | pass clear _ ih => exact .pass clear (ih later)
  | count feed _ ih => exact .count feed (ih later)

/-- Disciplined calls may stop at any time but between counting a line and passing its line feed. -/
theorem Disciplined.of_prefix (h : Disciplined s ms) (first : before <+: ms)
    (passed : ∀ n, before.getLast? ≠ some (.addLines n)) : Disciplined s before := by
  induction h generalizing before with
  | done =>
      rw [List.prefix_nil.mp first]
      exact .done
  | pass clear _ ih =>
      cases before with
      | nil => exact .done
      | cons m before =>
          obtain ⟨rfl, later⟩ := List.cons_prefix_cons.mp first
          refine .pass clear (ih later fun n last => passed n ?_)
          rw [List.getLast?_cons, last]
          rfl
  | count feed _ ih =>
      rcases before with _ | ⟨m, _ | ⟨m', before⟩⟩
      · exact .done
      · obtain ⟨rfl, -⟩ := List.cons_prefix_cons.mp first
        exact absurd rfl (passed 1)
      · obtain ⟨rfl, second⟩ := List.cons_prefix_cons.mp first
        obtain ⟨rfl, later⟩ := List.cons_prefix_cons.mp second
        refine .count feed (ih later fun n last => passed n ?_)
        rw [List.getLast?_cons, List.getLast?_cons, last]
        rfl

/-! ## Positions -/

/-- A line has been counted for each line feed passed, and the line begins behind the last of them. -/
structure Exact (s : Scanner) : Prop where
  line_eq : s.line = 1 + s.passed.count 0x0A
  lineStart_eq : s.lineStart = s.passed.length - (s.passed.takeWhile (· != 0x0A)).length

theorem exact_ofBytes (buffer : List UInt8) : (ofBytes buffer).Exact := ⟨rfl, rfl⟩

theorem exact_tracking (passed rest : List UInt8) : (tracking passed rest).Exact := ⟨rfl, rfl⟩

namespace Exact

theorem eq_tracking (h : s.Exact) (loaded : s.loaded = true) : s = tracking s.passed s.rest := by
  rcases s with ⟨passed, rest, offset, rfl, _, line, lineStart⟩
  obtain ⟨line_eq, lineStart_eq⟩ := h
  subst loaded
  simp only at line_eq lineStart_eq
  rw [line_eq, lineStart_eq]
  rfl

theorem position_eq (h : s.Exact) : s.position =
    ⟨lineAfter s.passed.reverse, columnAfter s.passed.reverse, s.passed.length⟩ := by
  rw [← position_tracking s.passed s.rest, position, position, h.line_eq, h.lineStart_eq, s.offset_eq]
  rfl

theorem advance (h : s.Exact) (clear : ¬ s.AtLineFeed) : s.advance.Exact := by
  cases loaded : s.loaded with
  | false =>
      rw [Scanner.advance, loaded]
      exact ⟨h.line_eq, h.lineStart_eq⟩
  | true =>
      cases ahead : s.rest with
      | nil =>
          rw [advance_of_end loaded (by simp [hasByte, ahead])]
          exact h
      | cons b rest =>
          have other : b ≠ 0x0A := by
            rintro rfl
            refine clear ⟨loaded, by simp [hasByte, ahead], ?_⟩
            simp [byte_of_rest loaded ahead, ByteClass.single]
          rw [h.eq_tracking loaded, ahead, advance_tracking other]
          exact exact_tracking _ _

theorem count (h : s.Exact) (feed : s.AtLineFeed) : (s.addLines 1).advance.Exact := by
  obtain ⟨b, rest, same, between⟩ := feed.between
  obtain rfl : b = 0x0A := by simpa [ByteClass.single] using same
  rw [h.eq_tracking feed.loaded, between.rest_eq, advance_addLines_tracking]
  exact exact_tracking _ _

end Exact

theorem Disciplined.exact (h : Disciplined s ms) (start : s.Exact) : (s.moves ms).Exact := by
  induction h with
  | done => exact start
  | pass clear _ ih => exact ih (start.advance clear)
  | count feed _ ih => exact ih (start.count feed)

/-- After disciplined calls the position is told by the bytes before it. -/
theorem Disciplined.position_eq {buffer : List UInt8} (h : Disciplined (ofBytes buffer) ms) :
    let s := (ofBytes buffer).moves ms
    let seen := buffer.take s.offset
    s.position = ⟨lineAfter seen, columnAfter seen, s.offset⟩ ∧ seen.length = s.offset := by
  intro s seen
  have same : s.content = buffer := ((advanced_ofBytes buffer).moves ms).content_eq
  have behind : seen = s.passed.reverse := by
    show buffer.take s.offset = _
    rw [← same, take_offset]
  rw [behind, List.length_reverse, s.offset_eq]
  exact ⟨(h.exact (exact_ofBytes buffer)).position_eq, rfl⟩

/-! ## Passing bytes -/

/-- The calls that pass the bytes and count a line at each line feed among them. -/
def passing (bytes : List UInt8) : List Move :=
  bytes.flatMap fun b => if b = 0x0A then [.addLines 1, .advance] else [.advance]

theorem moves_passing_cons (s : Scanner) (b : UInt8) (bytes : List UInt8) :
    s.moves (passing (b :: bytes)) =
      ((if b = 0x0A then s.addLines 1 else s).advance).moves (passing bytes) := by
  rw [passing, List.flatMap_cons, moves_append]
  split <;> rfl

theorem moves_passing_append (s : Scanner) (bytes bytes' : List UInt8) :
    s.moves (passing (bytes ++ bytes')) = (s.moves (passing bytes)).moves (passing bytes') := by
  rw [passing, List.flatMap_append, moves_append]
  rfl

namespace Between

/-- Passing a byte, and counting a line if it is a line feed. -/
theorem pass (h : s.Between passed (b :: rest)) :
    (if b = 0x0A then s.addLines 1 else s).advance.Between (b :: passed) rest := by
  split
  · exact (h.addLines 1).advance
  · exact h.advance

theorem moves_passing (h : s.Between passed (bytes ++ rest)) :
    (s.moves (passing bytes)).Between (bytes.reverse ++ passed) rest := by
  induction bytes generalizing s passed with
  | nil => exact h
  | cons b bytes ih =>
      rw [moves_passing_cons, List.reverse_cons, List.append_assoc]
      exact ih h.pass

theorem atLineFeed_iff (h : s.Between passed (b :: rest)) : s.AtLineFeed ↔ b = 0x0A := by
  constructor
  · intro feed
    simpa [h.byte_cons, ByteClass.single] using feed.contains
  · intro feed
    exact ⟨h.loaded, h.hasByte_cons, by simp [h.byte_cons, feed, ByteClass.single]⟩

theorem disciplined (h : s.Between passed (bytes ++ rest)) : Disciplined s (passing bytes) := by
  induction bytes generalizing s passed with
  | nil => exact .done
  | cons b bytes ih =>
      have later := ih h.pass
      rw [passing, List.flatMap_cons]
      by_cases feed : b = 0x0A
      · rw [if_pos feed] at later ⊢
        exact .count (h.atLineFeed_iff.mpr feed) later
      · rw [if_neg feed] at later ⊢
        exact .pass (feed ∘ h.atLineFeed_iff.mp) later

end Between

end Scanner

end LittleLang
