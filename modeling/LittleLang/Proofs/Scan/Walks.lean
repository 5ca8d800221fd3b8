import Mathlib.Algebra.GroupWithZero.Nat
import LittleLang.Proofs.Scan.Routines

/-!
# Walks of a scanner

What a scanner has come to after loading bytes and counting lines, in any order, can be told from the
calls: how often the next byte was loaded, how many lines were counted, and where the last were.
-/

namespace LittleLang.Scanner

/-- A call that changes a scanner. -/
inductive Move
  | advance
  | addLines (n : Nat)
  deriving DecidableEq

/-- How many lines the call counts. -/
def Move.lines : Move → Nat
  | advance => 0
  | addLines n => n

/-- The scanner after a call. -/
def move (s : Scanner) : Move → Scanner
  | .advance => s.advance
  | .addLines n => s.addLines n

/-- The scanner after calls, from the first to the last. -/
def moves (s : Scanner) (ms : List Move) : Scanner := ms.foldl move s

variable {s : Scanner} {ms : List Move} {buffer : List UInt8} {k n : Nat}

theorem moves_append (s : Scanner) (ms ms' : List Move) :
    s.moves (ms ++ ms') = (s.moves ms).moves ms' := List.foldl_append

/-! ## Bytes -/

theorem take_offset (s : Scanner) : s.content.take s.offset = s.passed.reverse := by
  rw [content, s.offset_eq, ← List.length_reverse, List.take_left]

theorem drop_offset (s : Scanner) : s.content.drop s.offset = s.rest := by
  rw [content, s.offset_eq, ← List.length_reverse, List.drop_left]

theorem hasByte_iff : s.hasByte = true ↔ s.offset < s.content.length := by
  rw [length_content, hasByte, Bool.not_eq_true', List.isEmpty_eq_false_iff, ← List.length_pos_iff]
  omega

theorem byte_of_unloaded (h : s.loaded = false) : s.byte = 0 := by
  simp [byte, h]

theorem byte_of_empty (h : s.content = []) : s.byte = 0 := by
  obtain ⟨passed, rest⟩ := List.append_eq_nil_iff.mp h
  rw [List.reverse_eq_nil_iff] at passed
  simp [byte, passed, rest]

/-- Behind the last byte, that one stays loaded. -/
theorem getElem?_content_min (loaded : s.loaded = true) (nonempty : s.content ≠ []) :
    s.content[min s.offset (s.content.length - 1)]? = some s.byte := by
  cases has : s.hasByte with
  | true =>
      have := hasByte_iff.mp has
      rw [Nat.min_eq_left (by omega)]
      exact getElem?_content loaded has
  | false =>
      rcases s with ⟨passed, rest, offset, rfl, _, line, lineStart⟩
      subst loaded
      cases rest with
      | cons b rest => cases has
      | nil =>
          cases passed with
          | nil => exact absurd rfl nonempty
          | cons b passed => simp [content, byte]

theorem offset_advance_of_unloaded (h : s.loaded = false) : s.advance.offset = s.offset := by
  simp [advance, h]

theorem offset_advance (h : s.loaded = true) :
    s.advance.offset = min (s.offset + 1) s.content.length := by
  rw [length_content]
  cases ahead : s.rest with
  | nil => simp [advance, h, ahead]
  | cons b rest =>
      simp only [advance, h, ahead, if_true, List.length_cons]
      omega

/-- The scanner walks over the buffer and has been asked for the next byte `k` times. -/
structure Advanced (buffer : List UInt8) (k : Nat) (s : Scanner) : Prop where
  content_eq : s.content = buffer
  loaded_eq : s.loaded = decide (0 < k)
  offset_eq : s.offset = min (k - 1) buffer.length

theorem advanced_ofBytes (buffer : List UInt8) : Advanced buffer 0 (ofBytes buffer) :=
  ⟨rfl, rfl, (Nat.zero_min _).symm⟩

namespace Advanced

theorem advance (h : Advanced buffer k s) : Advanced buffer (k + 1) s.advance := by
  refine ⟨(content_advance s).trans h.content_eq, by simp [loaded_advance], ?_⟩
  have offset := h.offset_eq
  rw [Nat.add_sub_cancel]
  cases k with
  | zero =>
      rw [offset_advance_of_unloaded h.loaded_eq, offset]
  | succ k =>
      rw [offset_advance h.loaded_eq, h.content_eq, offset]
      omega

theorem addLines (h : Advanced buffer k s) (n : Nat) : Advanced buffer k (s.addLines n) :=
  ⟨h.content_eq, h.loaded_eq, h.offset_eq⟩

theorem moves (h : Advanced buffer k s) (ms : List Move) :
    Advanced buffer (k + ms.count .advance) (s.moves ms) := by
  induction ms generalizing k s with
  | nil => exact h
  | cons m ms ih =>
      cases m with
      | advance =>
          rw [List.count_cons_self, Nat.add_comm _ 1, ← Nat.add_assoc]
          exact ih h.advance
      | addLines n =>
          rw [List.count_cons_of_ne (by simp)]
          exact ih (h.addLines n)

theorem byte_eq_zero (h : Advanced buffer k s) (bare : k = 0 ∨ buffer = []) : s.byte = 0 := by
  rcases bare with rfl | rfl
  · exact byte_of_unloaded h.loaded_eq
  · exact byte_of_empty h.content_eq

theorem getElem?_byte (h : Advanced buffer k s) (asked : 0 < k) (nonempty : buffer ≠ []) :
    buffer[min (k - 1) (buffer.length - 1)]? = some s.byte := by
  have loaded : s.loaded = true := by simp [h.loaded_eq, asked]
  have last := getElem?_content_min loaded (h.content_eq ▸ nonempty)
  rwa [h.content_eq, h.offset_eq, Nat.min_assoc, Nat.min_eq_right (Nat.sub_le _ 1)] at last

end Advanced

/-! ## Lines -/

theorem line_advance (s : Scanner) : s.advance.line = s.line := by
  unfold advance
  split
  · split <;> rfl
  · rfl

theorem lineStart_advance (s : Scanner) : s.advance.lineStart = s.lineStart := by
  unfold advance
  split
  · split <;> rfl
  · rfl

theorem line_moves (s : Scanner) (ms : List Move) :
    (s.moves ms).line = s.line + (ms.map Move.lines).sum := by
  induction ms generalizing s with
  | nil => rfl
  | cons m ms ih =>
      rw [List.map_cons, List.sum_cons, ← Nat.add_assoc]
      refine (ih (s.move m)).trans (congrArg (· + _) ?_)
      cases m with
      | advance => exact line_advance s
      | addLines n => rfl

/-- Where the line begins is left as it is, if no lines are counted. -/
theorem lineStart_moves (s : Scanner) (none : ∀ n, .addLines n ∉ ms) :
    (s.moves ms).lineStart = s.lineStart := by
  induction ms generalizing s with
  | nil => rfl
  | cons m ms ih =>
      have later := ih (s.move m) fun n mem => none n (List.mem_cons_of_mem _ mem)
      cases m with
      | advance => exact later.trans (lineStart_advance s)
      | addLines n => exact absurd List.mem_cons_self (none n)

/-! ## Whole walks -/

/-- What a scanner shows after any calls from the start of a buffer. The first advance only loads a
byte; from then on each goes one byte on, up to the end of the buffer, where the last byte stays
loaded. Columns are counted from behind the byte that was loaded when lines were last counted. -/
theorem moves_ofBytes_shows (buffer : List UInt8) (ms : List Move) :
    let s := (ofBytes buffer).moves ms
    let k := ms.count .advance
    s.content = buffer ∧
      s.offset = min (k - 1) buffer.length ∧
      (s.hasByte = true ↔ s.offset < buffer.length) ∧
      (k = 0 ∨ buffer = [] → s.byte = 0) ∧
      (0 < k → buffer ≠ [] → buffer[min (k - 1) (buffer.length - 1)]? = some s.byte) ∧
      s.position.offset = s.offset ∧
      s.position.line = 1 + (ms.map Move.lines).sum ∧
      ((∀ n, .addLines n ∉ ms) → s.position.column = s.offset + 1) ∧
      ∀ before n after, ms = before ++ .addLines n :: after → (∀ n, .addLines n ∉ after) →
        s.position.column = 1 + (s.offset - (((ofBytes buffer).moves before).offset + 1)) := by
  intro s k
  have walked : Advanced buffer k s := by
    have := (advanced_ofBytes buffer).moves ms
    rwa [Nat.zero_add] at this
  refine ⟨walked.content_eq, walked.offset_eq, ?_, walked.byte_eq_zero, walked.getElem?_byte, rfl,
    line_moves _ ms, fun none => ?_, fun before n after split none => ?_⟩
  · rw [hasByte_iff, walked.content_eq]
  · have begin : s.lineStart = 0 := lineStart_moves _ none
    rw [position, begin]
    rfl
  · have begin : s.lineStart = ((ofBytes buffer).moves before).offset + 1 := by
      show ((ofBytes buffer).moves ms).lineStart = _
      rw [split, moves_append]
      exact lineStart_moves _ none
    rw [position, begin, Nat.add_comm]

/-- Two lines are counted before a byte is loaded, and one at the line feed. Two more advances go past
the last byte. -/
theorem moves_ofBytes_shows_past_end :
    let s := (ofBytes (ascii "a\nb")).moves
      [.addLines 2, .advance, .advance, .addLines 1, .advance, .advance, .advance]
    s.content = ascii "a\nb" ∧ s.offset = 3 ∧ (s.hasByte = true ↔ 3 < 3) ∧
      (ascii "a\nb")[2]? = some s.byte ∧ s.position.line = 4 ∧ s.position.column = 2 := by
  obtain ⟨content, offset, has, -, byte, -, line, -, column⟩ := moves_ofBytes_shows (ascii "a\nb")
    [.addLines 2, .advance, .advance, .addLines 1, .advance, .advance, .advance]
  exact ⟨content, offset, has, byte (by decide) (by decide), line,
    column [.addLines 2, .advance, .advance] 1 [.advance, .advance, .advance] rfl (by simp)⟩

end LittleLang.Scanner
