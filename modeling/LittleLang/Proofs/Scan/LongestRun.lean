import LittleLang.Proofs.Scan.Walks

/-!
# The run that a class takes

Where a byte is loaded, the bytes that a scanner takes for a class are the longest run of the class
from there on. Before the first byte is loaded a zero stands in its place, which a class may have.
-/

namespace LittleLang

/-- The longest start of the text whose bytes all lie in the class. -/
structure LongestRun (c : ByteClass) (text run : List UInt8) : Prop where
  start : run <+: text
  inside : ∀ b ∈ run, c.contains b = true
  longest : ∀ other, other <+: text → (∀ b ∈ other, c.contains b = true) →
    other.length ≤ run.length

theorem longestRun_takeWhile (c : ByteClass) (text : List UInt8) :
    LongestRun c text (text.takeWhile c.contains) where
  start := List.takeWhile_prefix c.contains
  inside := List.all_eq_true.mp List.all_takeWhile
  longest other start inside := by
    obtain ⟨rest, rfl⟩ := start
    rw [List.takeWhile_append_of_pos inside, List.length_append]
    exact Nat.le_add_right _ _

namespace Scanner

variable {s : Scanner} {c : ByteClass} {buffer : List UInt8} {k : Nat}

theorem content_takeWhile (c : ByteClass) (s : Scanner) : (s.takeWhile c).2.content = s.content :=
  (takeWhile_reaches c s).content_eq

theorem line_takeWhile (c : ByteClass) (s : Scanner) : (s.takeWhile c).2.line = s.line := by
  fun_induction takeWhile c s with
  | case1 s h later ih => exact ih.trans (line_advance s)
  | case2 s h => rfl

theorem lineStart_takeWhile (c : ByteClass) (s : Scanner) :
    (s.takeWhile c).2.lineStart = s.lineStart := by
  fun_induction takeWhile c s with
  | case1 s h later ih => exact ih.trans (lineStart_advance s)
  | case2 s h => rfl

/-- Where a run has ended, no byte of its class is left to take. -/
theorem takeWhile_again (c : ByteClass) (s : Scanner) :
    (s.takeWhile c).2.takeWhile c = ([], (s.takeWhile c).2) := by
  fun_induction takeWhile c s with
  | case1 s h later ih => exact ih
  | case2 s h => rw [takeWhile, if_neg h]

/-! ## With a byte loaded -/

theorem longestRun_of_loaded (c : ByteClass) (loaded : s.loaded = true) :
    LongestRun c (s.content.drop s.offset) (s.takeWhile c).1 := by
  have here : s.Between s.passed s.rest := ⟨loaded, rfl, rfl⟩
  rw [drop_offset, (here.takeWhile c).1]
  exact longestRun_takeWhile c s.rest

theorem offset_takeWhile (c : ByteClass) (loaded : s.loaded = true) :
    (s.takeWhile c).2.offset = s.offset + (s.takeWhile c).1.length := by
  have here : s.Between s.passed s.rest := ⟨loaded, rfl, rfl⟩
  obtain ⟨taken, after⟩ := here.takeWhile c
  rw [offset_eq, after.passed_eq, taken, List.length_append, List.length_reverse, s.offset_eq,
    Nat.add_comm]

/-! ## Before the first byte -/

theorem takeWhile_of_lacks_zero (unloaded : s.loaded = false) (lacks : c.contains 0 = false) :
    s.takeWhile c = ([], s) := by
  rw [takeWhile, if_neg (by simp [byte_of_unloaded unloaded, lacks])]

/-- The zero is taken for a byte. Passing it only loads the first byte. -/
theorem takeWhile_of_has_zero (unloaded : s.loaded = false) (has : s.hasByte = true)
    (zero : c.contains 0 = true) :
    s.takeWhile c = (0 :: (s.advance.takeWhile c).1, (s.advance.takeWhile c).2) := by
  rw [takeWhile, byte_of_unloaded unloaded, if_pos ⟨has, zero⟩]

theorem Advanced.offset_of_unloaded (h : Advanced buffer k s) (unloaded : s.loaded = false) :
    s.offset = 0 := by
  have none : k = 0 := by simpa [unloaded] using h.loaded_eq
  rw [h.offset_eq, none, Nat.zero_sub, Nat.zero_min]

/-! ## Any state -/

/-- Whatever calls a scanner over a buffer has had: with a byte loaded it takes the longest run of the
class from that byte on, and stands behind the run then. Without one, and with a buffer that has bytes,
it stays where it is, unless the class has the zero that stands for the byte not yet loaded: then it
takes that zero and after it the longest run from the start of the buffer. No lines are counted, and
taking the same class again takes nothing. -/
theorem moves_takeWhile_longest (buffer : List UInt8) (ms : List Move) (c : ByteClass) :
    let s := (ofBytes buffer).moves ms
    let run := (s.takeWhile c).1
    let later := (s.takeWhile c).2
    later.content = buffer ∧ later.line = s.line ∧ later.lineStart = s.lineStart ∧
      later.takeWhile c = ([], later) ∧
      (s.loaded = true → LongestRun c (buffer.drop s.offset) run ∧
        later.loaded = true ∧ later.offset = s.offset + run.length) ∧
      (s.loaded = false → buffer ≠ [] →
        (c.contains 0 = false → run = [] ∧ later = s) ∧
        (c.contains 0 = true → ∃ bytes, run = 0 :: bytes ∧ LongestRun c buffer bytes ∧
          later.loaded = true ∧ later.offset = bytes.length)) := by
  intro s run later
  have walked := (advanced_ofBytes buffer).moves ms
  have content : s.content = buffer := walked.content_eq
  refine ⟨(content_takeWhile c s).trans content, line_takeWhile c s, lineStart_takeWhile c s,
    takeWhile_again c s, fun loaded => ?_, fun unloaded nonempty => ⟨fun lacks => ?_, fun zero => ?_⟩⟩
  · rw [← content]
    exact ⟨longestRun_of_loaded c loaded, (takeWhile_reaches c s).loaded loaded,
      offset_takeWhile c loaded⟩
  · have same := takeWhile_of_lacks_zero unloaded lacks
    exact ⟨congrArg Prod.fst same, congrArg Prod.snd same⟩
  · have start : s.offset = 0 := walked.offset_of_unloaded unloaded
    have has : s.hasByte = true := by
      rw [hasByte_iff, start, content]
      exact List.length_pos_iff.mpr nonempty
    -- The zero once taken, the first byte is loaded and the run begins there.
    have same := takeWhile_of_has_zero unloaded has zero
    have start' : s.advance.offset = 0 := (offset_advance_of_unloaded unloaded).trans start
    have first := longestRun_of_loaded c (loaded_advance s)
    have offset := offset_takeWhile c (loaded_advance s)
    have loaded := (takeWhile_reaches c s.advance).loaded (loaded_advance s)
    rw [content_advance, content, start', List.drop_zero] at first
    rw [start', Nat.zero_add] at offset
    exact ⟨_, congrArg Prod.fst same, first, (congrArg (·.2.loaded) same).trans loaded,
      (congrArg (·.2.offset) same).trans offset⟩

/-- With lines counted and no byte loaded, the class of all but the digits takes the zero and then bytes
from the start, and the digits take nothing. With the second byte loaded, that class takes the run from
there. -/
theorem moves_takeWhile_longest_around_first_byte :
    let buffer := ascii "ab1"
    let s := (ofBytes buffer).moves [.addLines 2]
    let t := (ofBytes buffer).moves [.advance, .advance]
    let c := ByteClass.digits.complement
    s.loaded = false ∧ buffer ≠ [] ∧ c.contains 0 = true ∧ ByteClass.digits.contains 0 = false ∧
      (∃ bytes, (s.takeWhile c).1 = 0 :: bytes ∧ LongestRun c buffer bytes ∧
        (s.takeWhile c).2.offset = bytes.length) ∧
      (s.takeWhile .digits).2 = s ∧
      t.loaded = true ∧ LongestRun c (ascii "b1") (t.takeWhile c).1 ∧
        (t.takeWhile c).2.offset = 1 + (t.takeWhile c).1.length := by
  intro buffer s t c
  have nonempty : buffer ≠ [] := by decide
  obtain ⟨-, -, -, -, -, before⟩ := moves_takeWhile_longest buffer [.addLines 2] c
  obtain ⟨-, -, -, -, -, before'⟩ := moves_takeWhile_longest buffer [.addLines 2] .digits
  obtain ⟨-, -, -, -, behind, -⟩ := moves_takeWhile_longest buffer [.advance, .advance] c
  obtain ⟨bytes, taken, longest, -, offset⟩ := (before rfl nonempty).2 rfl
  obtain ⟨longest', -, offset'⟩ := behind rfl
  exact ⟨rfl, nonempty, rfl, rfl, ⟨bytes, taken, longest, offset⟩, ((before' rfl nonempty).1 rfl).2,
    rfl, longest', offset'⟩

end Scanner

end LittleLang
