import LittleLang.Scan.Scanner

/-!
# Scanners that have counted every line end

A scanner that counts a line at each line feed it passes is known by the bytes it has passed and
those that lie ahead, and its position is that of the next byte.
-/

namespace LittleLang

/-- The line of a byte that comes after the given ones: one more than the line feeds among them. -/
def lineAfter (before : List UInt8) : Nat := 1 + before.count 0x0A

/-- The column of a byte that comes after the given ones: one more than the bytes since the last
line feed, or since the start. -/
def columnAfter (before : List UInt8) : Nat :=
  1 + (before.reverse.takeWhile (· != 0x0A)).length

namespace Scanner

/-- The scanner that has passed the bytes of the first list, the last one first, and has counted a
line for each line feed among them. -/
def tracking (passed rest : List UInt8) : Scanner :=
  ⟨passed, rest, passed.length, rfl, true, 1 + passed.count 0x0A,
    passed.length - (passed.takeWhile (· != 0x0A)).length⟩

variable {b : UInt8} {passed rest : List UInt8} {c : ByteClass}

@[simp] theorem hasByte_tracking_nil : (tracking passed []).hasByte = false := rfl

@[simp] theorem hasByte_tracking_cons : (tracking passed (b :: rest)).hasByte = true := rfl

@[simp] theorem byte_tracking_cons : (tracking passed (b :: rest)).byte = b := rfl

theorem position_tracking (passed rest : List UInt8) :
    (tracking passed rest).position =
      ⟨lineAfter passed.reverse, columnAfter passed.reverse, passed.length⟩ := by
  have le := (List.takeWhile_sublist (p := (· != 0x0A)) (l := passed)).length_le
  simp only [position, tracking, lineAfter, columnAfter, List.count_reverse, List.reverse_reverse,
    Position.mk.injEq, true_and, and_true]
  omega

theorem advance_tracking (hb : b ≠ 0x0A) :
    (tracking passed (b :: rest)).advance = tracking (b :: passed) rest := by
  have le := (List.takeWhile_sublist (p := (· != 0x0A)) (l := passed)).length_le
  simp [advance, tracking, hb]

theorem advance_addLines_tracking :
    ((tracking passed (0x0A :: rest)).addLines 1).advance = tracking (0x0A :: passed) rest := by
  simp [advance, addLines, tracking]
  omega

/-- Passing a byte, and counting a line if it is a line feed. -/
theorem pass_tracking (b : UInt8) (passed rest : List UInt8) :
    (if b = 0x0A then (tracking passed (b :: rest)).addLines 1
      else tracking passed (b :: rest)).advance = tracking (b :: passed) rest := by
  by_cases hb : b = 0x0A
  · subst hb
    rw [if_pos rfl]
    exact advance_addLines_tracking
  · rw [if_neg hb]
    exact advance_tracking hb

/-- A run of a class without the line feed. -/
theorem takeWhile_tracking (hc : c.contains 0x0A = false) (passed rest : List UInt8) :
    (tracking passed rest).takeWhile c =
      (rest.takeWhile c.contains,
        tracking ((rest.takeWhile c.contains).reverse ++ passed) (rest.dropWhile c.contains)) := by
  induction rest generalizing passed with
  | nil =>
      rw [takeWhile, if_neg (by simp)]
      rfl
  | cons b rest ih =>
      rw [takeWhile]
      cases hb : c.contains b with
      | true =>
          have ne : b ≠ 0x0A := by
            rintro rfl
            rw [hc] at hb
            cases hb
          rw [if_pos (by simp [hb]), advance_tracking ne, ih]
          simp [hb]
      | false =>
          rw [if_neg (by simp [hb])]
          simp [hb]

end Scanner

end LittleLang
