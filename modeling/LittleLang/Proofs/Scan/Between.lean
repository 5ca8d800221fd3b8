import LittleLang.Scan.Lexicon

/-!
# Scanners between the bytes passed and those ahead

What the rules of a lexicon read, and where they stop, depends on the bytes around the scanner
alone; the lines it has counted show in positions only.
-/

namespace LittleLang

namespace Scanner

/-- A byte has been loaded, the bytes of the first list are passed, the last one first, and those of
the second lie ahead. -/
structure Between (s : Scanner) (passed rest : List UInt8) : Prop where
  loaded : s.loaded = true
  passed_eq : s.passed = passed
  rest_eq : s.rest = rest

variable {s : Scanner} {b : UInt8} {passed rest text : List UInt8}

theorem between_ofBytes (text : List UInt8) : (ofBytes text).advance.Between [] text :=
  ⟨rfl, rfl, rfl⟩

namespace Between

theorem hasByte_nil (h : s.Between passed []) : s.hasByte = false := by
  simp [hasByte, h.rest_eq]

theorem hasByte_cons (h : s.Between passed (b :: rest)) : s.hasByte = true := by
  simp [hasByte, h.rest_eq]

theorem byte_cons (h : s.Between passed (b :: rest)) : s.byte = b := by
  simp [byte, h.loaded, h.rest_eq]

theorem offset_position (h : s.Between passed rest) : s.position.offset = passed.length := by
  simp [position, s.offset_eq, h.passed_eq]

theorem addLines (h : s.Between passed rest) (n : Nat) : (s.addLines n).Between passed rest :=
  ⟨h.loaded, h.passed_eq, h.rest_eq⟩

theorem advance (h : s.Between passed (b :: rest)) : s.advance.Between (b :: passed) rest := by
  rcases s with ⟨_, _, offset, offset_eq, _, line, lineStart⟩
  obtain ⟨rfl, rfl, rfl⟩ := h
  exact ⟨rfl, rfl, rfl⟩

theorem takeWhile (h : s.Between passed rest) (c : ByteClass) :
    (s.takeWhile c).1 = rest.takeWhile c.contains ∧
      (s.takeWhile c).2.Between ((rest.takeWhile c.contains).reverse ++ passed)
        (rest.dropWhile c.contains) := by
  induction rest generalizing s passed with
  | nil =>
      rw [Scanner.takeWhile, if_neg (by simp [h.hasByte_nil])]
      exact ⟨rfl, h⟩
  | cons b rest ih =>
      rw [Scanner.takeWhile]
      cases hb : c.contains b with
      | true =>
          obtain ⟨taken, later⟩ := ih h.advance
          rw [if_pos (by simp [h.hasByte_cons, h.byte_cons, hb])]
          simp only [taken, h.byte_cons, List.takeWhile_cons, hb, List.dropWhile_cons, if_true,
            List.reverse_cons, List.append_assoc, List.singleton_append, true_and]
          exact later
      | false =>
          rw [if_neg (by simp [h.byte_cons, hb])]
          simpa [hb] using h

end Between

end Scanner

end LittleLang
