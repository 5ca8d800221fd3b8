import LittleLang.Decl.Language
import LittleLang.Proofs.Print.Lemmas.Headers

/-!
# Strings read back from their literals

The sheet escapes line ends and leaves a backslash as it is, so a value comes back from its literal
exactly if none of its backslashes turns into an escape.
-/

namespace LittleLang.Decl

/-- What a backslash with this byte after it stands for, if the two are an escape. -/
def escapeFor? (c : UInt8) : Option UInt8 :=
  if c = 0x6E then some 0x0A
  else if c = 0x72 then some 0x0D
  else if c = 0x5C ∨ c = 0x22 then some c
  else none

/-- Reads a literal behind its opening quote: what it stands for, and the bytes that come after the
closing quote. -/
def readInside : List UInt8 → Option (List UInt8 × List UInt8)
  | [] => none
  | [b] => if b = 0x22 then some ([], []) else none
  | b :: c :: rest =>
    if b = 0x22 then some ([], c :: rest)
    else if b = 0x5C then
      match escapeFor? c with
      | some d => (readInside rest).map (Prod.map (d :: ·) id)
      | none => (readInside (c :: rest)).map (Prod.map (b :: ·) id)
    else (readInside (c :: rest)).map (Prod.map (b :: ·) id)

/-- What a literal stands for, if its closing quote is its last byte. -/
def readLiteral (bytes : List UInt8) : Option (List UInt8) :=
  match bytes with
  | [] => none
  | b :: rest =>
    if b = 0x22 then
      match readInside rest with
      | some (value, []) => some value
      | _ => none
    else none

/-- The bytes that make an escape with a backslash before them. A line end is among them, since it is
written with a backslash. -/
def escaping : List UInt8 := [0x5C, 0x6E, 0x72, 0x0A, 0x0D]

/-- Each backslash of the value has a byte after it that makes no escape with it. -/
def KeepsBackslashes : List UInt8 → Prop
  | [] => True
  | b :: v => (b = 0x5C → ∃ c ∈ v.head?, c ∉ escaping) ∧ KeepsBackslashes v

variable {b c : UInt8} {v w rest : List UInt8}

/-! ## One byte of a value -/

theorem readInside_quote (rest : List UInt8) : readInside (0x22 :: rest) = some ([], rest) := by
  cases rest <;> rfl

theorem readInside_plain (hq : b ≠ 0x22) (hb : b ≠ 0x5C) (rest : List UInt8) :
    readInside (b :: rest) = (readInside rest).map (Prod.map (b :: ·) id) := by
  cases rest <;> simp [readInside, hq, hb]

theorem readInside_escapeByte (hq : b ≠ 0x22) (hb : b ≠ 0x5C) (rest : List UInt8) :
    readInside (escapeByte b ++ rest) = (readInside rest).map (Prod.map (b :: ·) id) := by
  by_cases hn : b = 0x0A
  · subst hn
    rfl
  by_cases hr : b = 0x0D
  · subst hr
    rfl
  rw [escapeByte, if_neg hn, if_neg hr]
  exact readInside_plain hq hb rest

theorem readInside_backslash (hq : c ≠ 0x22) (hc : c ∉ escaping) (rest : List UInt8) :
    readInside (0x5C :: (escapeByte c ++ rest)) =
      (readInside (escapeByte c ++ rest)).map (Prod.map (0x5C :: ·) id) := by
  simp only [escaping, List.mem_cons, List.not_mem_nil, or_false, not_or] at hc
  obtain ⟨hb, hn, hr, hl, hf⟩ := hc
  have alone : escapeByte c = [c] := by simp [escapeByte, hl, hf]
  have stands : escapeFor? c = none := by simp [escapeFor?, hn, hr, hb, hq]
  simp [alone, readInside, stands]

/-- A backslash and a byte that makes an escape with it are read as something else, which is no
longer. -/
theorem exists_misread (hc : c ∈ escaping) :
    ∃ read : List UInt8, read.length ≤ 2 ∧ read ≠ [0x5C, c] ∧ ∀ rest,
      readInside (0x5C :: (escapeByte c ++ rest)) =
        (readInside rest).map (Prod.map (read ++ ·) id) := by
  have twice : ∀ d, d ≠ 0x22 → d ≠ 0x5C → ∀ rest, readInside (0x5C :: 0x5C :: d :: rest) =
      (readInside rest).map (Prod.map ([0x5C, d] ++ ·) id) := by
    intro d hq hb rest
    have escape : readInside (0x5C :: 0x5C :: d :: rest) =
      (readInside (d :: rest)).map (Prod.map (0x5C :: ·) id) := rfl
    rw [escape, readInside_plain hq hb, Option.map_map]
    rfl
  simp only [escaping, List.mem_cons, List.not_mem_nil, or_false] at hc
  rcases hc with rfl | rfl | rfl | rfl | rfl
  · exact ⟨[0x5C], by decide, by decide, fun _ => rfl⟩
  · exact ⟨[0x0A], by decide, by decide, fun _ => rfl⟩
  · exact ⟨[0x0D], by decide, by decide, fun _ => rfl⟩
  · exact ⟨[0x5C, 0x6E], by decide, by decide, twice _ (by decide) (by decide)⟩
  · exact ⟨[0x5C, 0x72], by decide, by decide, twice _ (by decide) (by decide)⟩

theorem map_read_eq_some {f : List UInt8 → List UInt8}
    {o : Option (List UInt8 × List UInt8)} :
    o.map (Prod.map f id) = some (w, rest) ↔ ∃ u, o = some (u, rest) ∧ f u = w := by
  simp [Option.map_eq_some_iff, Prod.map_apply]

/-! ## Whole values -/

/-- The value comes back, and nothing behind the closing quote is touched. -/
theorem readInside_escaped (free : 0x22 ∉ v) (keeps : KeepsBackslashes v) (rest : List UInt8) :
    readInside (v.flatMap escapeByte ++ 0x22 :: rest) = some (v, rest) := by
  induction v with
  | nil => exact readInside_quote rest
  | cons b v ih =>
      simp only [List.mem_cons, not_or] at free
      have later := ih free.2 keeps.2
      rw [List.flatMap_cons, List.append_assoc]
      by_cases hb : b = 0x5C
      · subst hb
        obtain ⟨c, hc, other⟩ := keeps.1 rfl
        obtain ⟨u, rfl⟩ := List.head?_eq_some_iff.mp hc
        simp only [List.mem_cons, not_or] at free
        rw [List.flatMap_cons, List.append_assoc] at later ⊢
        show readInside (0x5C :: (escapeByte c ++ _)) = _
        rw [readInside_backslash (Ne.symm free.2.1) other, later]
        rfl
      · rw [readInside_escapeByte (Ne.symm free.1) hb, later]
        rfl

/-- What is read has no more bytes than the value, and is the value only if that keeps its
backslashes: an escape leaves too few bytes behind, or another one. -/
theorem readInside_bound : (v : List UInt8) → 0x22 ∉ v → {w rest : List UInt8} →
    readInside (v.flatMap escapeByte ++ [0x22]) = some (w, rest) →
      w.length ≤ v.length ∧ (w = v → KeepsBackslashes v)
  | [], _, w, rest, h => by
      rw [List.flatMap_nil, List.nil_append, readInside_quote] at h
      cases h
      exact ⟨Nat.le_refl _, fun _ => trivial⟩
  | b :: v, free, w, rest, h => by
      simp only [List.mem_cons, not_or] at free
      rw [List.flatMap_cons, List.append_assoc] at h
      by_cases hb : b = 0x5C
      · subst hb
        cases v with
        | nil => cases h
        | cons c u =>
            simp only [List.mem_cons, not_or] at free
            rw [List.flatMap_cons, List.append_assoc] at h
            by_cases hc : c ∈ escaping
            · obtain ⟨read, short, differs, misread⟩ := exists_misread hc
              obtain ⟨x, hx, rfl⟩ := map_read_eq_some.mp ((misread _).symm.trans h)
              obtain ⟨le, -⟩ := readInside_bound u free.2.2 hx
              refine ⟨by simp only [List.length_append, List.length_cons]; omega, fun same => ?_⟩
              have lengths := congrArg List.length same
              simp only [List.length_append, List.length_cons] at lengths
              have two : read.length = [0x5C, c].length := by
                simp only [List.length_cons, List.length_nil]
                omega
              exact absurd (@List.append_inj_left _ _ _ [0x5C, c] _ same two) differs
            · obtain ⟨x, hx, rfl⟩ := map_read_eq_some.mp
                ((readInside_backslash (Ne.symm free.2.1) hc _).symm.trans h)
              rw [← List.append_assoc, ← List.flatMap_cons] at hx
              obtain ⟨le, keeps⟩ := readInside_bound (c :: u) (by simp [free]) hx
              refine ⟨Nat.succ_le_succ le, fun same => ?_⟩
              exact ⟨fun _ => ⟨c, rfl, hc⟩, keeps (List.tail_eq_of_cons_eq same)⟩
      · rw [readInside_escapeByte (Ne.symm free.1) hb, map_read_eq_some] at h
        obtain ⟨x, hx, rfl⟩ := h
        obtain ⟨le, keeps⟩ := readInside_bound v free.2 hx
        refine ⟨Nat.succ_le_succ le, fun same => ?_⟩
        exact ⟨fun backslash => absurd backslash hb, keeps (List.tail_eq_of_cons_eq same)⟩

theorem readLiteral_eq_some_iff (free : 0x22 ∉ v) :
    readLiteral (quotedBytes v) = some v ↔ KeepsBackslashes v := by
  have quoted : quotedBytes v = 0x22 :: (v.flatMap escapeByte ++ [0x22]) := rfl
  rw [quoted, readLiteral, if_pos rfl]
  constructor
  · intro h
    rcases read : readInside (v.flatMap escapeByte ++ [0x22]) with _ | ⟨w, _ | ⟨b, rest⟩⟩
    · simp [read] at h
    · simp only [read, Option.some.injEq] at h
      exact (readInside_bound v free read).2 h
    · simp [read] at h
  · intro keeps
    rw [readInside_escaped free keeps]

/-! ## The literal of a string -/

theorem render_string (t : Token) (children : List Node) :
    render (.named .stringLiteral t children) = .ok (quotedBytes t.value) := by
  have renders : Renders (.named .stringLiteral t children) (quotedBytes t.value) :=
    renders_of_rule rfl (by simp [quotedBytes, ascii]) fun _ _ => rfl
  rw [render, Outcome.settle_eq_ok_iff]
  exact Outcome.mapFault_eq_ok_iff.mpr (renders _ (Nat.lt_succ_self _))

/-- A string is written as a literal whatever its value, and the literal reads back to that value
exactly if the value keeps its backslashes. Among such values no two are written alike. -/
theorem literal_reads_back_iff {t : Token} {children : List Node} (free : 0x22 ∉ t.value) :
    (∃ out, render (.named .stringLiteral t children) = .ok out ∧
      (readLiteral out = some t.value ↔ KeepsBackslashes t.value)) ∧
    ∀ u more, 0x22 ∉ u.value → KeepsBackslashes t.value → KeepsBackslashes u.value →
      render (.named .stringLiteral t children) = render (.named .stringLiteral u more) →
        t.value = u.value := by
  refine ⟨⟨_, render_string t children, readLiteral_eq_some_iff free⟩, ?_⟩
  intro u more freeU keeps keepsU same
  rw [render_string, render_string] at same
  have back := (readLiteral_eq_some_iff free).mpr keeps
  rw [Except.ok.inj same, (readLiteral_eq_some_iff freeU).mpr keepsU] at back
  exact (Option.some.inj back).symm

theorem literal_reads_back_of_path :
    (∃ out, render (.named .stringLiteral ⟨.str, ascii "C:\\a\nb", 1, 1⟩ []) = .ok out ∧
        (readLiteral out = some (ascii "C:\\a\nb") ↔ KeepsBackslashes (ascii "C:\\a\nb"))) ∧
      0x22 ∉ ascii "C:\\a\nb" :=
  ⟨(literal_reads_back_iff (by decide)).1, by decide⟩

/-- A backslash at the end swallows the closing quote, and a backslash with an `n` after it is
written like a line feed. -/
theorem backslash_is_lost :
    (¬ ∀ t children, 0x22 ∉ t.value → ∃ out,
        render (.named .stringLiteral t children) = .ok out ∧ readLiteral out = some t.value) ∧
      ¬ ∀ t u children, 0x22 ∉ t.value → 0x22 ∉ u.value →
        render (.named .stringLiteral t children) = render (.named .stringLiteral u children) →
          t.value = u.value := by
  constructor
  · intro always
    obtain ⟨out, written, back⟩ := always ⟨.str, ascii "\\", 1, 1⟩ [] (by decide)
    rw [render_string] at written
    cases written
    exact absurd back (by decide)
  · intro always
    have same := always ⟨.str, ascii "\\n", 1, 1⟩ ⟨.str, ascii "\n", 1, 1⟩ [] (by decide) (by decide)
    rw [render_string, render_string] at same
    exact absurd (same rfl) (by decide)

end LittleLang.Decl
