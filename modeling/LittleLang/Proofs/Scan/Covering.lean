import LittleLang.Proofs.Scan.Between
import LittleLang.Scan.Lemmas.Rounds

/-!
# Lexicons of runs

A lexicon may have a class of bytes for each rule, and the rule takes the longest run of its class.
Such a lexicon covers the texts whose bytes all lie in a class or are blank, and stops at the first
byte that does not, wherever runs of overlapping classes begin and end.
-/

namespace LittleLang

/-- Each use of the rule passes exactly one byte. Lines may be counted on the way. -/
def BlankRule.SkipsOne (blank : BlankRule) : Prop :=
  ∀ (s : Scanner) (b : UInt8) (passed rest : List UInt8), s.Between passed (b :: rest) →
    blank.trigger.contains b = true → (blank.skip s).Between (b :: passed) rest

theorem BlankRule.skipsOne_whitespace : whitespace.SkipsOne := by
  intro s b passed rest h _
  show (if s.byte = 0x0A then (s.addLines 1).advance else s.advance).Between (b :: passed) rest
  split
  · exact (h.addLines 1).advance
  · exact h.advance

namespace Lexicon

/-- The lexicon whose rules take the longest runs of the classes. -/
def ofClasses (blank : BlankRule) (classes : List ByteClass) : Lexicon (List UInt8) :=
  ⟨blank, classes.map fun c => ⟨c, Scanner.takeWhile c⟩⟩

/-- The byte is blank or lies in one of the classes. -/
def Known (blank : ByteClass) (classes : List ByteClass) (b : UInt8) : Prop :=
  blank.contains b = true ∨ ∃ c ∈ classes, c.contains b = true

/-- `Cut blank classes text ts`: the text consists of the tokens, in their order, and blank bytes. A
token has bytes of the first class that contains its first byte, as far as they go. -/
inductive Cut (blank : ByteClass) (classes : List ByteClass) :
    List UInt8 → List (List UInt8) → Prop
  | done : Cut blank classes [] []
  | blank {b rest ts} : blank.contains b = true → Cut blank classes rest ts →
      Cut blank classes (b :: rest) ts
  | run {b bytes rest c ts} : classes.find? (·.contains b) = some c →
      (∀ a ∈ b :: bytes, c.contains a = true) → (∀ a ∈ rest.head?, c.contains a = false) →
      Cut blank classes rest ts → Cut blank classes (b :: bytes ++ rest) ((b :: bytes) :: ts)

variable {blank : BlankRule} {classes : List ByteClass} {passed rest bytes : List UInt8} {b : UInt8}
  {c : ByteClass} {ts : List (List UInt8)} {s : Scanner} {rounds before : Nat}

theorem Cut.known {blank : ByteClass} {text : List UInt8} (h : Cut blank classes text ts) :
    ∀ b ∈ text, Known blank classes b := by
  induction h with
  | done => simp
  | blank hb later ih => exact List.forall_mem_cons.mpr ⟨.inl hb, ih⟩
  | @run b bytes rest c ts found inside stop later ih =>
      intro a mem
      rcases List.mem_append.mp mem with mem | mem
      · exact .inr ⟨c, List.mem_of_find?_eq_some found, inside a mem⟩
      · exact ih a mem

theorem Cut.ne_nil {blank : ByteClass} {text : List UInt8} (h : Cut blank classes text ts) :
    ∀ t ∈ ts, t ≠ [] := by
  induction h with
  | done => simp
  | blank hb later ih => exact ih
  | run found inside stop later ih => exact List.forall_mem_cons.mpr ⟨List.cons_ne_nil _ _, ih⟩

theorem Cut.flatten_eq {blank : ByteClass} {text : List UInt8} (h : Cut blank classes text ts)
    (apart : ∀ c ∈ classes, ∀ b, c.contains b = true → blank.contains b = false) :
    ts.flatten = text.filter (!blank.contains ·) := by
  induction h with
  | done => rfl
  | blank hb later ih => simpa [hb] using ih
  | @run b bytes rest c ts found inside stop later ih =>
      have kept : (b :: bytes).filter (!blank.contains ·) = b :: bytes := by
        refine List.filter_eq_self.mpr fun a mem => ?_
        simp [apart c (List.mem_of_find?_eq_some found) a (inside a mem)]
      rw [List.filter_append, kept, List.flatten_cons, ih]

/-! ## One step of the scan -/

theorem ruleFor?_ofClasses (b : UInt8) : (ofClasses blank classes).ruleFor? b =
    (classes.find? (·.contains b)).map fun c => ⟨c, Scanner.takeWhile c⟩ := by
  simp only [ruleFor?, ofClasses, List.find?_map]
  rfl

theorem scanWithin_skip (h : s.Between passed (b :: rest)) (hb : blank.trigger.contains b = true) :
    (ofClasses blank classes).scanWithin (rounds + 1) s =
      (ofClasses blank classes).scanWithin rounds (blank.skip s) := by
  rw [← h.byte_cons] at hb
  exact scanWithin_of_blank h.hasByte_cons hb

theorem scanWithin_run (h : s.Between passed (b :: rest)) (hb : blank.trigger.contains b = false)
    (found : classes.find? (·.contains b) = some c) :
    ((ofClasses blank classes).scanWithin (rounds + 1) s).1 = ((s.takeWhile c).1 :: ·) <$>
      ((ofClasses blank classes).scanWithin rounds (s.takeWhile c).2).1 := by
  have rule : (ofClasses blank classes).ruleFor? b = some ⟨c, Scanner.takeWhile c⟩ := by
    rw [ruleFor?_ofClasses, found]
    rfl
  rw [← h.byte_cons] at hb rule
  exact congrArg Prod.fst (scanWithin_of_token h.hasByte_cons hb rule)

theorem scanWithin_stray (h : s.Between passed (b :: rest)) (hb : blank.trigger.contains b = false)
    (found : classes.find? (·.contains b) = none) :
    ((ofClasses blank classes).scanWithin (rounds + 1) s).1 =
      Outcome.fault (.unexpectedByte b s.position) := by
  have rule : (ofClasses blank classes).ruleFor? b = none := by
    rw [ruleFor?_ofClasses, found]
    rfl
  rw [← h.byte_cons] at hb rule ⊢
  exact congrArg Prod.fst (Strays.scanWithin_succ ⟨h.hasByte_cons, hb, rule⟩)

/-! ## Whole texts -/

/-- The outcome is a report of the first byte of `text` that is not known, where `before` bytes come
before the text. -/
def ReportsFirst (blank : ByteClass) (classes : List ByteClass) (before : Nat) (text : List UInt8)
    (o : Outcome LexFault (List (List UInt8))) : Prop :=
  ∃ front b later position, text = front ++ b :: later ∧ (∀ a ∈ front, Known blank classes a) ∧
    ¬ Known blank classes b ∧ o = Outcome.fault (.unexpectedByte b position) ∧
    position.offset = before + front.length

theorem ReportsFirst.behind {blank : ByteClass} {o : Outcome LexFault (List (List UInt8))}
    (h : ReportsFirst blank classes (before + bytes.length) rest o)
    (known : ∀ a ∈ bytes, Known blank classes a) (f : List (List UInt8) → List (List UInt8)) :
    ReportsFirst blank classes before (bytes ++ rest) (f <$> o) := by
  obtain ⟨front, b, later, position, rfl, clear, strange, rfl, offset⟩ := h
  refine ⟨bytes ++ front, b, later, position, by simp, ?_, strange, rfl, ?_⟩
  · exact fun a mem => (List.mem_append.mp mem).elim (known a) (clear a)
  · rw [offset, List.length_append, Nat.add_assoc]

/-- A run of a class, from a byte in it as far as the class goes. -/
theorem exists_run (hb : c.contains b = true) (rest : List UInt8) :
    ∃ bytes later, b :: rest = b :: bytes ++ later ∧ (b :: rest).takeWhile c.contains = b :: bytes ∧
      (b :: rest).dropWhile c.contains = later ∧ (∀ a ∈ b :: bytes, c.contains a = true) ∧
      ∀ a ∈ later.head?, c.contains a = false := by
  have taken : (b :: rest).takeWhile c.contains = b :: rest.takeWhile c.contains := by simp [hb]
  have dropped : (b :: rest).dropWhile c.contains = rest.dropWhile c.contains := by simp [hb]
  refine ⟨rest.takeWhile c.contains, rest.dropWhile c.contains, ?_, taken, dropped, ?_, ?_⟩
  · rw [List.cons_append, List.takeWhile_append_dropWhile]
  · rw [← taken]
    exact List.all_eq_true.mp List.all_takeWhile
  · intro a mem
    have stop := List.head?_dropWhile_not c.contains rest
    rw [Option.mem_def.mp mem] at stop
    simpa using stop

theorem scanWithin_cut_or_reports (one : blank.SkipsOne) (h : s.Between passed rest)
    (enough : rest.length ≤ rounds) :
    (∃ ts, ((ofClasses blank classes).scanWithin rounds s).1 = .ok ts ∧
        Cut blank.trigger classes rest ts) ∨
      ReportsFirst blank.trigger classes passed.length rest
        ((ofClasses blank classes).scanWithin rounds s).1 := by
  induction rounds generalizing s passed rest with
  | zero =>
      cases List.eq_nil_of_length_eq_zero (Nat.le_zero.mp enough)
      exact .inl ⟨[], by rw [scanWithin_of_end h.hasByte_nil], .done⟩
  | succ rounds ih =>
      cases rest with
      | nil => exact .inl ⟨[], by rw [scanWithin_of_end h.hasByte_nil], .done⟩
      | cons b rest =>
          cases hb : blank.trigger.contains b with
          | true =>
              rw [scanWithin_skip h hb]
              rcases ih (one s b passed rest h hb) (Nat.le_of_succ_le_succ enough) with
                ⟨ts, read, cut⟩ | reports
              · exact .inl ⟨ts, read, .blank hb cut⟩
              · rw [← id_map ((ofClasses blank classes).scanWithin rounds (blank.skip s)).1]
                refine .inr (@ReportsFirst.behind _ rest [b] _ _ _ reports ?_ id)
                simpa using .inl hb
          | false =>
              cases found : classes.find? (·.contains b) with
              | none =>
                  refine .inr ⟨[], b, rest, s.position, rfl, by simp, ?_, scanWithin_stray h hb found,
                    h.offset_position⟩
                  simpa [Known, hb] using found
              | some c =>
                  have mem : c.contains b = true := by simpa using List.find?_some found
                  obtain ⟨bytes, later, whole, taken, dropped, inside, stop⟩ := exists_run mem rest
                  obtain ⟨first, further⟩ := h.takeWhile c
                  rw [taken] at first
                  rw [taken, dropped] at further
                  have shorter : later.length ≤ rounds := by
                    rw [whole] at enough
                    simp only [List.length_append, List.length_cons] at enough
                    omega
                  rw [scanWithin_run h hb found, first, whole]
                  rcases ih further shorter with ⟨ts, read, cut⟩ | reports
                  · exact .inl ⟨(b :: bytes) :: ts, by rw [read]; rfl, .run found inside stop cut⟩
                  · refine .inr (ReportsFirst.behind ?_ ?_ _)
                    · rwa [List.length_append, List.length_reverse, Nat.add_comm] at reports
                    · exact fun a ha => .inr ⟨c, List.mem_of_find?_eq_some found, inside a ha⟩

/-- A text has tokens exactly if each byte of it is known. They are the runs of the text, the blank
bytes left out, each as long as the first class of its first byte goes. Otherwise the first byte that
is not known is reported, with its offset. -/
theorem covers_known_texts (one : blank.SkipsOne)
    (apart : ∀ c ∈ classes, ∀ b, c.contains b = true → blank.trigger.contains b = false)
    (text : List UInt8) :
    ((∃ ts, (ofClasses blank classes).tokens text = .ok ts) ↔
      ∀ b ∈ text, Known blank.trigger classes b) ∧
    (∀ ts, (ofClasses blank classes).tokens text = .ok ts →
      (∀ t ∈ ts, t ≠ []) ∧ ts.flatten = text.filter (!blank.trigger.contains ·) ∧
        Cut blank.trigger classes text ts) ∧
    ((¬ ∀ b ∈ text, Known blank.trigger classes b) →
      ∃ front b later position, text = front ++ b :: later ∧
        (∀ a ∈ front, Known blank.trigger classes a) ∧ ¬ Known blank.trigger classes b ∧
        (ofClasses blank classes).tokens text = .error (.raised (.unexpectedByte b position)) ∧
        position.offset = front.length) := by
  have scanned : (∃ ts, (ofClasses blank classes).tokens text = .ok ts ∧
      Cut blank.trigger classes text ts) ∨
        ReportsFirst blank.trigger classes 0 text ((ofClasses blank classes).tokens text) :=
    scanWithin_cut_or_reports one (Scanner.between_ofBytes text) (Nat.le_refl _)
  rcases scanned with ⟨ts, read, cut⟩ |
    ⟨front, b, later, position, rfl, clear, strange, stuck, offset⟩
  · refine ⟨iff_of_true ⟨ts, read⟩ cut.known, fun us same => ?_, fun h => absurd cut.known h⟩
    rw [read] at same
    cases same
    exact ⟨cut.ne_nil, cut.flatten_eq apart, cut⟩
  · have unknown : ¬ ∀ a ∈ front ++ b :: later, Known blank.trigger classes a :=
      fun known => strange (known b (by simp))
    refine ⟨iff_of_false ?_ unknown, fun ts read => ?_, fun _ => ?_⟩
    · rintro ⟨ts, read⟩
      rw [stuck] at read
      cases read
    · rw [stuck] at read
      cases read
    · exact ⟨front, b, later, position, rfl, clear, strange, stuck, by simpa using offset⟩

/-- Runs of letters, and of letters and digits, which overlap: a digit ends a run of letters, and a
run that begins with a digit goes on over letters. A mark further down is reported. -/
theorem covers_overlapping_runs :
    BlankRule.whitespace.SkipsOne ∧
      (∀ c ∈ [ByteClass.letters, ByteClass.alphanumeric], ∀ b, c.contains b = true →
        BlankRule.whitespace.trigger.contains b = false) ∧
      (ofClasses .whitespace [.letters, .alphanumeric]).tokens (ascii "ab1c\n2d") =
        .ok [ascii "ab", ascii "1c", ascii "2d"] ∧
      Cut BlankRule.whitespace.trigger [.letters, .alphanumeric] (ascii "ab1c\n2d")
        [ascii "ab", ascii "1c", ascii "2d"] ∧
      ∃ front b later position, ascii "ab\n%1%" = front ++ b :: later ∧
        ¬ Known BlankRule.whitespace.trigger [.letters, .alphanumeric] b ∧
        (ofClasses .whitespace [.letters, .alphanumeric]).tokens (ascii "ab\n%1%") =
          .error (.raised (.unexpectedByte b position)) ∧ position.offset = front.length := by
  have apart : ∀ c ∈ [ByteClass.letters, ByteClass.alphanumeric], ∀ b, c.contains b = true →
      BlankRule.whitespace.trigger.contains b = false := by
    intro c mem b hb
    refine Bool.eq_false_iff.mpr fun blank => ?_
    simp only [List.mem_cons, List.not_mem_nil, or_false] at mem
    rcases ByteClass.contains_blanks.mp blank with rfl | rfl | rfl | rfl <;>
      rcases mem with rfl | rfl <;> cases hb
  have read : (ofClasses .whitespace [.letters, .alphanumeric]).tokens (ascii "ab1c\n2d") =
      .ok [ascii "ab", ascii "1c", ascii "2d"] :=
    Outcome.eq_ok_of_toOption (by decide +kernel)
  have strange : ¬ ∀ b ∈ ascii "ab\n%1%",
      Known BlankRule.whitespace.trigger [.letters, .alphanumeric] b := by
    intro known
    have mark := known 0x25 (by decide)
    simp [Known, BlankRule.whitespace, ByteClass.contains_blanks, ByteClass.contains_letters,
      ByteClass.contains_alphanumeric, ByteClass.contains_digits] at mark
  obtain ⟨-, cuts, -⟩ :=
    covers_known_texts BlankRule.skipsOne_whitespace apart (ascii "ab1c\n2d")
  obtain ⟨-, -, reports⟩ :=
    covers_known_texts BlankRule.skipsOne_whitespace apart (ascii "ab\n%1%")
  obtain ⟨-, -, cut⟩ := cuts _ read
  obtain ⟨front, b, later, position, whole, -, unknown, stuck, offset⟩ := reports strange
  exact ⟨BlankRule.skipsOne_whitespace, apart, read, cut, front, b, later, position, whole, unknown,
    stuck, offset⟩

end Lexicon

end LittleLang
