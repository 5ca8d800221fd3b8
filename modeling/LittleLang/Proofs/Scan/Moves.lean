import LittleLang.Scan.Lemmas.Progress
import LittleLang.Script.Scan

/-!
# Rules that only move the scanner

A rule has two ways to change a scanner: it loads the next byte or counts lines. Whatever rules do
with these, and wherever a scan of theirs begins, it ends at the end of the bytes or at a byte that
no rule is for.
-/

namespace LittleLang

namespace Scanner

/-- The loaded byte is one of the class. This is where a rule begins that the class triggers. -/
structure Meets (s : Scanner) (c : ByteClass) : Prop where
  loaded : s.loaded = true
  hasByte : s.hasByte = true
  contains : c.contains s.byte = true

/-- Loading bytes and counting lines, and nothing else, takes `s` to the other scanner. -/
inductive Reaches (s : Scanner) : Scanner → Prop
  | refl : Reaches s s
  | advance {t : Scanner} : Reaches s t → Reaches s t.advance
  | addLines {t : Scanner} (n : Nat) : Reaches s t → Reaches s (t.addLines n)

variable {s t u : Scanner}

theorem content_advance (s : Scanner) : s.advance.content = s.content := by
  rcases s with ⟨passed, rest, offset, offset_eq, loaded, line, lineStart⟩
  cases loaded with
  | false => rfl
  | true =>
      cases rest with
      | nil => rfl
      | cons b rest => simp [advance, content]

theorem offset_le_advance (s : Scanner) : s.offset ≤ s.advance.offset := by
  rcases s with ⟨passed, rest, offset, offset_eq, loaded, line, lineStart⟩
  cases loaded with
  | false => exact Nat.le_refl _
  | true =>
      cases rest with
      | nil => exact Nat.le_refl _
      | cons b rest => exact Nat.le_succ _

theorem loaded_advance (s : Scanner) : s.advance.loaded = true := (advance_follows s).loaded

theorem advance_of_end (loaded : s.loaded = true) (h : s.hasByte = false) : s.advance = s := by
  have none : s.rest = [] := by simpa [hasByte] using h
  rw [advance, if_pos loaded]
  split
  · rename_i more
    rw [none] at more
    cases more
  · rfl

theorem getElem?_content (loaded : s.loaded = true) (h : s.hasByte = true) :
    s.content[s.offset]? = some s.byte := by
  rcases s with ⟨passed, rest, offset, rfl, _, line, lineStart⟩
  subst loaded
  cases rest with
  | nil => cases h
  | cons b rest => simp [content, byte]

namespace Reaches

theorem trans (h : s.Reaches t) (h' : t.Reaches u) : s.Reaches u := by
  induction h' with
  | refl => exact h
  | advance _ ih => exact ih.advance
  | addLines n _ ih => exact ih.addLines n

theorem content_eq (h : s.Reaches t) : t.content = s.content := by
  induction h with
  | refl => rfl
  | advance _ ih => exact (content_advance _).trans ih
  | addLines n _ ih => exact ih

theorem offset_le (h : s.Reaches t) : s.offset ≤ t.offset := by
  induction h with
  | refl => exact Nat.le_refl _
  | advance _ ih => exact Nat.le_trans ih (offset_le_advance _)
  | addLines n _ ih => exact ih

theorem loaded (h : s.Reaches t) (loaded : s.loaded = true) : t.loaded = true := by
  induction h with
  | refl => exact loaded
  | advance _ _ => exact loaded_advance _
  | addLines n _ ih => exact ih

end Reaches

theorem takeWhile_reaches (c : ByteClass) (s : Scanner) : s.Reaches (s.takeWhile c).2 := by
  fun_induction takeWhile c s with
  | case1 s h later ih => exact Reaches.trans (.advance .refl) ih
  | case2 s h => exact .refl

end Scanner

theorem BlankRule.whitespace_reaches (s : Scanner) : s.Reaches (whitespace.skip s) := by
  show s.Reaches (if s.byte = 0x0A then (s.addLines 1).advance else s.advance)
  split
  · exact .advance (.addLines 1 .refl)
  · exact .advance .refl

namespace Lexicon

variable {τ : Type} {x : Lexicon τ} {s next last : Scanner} {ts : List τ}
  {o : Except LexFault (List τ)}

/-- The rules change the scanner by loading bytes and counting lines alone. -/
structure OnlyMoves (x : Lexicon τ) : Prop where
  skip : ∀ s : Scanner, s.Meets x.blank.trigger → s.Reaches (x.blank.skip s)
  read : ∀ rule ∈ x.rules, ∀ s : Scanner, s.Meets rule.trigger → s.Reaches (rule.read s).2

theorem Round.reaches (hx : x.OnlyMoves) (loaded : s.loaded = true) (h : x.Round s ts next) :
    s.Reaches next := by
  cases h with
  | blank has mem => exact hx.skip s ⟨loaded, has, mem⟩
  | token has _ found =>
      exact hx.read _ (mem_of_ruleFor? found) s ⟨loaded, has, contains_of_ruleFor? found⟩

/-- So does a scan, whether it comes to an end in the given rounds or not. -/
theorem scanWithin_reaches (hx : x.OnlyMoves) (rounds : Nat) (loaded : s.loaded = true) :
    s.Reaches (x.scanWithin rounds s).2 := by
  induction rounds generalizing s with
  | zero => exact .refl
  | succ rounds ih =>
      rcases x.round_cases s with has | stray | ⟨ts, next, round⟩
      · rw [scanWithin_of_end has]
        exact .refl
      · rw [stray.scanWithin_succ]
        exact .refl
      · rw [round.scanWithin_succ]
        have moved := round.reaches hx loaded
        exact moved.trans (ih (moved.loaded loaded))

theorem Returns.reaches (hx : x.OnlyMoves) (h : x.Returns s o last) : s.advance.Reaches last := by
  obtain ⟨rounds, run⟩ := h
  have moved := scanWithin_reaches hx rounds (Scanner.loaded_advance s)
  rw [run] at moved
  exact moved

end Lexicon

/-! ## Lexicons of steps -/

namespace Script

theorem repeat_reaches (n : Nat) (s : Scanner) : s.Reaches (Nat.repeat Scanner.advance n s) := by
  induction n with
  | zero => exact .refl
  | succ n ih => exact ih.advance

theorem Step.run_reaches (trigger : ByteClass) (s : Scanner) (step : Step) :
    s.Reaches (step.run trigger s).2 := by
  cases step with
  | advance times => exact repeat_reaches times s
  | addLines count => exact .addLines count .refl
  | push => exact .refl
  | lit bytes => exact .refl
  | take c => exact Scanner.takeWhile_reaches c s
  | takeTrigger => exact Scanner.takeWhile_reaches trigger s

theorem Step.runAll_reaches (trigger : ByteClass) (steps : List Step) (s : Scanner) :
    s.Reaches (Step.runAll trigger steps s).2 := by
  induction steps generalizing s with
  | nil => exact .refl
  | cons step steps ih => exact (step.run_reaches trigger s).trans (ih _)

theorem lexicon_onlyMoves {blank : BlankRule} (h : ∀ s : Scanner, s.Reaches (blank.skip s))
    (rules : List (ByteClass × List Step)) : (lexicon blank rules).OnlyMoves where
  skip s _ := h s
  read rule mem s _ := by
    obtain ⟨i, lt, rfl⟩ := List.mem_mapIdx.mp mem
    exact Step.runAll_reaches _ _ s

end Script

/-! ## Whole scans -/

namespace Lexicon

variable {τ : Type} {x : Lexicon τ} {s last : Scanner} {o : Except LexFault (List τ)}

theorem scan_of_end (x : Lexicon τ) (loaded : s.loaded = true) (h : s.hasByte = false) :
    x.scan s = (.ok [], s) := by
  rw [scan, Scanner.advance_of_end loaded h, scanWithin_of_end h]

/-- A scan keeps the bytes and goes forward only. With tokens it has come to the end of the bytes,
where every further scan finds nothing and changes nothing. With a fault it has come to a byte that
triggers no rule, and the fault names that byte and its place. -/
theorem returns_at_end_or_stray (hx : x.OnlyMoves) (h : x.Returns s o last) :
    last.content = s.content ∧ s.offset ≤ last.offset ∧
      (∀ ts, o = .ok ts → last.hasByte = false ∧
        ∀ {σ : Type} (y : Lexicon σ), y.scan last = (.ok [], last)) ∧
      ∀ b p, o = .error (.unexpectedByte b p) →
        last.hasByte = true ∧ b = last.byte ∧ last.content[p.offset]? = some b ∧
          p = last.position ∧ x.blank.trigger.contains b = false ∧
          ∀ rule ∈ x.rules, rule.trigger.contains b = false := by
  have moved := h.reaches hx
  have loaded := moved.loaded (Scanner.loaded_advance s)
  refine ⟨?_, ?_, ?_, ?_⟩
  · exact moved.content_eq.trans (Scanner.content_advance s)
  · exact Nat.le_trans (Scanner.offset_le_advance s) moved.offset_le
  · rintro ts rfl
    cases h.stops with
    | finish none => exact ⟨none, fun y => scan_of_end y loaded none⟩
  · rintro b p rfl
    cases h.stops with
    | stray stray =>
        have has := stray.hasByte
        exact ⟨has, rfl, Scanner.getElem?_content loaded has, rfl, stray.blank, stray.not_contains⟩

/-- A scan that begins at the semicolon where another has stopped goes on over the line end and
stops at the percent sign. -/
theorem returns_behind_semicolon :
    ∃ (x : Lexicon Script.Token) (s last : Scanner),
      x = Script.lexicon .whitespace [(.letters, [.push, .advance 1])] ∧
      s = (x.scan (.ofBytes (ascii "a;\nb%"))).2 ∧ s.position = ⟨1, 2, 1⟩ ∧ x.OnlyMoves ∧
      x.Returns s (.error (.unexpectedByte 0x25 ⟨2, 2, 4⟩)) last ∧ last.content = s.content ∧
      s.offset ≤ last.offset ∧ last.hasByte = true ∧ last.byte = 0x25 ∧
      last.content[4]? = some 0x25 ∧ last.position = ⟨2, 2, 4⟩ := by
  have moves := Script.lexicon_onlyMoves BlankRule.whitespace_reaches
    [(.letters, [.push, .advance 1])]
  have run := returns_of_scan (x := Script.lexicon .whitespace [(.letters, [.push, .advance 1])])
    (s := ((Script.lexicon .whitespace [(.letters, [.push, .advance 1])]).scan
      (.ofBytes (ascii "a;\nb%"))).2) (o := .error (.unexpectedByte 0x25 ⟨2, 2, 4⟩)) rfl
  obtain ⟨content, offset, -, stray⟩ := returns_at_end_or_stray moves run
  obtain ⟨has, byte, there, place, -⟩ := stray _ _ rfl
  exact ⟨_, _, _, rfl, rfl, rfl, moves, run, content, offset, has, byte.symm, there, place.symm⟩

end Lexicon

end LittleLang
