import LittleLang.Scan.Lemmas.Rounds
import LittleLang.Script.Scan

/-!
# Only the first rule for a byte counts

A scan looks for the first rule that a byte triggers, and for none if the byte is blank. Two lexicons
that agree there go through the same rounds, so the order of their rules is seen only where triggers
overlap.
-/

namespace LittleLang.Lexicon

variable {τ : Type} {x y : Lexicon τ} {s next : Scanner} {ts : List τ}

/-- The lexicons have the same rule for blanks, and for every other byte the same first rule. -/
structure SameFirst (x y : Lexicon τ) : Prop where
  blank : x.blank = y.blank
  ruleFor? : ∀ b, x.blank.trigger.contains b = false → x.ruleFor? b = y.ruleFor? b

/-- From every scanner the lexicons come to the same outcome and leave the same scanner, also where a
scan needs more rounds than there are bytes. -/
def ScanAlike (x y : Lexicon τ) : Prop :=
  ∀ s : Scanner, x.scan s = y.scan s ∧ ∀ o last, x.Returns s o last ↔ y.Returns s o last

namespace SameFirst

theorem strays (h : x.SameFirst y) (stray : x.Strays s) : y.Strays s where
  hasByte := stray.hasByte
  blank := h.blank ▸ stray.blank
  rule := (h.ruleFor? s.byte stray.blank).symm.trans stray.rule

theorem round (h : x.SameFirst y) (round : x.Round s ts next) : y.Round s ts next := by
  cases round with
  | blank has mem =>
      rw [h.blank] at mem ⊢
      exact .blank has mem
  | token has blank found =>
      rw [h.ruleFor? s.byte blank] at found
      exact .token has (h.blank ▸ blank) found

theorem scanWithin_eq (h : x.SameFirst y) (rounds : Nat) (s : Scanner) :
    x.scanWithin rounds s = y.scanWithin rounds s := by
  induction rounds generalizing s with
  | zero => rfl
  | succ rounds ih =>
      rcases x.round_cases s with has | stray | ⟨ts, next, round⟩
      · rw [scanWithin_of_end has, scanWithin_of_end has]
      · rw [stray.scanWithin_succ, (h.strays stray).scanWithin_succ]
      · rw [round.scanWithin_succ, (h.round round).scanWithin_succ, ih next]

theorem scanAlike (h : x.SameFirst y) : x.ScanAlike y := by
  intro s
  refine ⟨h.scanWithin_eq _ _, fun o last => ?_⟩
  simp only [Returns, h.scanWithin_eq]

end SameFirst

/-! ## Rules that change places and rules that are left out -/

variable (blank : BlankRule) (before after : List (TokenRule τ)) {first second rule : TokenRule τ}

theorem sameFirst_swap
    (apart : ∀ b, first.trigger.contains b = true → second.trigger.contains b = false) :
    SameFirst ⟨blank, before ++ first :: second :: after⟩
      ⟨blank, before ++ second :: first :: after⟩ where
  blank := rfl
  ruleFor? b _ := by
    simp only [Lexicon.ruleFor?, List.find?_append, List.find?_cons]
    cases hfirst : first.trigger.contains b with
    | false => rfl
    | true => rw [apart b hfirst]

theorem sameFirst_drop
    (covered : ∀ b, rule.trigger.contains b = true →
      blank.trigger.contains b = true ∨ ∃ earlier ∈ before, earlier.trigger.contains b = true) :
    SameFirst ⟨blank, before ++ rule :: after⟩ ⟨blank, before ++ after⟩ where
  blank := rfl
  ruleFor? b (notBlank : blank.trigger.contains b = false) := by
    simp only [Lexicon.ruleFor?, List.find?_append, List.find?_cons]
    cases hrule : rule.trigger.contains b with
    | false => rfl
    | true =>
        -- The byte is not blank, so an earlier rule is found before this one is asked.
        obtain ⟨earlier, mem, triggered⟩ := (covered b hrule).resolve_left (by simp [notBlank])
        have found : (before.find? (·.trigger.contains b)).isSome = true :=
          List.find?_isSome.mpr ⟨earlier, mem, triggered⟩
        rw [Option.or_of_isSome found, Option.or_of_isSome found]

/-- Only the first rule for a byte counts, and none for a blank byte. Neighbouring rules that no byte
triggers both may change places, and a rule may be left out if each of its bytes is blank or triggers
an earlier rule. -/
theorem first_rules_decide (blank : BlankRule) :
    (∀ rules others : List (TokenRule τ),
      (∀ b, blank.trigger.contains b = false →
        rules.find? (·.trigger.contains b) = others.find? (·.trigger.contains b)) →
      ScanAlike ⟨blank, rules⟩ ⟨blank, others⟩) ∧
    (∀ (before after : List (TokenRule τ)) (first second : TokenRule τ),
      (∀ b, first.trigger.contains b = true → second.trigger.contains b = false) →
      ScanAlike ⟨blank, before ++ first :: second :: after⟩
        ⟨blank, before ++ second :: first :: after⟩) ∧
    ∀ (before after : List (TokenRule τ)) (rule : TokenRule τ),
      (∀ b, rule.trigger.contains b = true →
        blank.trigger.contains b = true ∨ ∃ earlier ∈ before, earlier.trigger.contains b = true) →
      ScanAlike ⟨blank, before ++ rule :: after⟩ ⟨blank, before ++ after⟩ := by
  refine ⟨fun rules others same => ?_, fun before after first second apart => ?_,
    fun before after rule covered => ?_⟩
  · exact SameFirst.scanAlike ⟨rfl, same⟩
  · exact (sameFirst_swap blank before after apart).scanAlike
  · exact (sameFirst_drop blank before after covered).scanAlike

/-- Quotes and words have no byte in common. A third rule for quotes and spaces is never used: quotes
trigger an earlier rule, and spaces are blank. -/
theorem first_rules_decide_quotes :
    let mark := Script.tokenRule 0 .quote [.push, .advance 1]
    let word := Script.tokenRule 1 .letters [.push, .advance 1]
    let either := Script.tokenRule 2 (.ofList (ascii "\" ")) [.push, .advance 1]
    (∀ b, mark.trigger.contains b = true → word.trigger.contains b = false) ∧
      (∀ b, either.trigger.contains b = true → BlankRule.spaces.trigger.contains b = true ∨
        ∃ earlier ∈ [word, mark], earlier.trigger.contains b = true) ∧
      ScanAlike ⟨.spaces, [mark, word, either]⟩ ⟨.spaces, [word, mark, either]⟩ ∧
      ScanAlike ⟨.spaces, [word, mark, either]⟩ ⟨.spaces, [word, mark]⟩ ∧
      ScanAlike ⟨.spaces, [mark, word, either]⟩ ⟨.spaces, [word, mark]⟩ ∧
      (scan ⟨.spaces, [mark, word, either]⟩ (.ofBytes (ascii "a \""))).1 =
        .ok [⟨1, ascii "a", ⟨1, 1, 0⟩⟩, ⟨0, ascii "\"", ⟨1, 3, 2⟩⟩] := by
  intro mark word either
  have apart : ∀ b, mark.trigger.contains b = true → word.trigger.contains b = false := by
    intro b h
    cases ByteClass.contains_quote.mp h
    rfl
  have covered : ∀ b, either.trigger.contains b = true →
      BlankRule.spaces.trigger.contains b = true ∨
        ∃ earlier ∈ [word, mark], earlier.trigger.contains b = true := by
    intro b h
    have either_eq : b = 0x22 ∨ b = 0x20 := by
      simpa [either, Script.tokenRule, ByteClass.ofList, ascii] using h
    rcases either_eq with rfl | rfl
    · exact .inr ⟨mark, by simp, rfl⟩
    · exact .inl rfl
  have swapped := sameFirst_swap .spaces [] [either] apart
  have dropped := sameFirst_drop .spaces [word, mark] [] covered
  obtain ⟨agree, swap, drop⟩ := first_rules_decide (τ := Script.Token) .spaces
  refine ⟨apart, covered, swap [] [either] mark word apart, drop [word, mark] [] either covered,
    agree _ _ fun b notBlank => ?_, rfl⟩
  exact (swapped.ruleFor? b notBlank).trans (dropped.ruleFor? b notBlank)

end LittleLang.Lexicon
