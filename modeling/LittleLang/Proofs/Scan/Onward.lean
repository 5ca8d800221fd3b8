import LittleLang.Decl.Lemmas.Tokens
import LittleLang.Proofs.Scan.Routines

/-!
# Rules that lead on

A scan has no guard against rules that stay where they are. Rules that leave behind the byte that
triggers them need none: a scan has no more rounds than there are bytes ahead of it.
-/

namespace LittleLang

namespace Scanner

variable {s t : Scanner}

/-- Further on in the same bytes. Whatever loads bytes and counts lines keeps the bytes and leaves one
loaded, see `Reaches`. That the offset grows is up to the rule. -/
structure Beyond (t s : Scanner) : Prop where
  loaded : t.loaded = true
  content_eq : t.content = s.content
  offset_lt : s.offset < t.offset

theorem Beyond.passes (h : t.Beyond s) : t.Passes s := by
  refine ⟨h.loaded, ?_⟩
  have same := congrArg List.length h.content_eq
  have := h.offset_lt
  rw [length_content, length_content] at same
  omega

theorem Passes.beyond (h : t.Passes s) (moved : s.Reaches t) : t.Beyond s := by
  refine ⟨h.loaded, moved.content_eq, ?_⟩
  have same := moved.offset_add_length
  have := h.rest_lt
  omega

end Scanner

/-- Where its trigger is met, the rule leads on. -/
def BlankRule.LeadsOn (rule : BlankRule) : Prop :=
  ∀ s : Scanner, s.Meets rule.trigger → (rule.skip s).Beyond s

/-- Where its trigger is met, the rule leads on. -/
def TokenRule.LeadsOn {τ : Type} (rule : TokenRule τ) : Prop :=
  ∀ s : Scanner, s.Meets rule.trigger → (rule.read s).2.Beyond s

/-! ## Scans -/

namespace Lexicon

variable {τ : Type} {x : Lexicon τ} {s next last : Scanner} {ts : List τ} {rounds : Nat}

/-- Every rule leads on. -/
structure LeadsOn (x : Lexicon τ) : Prop where
  blank : x.blank.LeadsOn
  rules : ∀ rule ∈ x.rules, rule.LeadsOn

theorem LeadsOn.advances (hx : x.LeadsOn) : x.Advances where
  skip s loaded has mem := (hx.blank s ⟨loaded, has, mem⟩).passes
  read rule mem s loaded has trigger := (hx.rules rule mem s ⟨loaded, has, trigger⟩).passes

theorem Round.length_le_one (h : x.Round s ts next) : ts.length ≤ 1 := by
  cases h with
  | blank => exact Nat.zero_le 1
  | token => exact Nat.le_refl 1

/-- Each round yields one token at most. -/
theorem length_le_rounds (h : x.scanWithin rounds s = (.ok ts, last)) : ts.length ≤ rounds := by
  induction rounds generalizing s ts with
  | zero =>
      cases has : s.hasByte with
      | false =>
          rw [scanWithin_of_end has] at h
          cases h
          exact Nat.le_refl 0
      | true =>
          rw [scanWithin_zero has] at h
          cases h
  | succ rounds ih =>
      rcases x.round_cases s with has | stray | ⟨us, next, round⟩
      · rw [scanWithin_of_end has] at h
        cases h
        exact Nat.zero_le _
      · rw [stray.scanWithin_succ] at h
        cases h
      · rw [round.scanWithin_succ] at h
        rcases later : x.scanWithin rounds next with ⟨_ | vs, stop⟩
        · rw [later] at h
          cases h
        · rw [later] at h
          cases h
          have := ih later
          have := round.length_le_one
          rw [List.length_append]
          omega

theorem scanWithin_eq_scan (hx : x.LeadsOn) (enough : s.rest.length ≤ rounds) :
    x.scanWithin rounds s.advance = x.scan s := by
  have fewer := (Scanner.advance_follows s).rest_le
  exact scanWithin_eq hx.advances (Scanner.loaded_advance s) (Nat.le_trans fewer enough) fewer

end Lexicon

/-! ## Rules that load bytes -/

namespace BlankRule

/-- A rule that passes one byte, as those for spaces and for nothing do. -/
theorem advance_leadsOn (trigger : ByteClass) : LeadsOn ⟨trigger, Scanner.advance⟩ :=
  fun _ meets => (Scanner.advance_passes meets.loaded meets.hasByte).beyond (.advance .refl)

theorem whitespace_leadsOn : whitespace.LeadsOn := fun s meets =>
  (Decl.lexicon_advances.skip s meets.loaded meets.hasByte meets.contains).beyond
    (whitespace_reaches s)

end BlankRule

namespace Decl

theorem takeString_reaches (s : Scanner) : s.Reaches (takeString s).2 := by
  fun_induction takeString s with
  | case1 s h later ih =>
      refine Scanner.Reaches.trans ?_ ih
      split
      · exact .advance (.addLines 1 .refl)
      · exact .advance .refl
  | case2 s h => exact .refl

theorem readString_reaches (s : Scanner) : s.Reaches (readString s).2 := by
  have inside : s.Reaches (takeString s.advance).2 :=
    Scanner.Reaches.trans (.advance .refl) (takeString_reaches s.advance)
  simp only [readString]
  split
  · exact inside.advance
  · exact inside

theorem lexicon_onlyMoves : lexicon.OnlyMoves where
  skip s _ := BlankRule.whitespace_reaches s
  read rule mem s _ := by
    simp only [lexicon, List.mem_cons, List.not_mem_nil, or_false] at mem
    rcases mem with rfl | rfl | rfl | rfl
    · exact Scanner.takeWhile_reaches _ s
    · exact Scanner.takeWhile_reaches _ s
    · exact .advance .refl
    · exact readString_reaches s

theorem lexicon_leadsOn : lexicon.LeadsOn where
  blank := BlankRule.whitespace_leadsOn
  rules rule mem s meets :=
    (lexicon_advances.read rule mem s meets.loaded meets.hasByte meets.contains).beyond
      (lexicon_onlyMoves.read rule mem s meets)

end Decl

/-- If the rules lead on, a scan comes to an end from every scanner, after no more rounds than there
are bytes ahead and so with no more tokens. To lead on is to leave the trigger behind, in the same
bytes and with one of them loaded (`Scanner.Beyond`), where the last two hold of all that moves by the
scanner's own steps. The rules of the declaration language lead on, and so do the rules for blanks that
are at hand. -/
theorem scans_end_within_bytes :
    (∀ {τ : Type} (x : Lexicon τ), x.LeadsOn → ∀ s : Scanner,
      Outcome.Ends (x.scan s).1 ∧
        (∀ rounds, s.content.length - s.offset ≤ rounds → x.scanWithin rounds s.advance = x.scan s) ∧
        ∀ ts, (x.scan s).1 = .ok ts → ts.length ≤ s.content.length - s.offset) ∧
      Decl.lexicon.LeadsOn ∧
      ∀ rule ∈ [BlankRule.spaces, BlankRule.whitespace, BlankRule.none], rule.LeadsOn := by
  refine ⟨fun x hx s => ?_, Decl.lexicon_leadsOn, ?_⟩
  · have ahead : s.content.length - s.offset = s.rest.length := by
      rw [Scanner.length_content, Nat.add_sub_cancel_left]
    rw [ahead]
    refine ⟨Lexicon.scan_ends hx.advances s, fun rounds => Lexicon.scanWithin_eq_scan hx, ?_⟩
    intro ts read
    exact Lexicon.length_le_rounds (Prod.ext read rfl)
  · simp only [List.forall_mem_cons, List.not_mem_nil, false_implies, implies_true, and_true]
    exact ⟨BlankRule.advance_leadsOn _, BlankRule.whitespace_leadsOn, BlankRule.advance_leadsOn _⟩

/-- In `let "x` the string has no second quote. A scan behind the first letter comes to an end all the
same, in six rounds at most. -/
theorem scans_end_within_rest : ∃ s : Scanner,
    s = (Scanner.ofBytes (ascii "let \"x")).advance ∧ s.content.length - s.offset = 6 ∧
      Decl.lexicon.LeadsOn ∧ Outcome.Ends (Decl.lexicon.scan s).1 ∧
      Decl.lexicon.scanWithin 6 s.advance = Decl.lexicon.scan s ∧
      (Decl.lexicon.scan s).1 = .ok [⟨.word, ascii "et", 1, 2⟩, ⟨.str, ascii "x", 1, 5⟩] ∧ 2 ≤ 6 := by
  obtain ⟨ends, demo, -⟩ := scans_end_within_bytes
  obtain ⟨finished, rounds, few⟩ := ends Decl.lexicon demo (Scanner.ofBytes (ascii "let \"x")).advance
  have read : (Decl.lexicon.scan (Scanner.ofBytes (ascii "let \"x")).advance).1 =
      .ok [⟨.word, ascii "et", 1, 2⟩, ⟨.str, ascii "x", 1, 5⟩] :=
    Outcome.eq_ok_of_toOption (by decide +kernel)
  exact ⟨_, rfl, rfl, demo, finished, rounds 6 (Nat.le_refl 6), read, few _ read⟩

end LittleLang
