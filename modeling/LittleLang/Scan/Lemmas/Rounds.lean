import LittleLang.Scan.Lexicon

/-!
# Scans round by round

Each round of a scan uses one rule. What a round can do is said once here, and how a scan can end.
-/

namespace LittleLang.Lexicon

variable {τ : Type} {x : Lexicon τ} {s next last : Scanner} {ts : List τ} {rounds : Nat}
  {o : Except LexFault (List τ)}

/-- In one round a rule that the loaded byte triggers takes `s` to `next` and yields the tokens `ts`,
none if the byte is blank. -/
inductive Round (x : Lexicon τ) (s : Scanner) : List τ → Scanner → Prop
  | blank : s.hasByte = true → x.blank.trigger.contains s.byte = true →
      Round x s [] (x.blank.skip s)
  | token {rule} : s.hasByte = true → x.blank.trigger.contains s.byte = false →
      x.ruleFor? s.byte = some rule → Round x s [(rule.read s).1] (rule.read s).2

/-- A byte is loaded that triggers no rule. -/
structure Strays (x : Lexicon τ) (s : Scanner) : Prop where
  hasByte : s.hasByte = true
  blank : x.blank.trigger.contains s.byte = false
  rule : x.ruleFor? s.byte = none

theorem Strays.not_contains (h : x.Strays s) :
    ∀ rule ∈ x.rules, rule.trigger.contains s.byte = false := by
  simpa [ruleFor?] using h.rule

theorem Round.hasByte (h : x.Round s ts next) : s.hasByte = true := by
  cases h with
  | blank has _ => exact has
  | token has _ _ => exact has

theorem round_cases (x : Lexicon τ) (s : Scanner) :
    s.hasByte = false ∨ x.Strays s ∨ ∃ ts next, x.Round s ts next := by
  cases has : s.hasByte with
  | false => exact .inl rfl
  | true =>
      cases blank : x.blank.trigger.contains s.byte with
      | true => exact .inr (.inr ⟨_, _, .blank has blank⟩)
      | false =>
          cases found : x.ruleFor? s.byte with
          | none => exact .inr (.inl ⟨has, blank, found⟩)
          | some rule => exact .inr (.inr ⟨_, _, .token has blank found⟩)

theorem scanWithin_of_end (h : s.hasByte = false) : x.scanWithin rounds s = (.ok [], s) := by
  cases rounds <;> simp [scanWithin, h]

theorem scanWithin_zero (h : s.hasByte = true) : x.scanWithin 0 s = (.error .endless, s) := by
  simp [scanWithin, h]

theorem scanWithin_of_blank (has : s.hasByte = true)
    (mem : x.blank.trigger.contains s.byte = true) :
    x.scanWithin (rounds + 1) s = x.scanWithin rounds (x.blank.skip s) := by
  rw [scanWithin, if_pos has, if_pos mem]

theorem scanWithin_of_token {rule : TokenRule τ} (has : s.hasByte = true)
    (blank : x.blank.trigger.contains s.byte = false) (found : x.ruleFor? s.byte = some rule) :
    x.scanWithin (rounds + 1) s =
      (((rule.read s).1 :: ·) <$> (x.scanWithin rounds (rule.read s).2).1,
        (x.scanWithin rounds (rule.read s).2).2) := by
  rw [scanWithin, if_pos has, if_neg (by simp [blank]), found]

theorem Strays.scanWithin_succ (h : x.Strays s) : x.scanWithin (rounds + 1) s =
    (Outcome.fault (.unexpectedByte s.byte s.position), s) := by
  rw [scanWithin, if_pos h.hasByte, if_neg (by simp [h.blank]), h.rule]

theorem Round.scanWithin_succ (h : x.Round s ts next) : x.scanWithin (rounds + 1) s =
    ((ts ++ ·) <$> (x.scanWithin rounds next).1, (x.scanWithin rounds next).2) := by
  cases h with
  | blank has mem =>
      rw [scanWithin_of_blank has mem]
      show _ = (id <$> (x.scanWithin rounds (x.blank.skip s)).1, _)
      rw [id_map]
  | token has blank found => exact scanWithin_of_token has blank found

/-! ## How a scan ends -/

/-- A scan ends where no byte is left, or at a stray byte, which is reported with its place. -/
inductive Stops (x : Lexicon τ) : Except LexFault (List τ) → Scanner → Prop
  | finish {us : List τ} {s : Scanner} : s.hasByte = false → Stops x (.ok us) s
  | stray {s : Scanner} : x.Strays s → Stops x (.error (.unexpectedByte s.byte s.position)) s

/-- The scan of `s` comes to an end, after some number of rounds, with the outcome `o` and the
scanner `last`. Rules that do not pass a byte in every round can need more rounds than `scan` has. -/
def Returns (x : Lexicon τ) (s : Scanner) (o : Except LexFault (List τ)) (last : Scanner) : Prop :=
  ∃ rounds, x.scanWithin rounds s.advance = (o.mapError .raised, last)

theorem returns_of_scan (h : x.scan s = (o.mapError .raised, last)) : x.Returns s o last := ⟨_, h⟩

theorem stops_of_scanWithin (h : x.scanWithin rounds s = (o.mapError .raised, last)) :
    x.Stops o last := by
  induction rounds generalizing s o with
  | zero =>
      cases has : s.hasByte with
      | false =>
          rw [scanWithin_of_end has] at h
          cases o <;> cases h
          exact .finish has
      | true =>
          rw [scanWithin_zero has] at h
          cases o <;> cases h
  | succ rounds ih =>
      rcases x.round_cases s with has | stray | ⟨ts, next, round⟩
      · rw [scanWithin_of_end has] at h
        cases o <;> cases h
        exact .finish has
      · rw [stray.scanWithin_succ] at h
        cases o <;> cases h
        exact .stray stray
      · rw [round.scanWithin_succ] at h
        rcases later : x.scanWithin rounds next with ⟨(fault | _) | us, stop⟩
        · rw [later] at h
          cases o <;> cases h
          exact ih later
        · rw [later] at h
          cases o <;> cases h
        · rw [later] at h
          cases o <;> cases h
          cases ih (o := .ok us) later with
          | finish has => exact .finish has

theorem Returns.stops (h : x.Returns s o last) : x.Stops o last := by
  obtain ⟨rounds, run⟩ := h
  exact stops_of_scanWithin run

end LittleLang.Lexicon
