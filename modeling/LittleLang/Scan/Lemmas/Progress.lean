import LittleLang.Scan.Lemmas.Rounds

/-!
Lexicons whose rules pass at least one byte come to an end on every text.
-/
namespace LittleLang

namespace Scanner

/-- A later state of a scanner whose first byte has been loaded: no byte has come back. -/
structure Follows (later s : Scanner) : Prop where
  loaded : later.loaded = true
  rest_le : later.rest.length ≤ s.rest.length

/-- A later state of a scanner that has passed at least one byte. -/
structure Passes (later s : Scanner) : Prop where
  loaded : later.loaded = true
  rest_lt : later.rest.length < s.rest.length

theorem Follows.rfl {s : Scanner} (h : s.loaded = true) : s.Follows s := ⟨h, Nat.le_refl _⟩

theorem Passes.follows {s t : Scanner} (h : t.Passes s) : t.Follows s :=
  ⟨h.loaded, Nat.le_of_lt h.rest_lt⟩

theorem Follows.trans {s t u : Scanner} (h : u.Follows t) (h' : t.Follows s) : u.Follows s :=
  ⟨h.loaded, Nat.le_trans h.rest_le h'.rest_le⟩

theorem Follows.trans_passes {s t u : Scanner} (h : u.Follows t) (h' : t.Passes s) : u.Passes s :=
  ⟨h.loaded, Nat.lt_of_le_of_lt h.rest_le h'.rest_lt⟩

theorem advance_follows (s : Scanner) : s.advance.Follows s := by
  rcases s with ⟨passed, rest, offset, offset_eq, loaded, line, lineStart⟩
  cases loaded with
  | false => exact ⟨rfl, Nat.le_refl _⟩
  | true =>
    cases rest with
    | nil => exact ⟨rfl, Nat.le_refl _⟩
    | cons b rest => exact ⟨rfl, Nat.le_succ _⟩

theorem advance_passes {s : Scanner} (loaded : s.loaded = true) (h : s.hasByte = true) :
    s.advance.Passes s := by
  rcases s with ⟨passed, rest, offset, offset_eq, _, line, lineStart⟩
  subst loaded
  cases rest with
  | nil => simp [hasByte] at h
  | cons b rest => exact ⟨rfl, Nat.lt_succ_self _⟩

theorem addLines_follows (n : Nat) {s : Scanner} (loaded : s.loaded = true) :
    (s.addLines n).Follows s := ⟨loaded, Nat.le_refl _⟩

theorem Passes.of_addLines {n : Nat} {s later : Scanner} (h : later.Passes (s.addLines n)) :
    later.Passes s := ⟨h.loaded, h.rest_lt⟩

theorem takeWhile_follows (c : ByteClass) {s : Scanner} (loaded : s.loaded = true) :
    (s.takeWhile c).2.Follows s := by
  fun_induction takeWhile c s with
  | case1 s h _ ih => exact (ih (advance_follows s).loaded).trans (advance_follows s)
  | case2 s h => exact .rfl loaded

theorem takeWhile_passes {c : ByteClass} {s : Scanner} (loaded : s.loaded = true)
    (h : s.hasByte = true) (mem : c.contains s.byte = true) : (s.takeWhile c).2.Passes s := by
  rw [takeWhile, if_pos ⟨h, mem⟩]
  exact (takeWhile_follows c (advance_follows s).loaded).trans_passes (advance_passes loaded h)

theorem hasByte_of_length {s : Scanner} (h : s.rest.length ≤ 0) : s.hasByte = false := by
  have : s.rest = [] := List.eq_nil_of_length_eq_zero (Nat.le_zero.mp h)
  simp [hasByte, this]

end Scanner

namespace Lexicon

variable {τ : Type} {x : Lexicon τ} {s next : Scanner} {ts : List τ}

/-- Every rule passes at least one byte when it begins at a byte that triggers it. -/
structure Advances (x : Lexicon τ) : Prop where
  skip : ∀ s : Scanner, s.loaded = true → s.hasByte = true →
    x.blank.trigger.contains s.byte = true → (x.blank.skip s).Passes s
  read : ∀ rule ∈ x.rules, ∀ s : Scanner, s.loaded = true → s.hasByte = true →
    rule.trigger.contains s.byte = true → (rule.read s).2.Passes s

theorem Round.passes (hx : x.Advances) (loaded : s.loaded = true) (h : x.Round s ts next) :
    next.Passes s := by
  cases h with
  | blank has mem => exact hx.skip s loaded has mem
  | token has _ found =>
    exact hx.read _ (mem_of_ruleFor? found) s loaded has (contains_of_ruleFor? found)

theorem scanWithin_ends (hx : x.Advances) {rounds : Nat} (loaded : s.loaded = true)
    (enough : s.rest.length ≤ rounds) : Outcome.Ends (x.scanWithin rounds s).1 := by
  induction rounds generalizing s with
  | zero =>
    rw [scanWithin_of_end (Scanner.hasByte_of_length enough)]
    exact Outcome.ends_ok _
  | succ rounds ih =>
    rcases x.round_cases s with has | stray | ⟨ts, next, round⟩
    · rw [scanWithin_of_end has]
      exact Outcome.ends_ok _
    · rw [stray.scanWithin_succ]
      exact Outcome.ends_fault _
    · have pass := round.passes hx loaded
      rw [round.scanWithin_succ]
      exact (ih pass.loaded (Nat.le_of_lt_succ (Nat.lt_of_lt_of_le pass.rest_lt enough))).map _

/-- Rounds that are left over change nothing. -/
theorem scanWithin_eq (hx : x.Advances) {m n : Nat} (loaded : s.loaded = true)
    (hm : s.rest.length ≤ m) (hn : s.rest.length ≤ n) : x.scanWithin m s = x.scanWithin n s := by
  induction m generalizing n s with
  | zero =>
    have has := Scanner.hasByte_of_length hm
    rw [scanWithin_of_end has, scanWithin_of_end has]
  | succ m ih =>
    cases n with
    | zero =>
      have has := Scanner.hasByte_of_length hn
      rw [scanWithin_of_end has, scanWithin_of_end has]
    | succ n =>
      rcases x.round_cases s with has | stray | ⟨ts, next, round⟩
      · rw [scanWithin_of_end has, scanWithin_of_end has]
      · rw [stray.scanWithin_succ, stray.scanWithin_succ]
      · have pass := round.passes hx loaded
        rw [round.scanWithin_succ, round.scanWithin_succ,
          ih pass.loaded (Nat.le_of_lt_succ (Nat.lt_of_lt_of_le pass.rest_lt hm))
            (Nat.le_of_lt_succ (Nat.lt_of_lt_of_le pass.rest_lt hn))]

theorem scan_ends (hx : x.Advances) (s : Scanner) : Outcome.Ends (x.scan s).1 :=
  scanWithin_ends hx (Scanner.advance_follows s).loaded (Scanner.advance_follows s).rest_le

theorem tokens_ends (hx : x.Advances) (text : List UInt8) : Outcome.Ends (x.tokens text) :=
  scan_ends hx _

end Lexicon

end LittleLang
