import LittleLang.Proofs.Scan.Covering
import LittleLang.Proofs.Scan.Moves

/-!
# Routines over a scanner

A routine sees whether bytes lie ahead and which byte is loaded. Where the scanner stands, and what
it has passed, is hidden from it, so a routine does the same wherever the same bytes lie ahead.
-/

namespace LittleLang

/-- What a routine in one of the states `σ` does next. -/
inductive Routine.Move (σ α : Type)
  | advance (later : σ)
  | addLines (n : Nat) (later : σ)
  | done (a : α)

/-- A computation that loads bytes and counts lines until it has a value. In each of its states it
decides by whether bytes lie ahead and by the loaded byte. -/
structure Routine (α : Type) where
  State : Type
  start : State
  next : State → Bool → UInt8 → Routine.Move State α

/-- From the state `q` the routine comes to the value `a`, and takes `s` to the other scanner. -/
inductive Routine.Runs {α : Type} (r : Routine α) : r.State → Scanner → α → Scanner → Prop
  | advance {q later s a t} : r.next q s.hasByte s.byte = .advance later →
      Runs r later s.advance a t → Runs r q s a t
  | addLines {q n later s a t} : r.next q s.hasByte s.byte = .addLines n later →
      Runs r later (s.addLines n) a t → Runs r q s a t
  | done {q s a} : r.next q s.hasByte s.byte = .done a → Runs r q s a s

namespace Scanner

/-- The same bytes lie ahead of both scanners, and the same byte is loaded. -/
structure Alike (s t : Scanner) : Prop where
  loaded : s.loaded = true
  loaded_right : t.loaded = true
  rest_eq : s.rest = t.rest
  byte_eq : s.byte = t.byte

theorem byte_of_rest {s : Scanner} {b : UInt8} {rest : List UInt8} (loaded : s.loaded = true)
    (ahead : s.rest = b :: rest) : s.byte = b := by
  simp [byte, loaded, ahead]

namespace Alike

variable {s t : Scanner}

/-- What has been passed matters only at the end of the bytes. -/
theorem of_rest {b : UInt8} {rest : List UInt8} (loaded : s.loaded = true)
    (loaded' : t.loaded = true) (ahead : s.rest = b :: rest) (ahead' : t.rest = b :: rest) :
    s.Alike t :=
  ⟨loaded, loaded', ahead.trans ahead'.symm,
    (byte_of_rest loaded ahead).trans (byte_of_rest loaded' ahead').symm⟩

theorem hasByte_eq (h : s.Alike t) : s.hasByte = t.hasByte := by
  simp only [hasByte, h.rest_eq]

theorem addLines (h : s.Alike t) (n : Nat) : (s.addLines n).Alike (t.addLines n) :=
  ⟨h.loaded, h.loaded_right, h.rest_eq, h.byte_eq⟩

theorem advance (h : s.Alike t) : s.advance.Alike t.advance := by
  rcases s with ⟨passed, rest, offset, offset_eq, _, line, lineStart⟩
  rcases t with ⟨passed', _, offset', offset_eq', _, line', lineStart'⟩
  obtain ⟨rfl, rfl, rfl, byte_eq⟩ := h
  cases rest with
  -- Behind the last byte nothing moves, and both keep the byte that they have loaded.
  | nil => exact ⟨rfl, rfl, rfl, byte_eq⟩
  | cons b rest => cases rest <;> exact ⟨rfl, rfl, rfl, rfl⟩

theorem meets {c : ByteClass} (h : s.Alike t) (meets : s.Meets c) : t.Meets c :=
  ⟨h.loaded_right, h.hasByte_eq ▸ meets.hasByte, h.byte_eq ▸ meets.contains⟩

end Alike

theorem length_content (s : Scanner) : s.content.length = s.offset + s.rest.length := by
  rw [content, List.length_append, List.length_reverse, s.offset_eq]

theorem Reaches.offset_add_length {s t : Scanner} (h : s.Reaches t) :
    t.offset + t.rest.length = s.offset + s.rest.length := by
  rw [← length_content, ← length_content, h.content_eq]

/-- A scanner that has passed no byte on its way is as it was, but for the lines. -/
theorem Reaches.alike {s t : Scanner} (loaded : s.loaded = true) (h : s.Reaches t)
    (le : s.rest.length ≤ t.rest.length) : s.Alike t := by
  have same := h.offset_add_length
  have onward := h.offset_le
  have length_eq : s.rest.length = t.rest.length := by omega
  have passed_eq := List.append_inj_left' h.content_eq.symm length_eq
  have rest_eq := List.append_inj_right' h.content_eq.symm length_eq
  have loaded' := h.loaded loaded
  refine ⟨loaded, loaded', rest_eq, ?_⟩
  rw [byte, byte, loaded, loaded', rest_eq, List.reverse_inj.mp passed_eq]

end Scanner

namespace Routine

variable {α : Type} {r : Routine α} {q : r.State} {s s' t t' : Scanner} {a b : α}

theorem Runs.reaches (h : r.Runs q s a s') : s.Reaches s' := by
  induction h with
  | advance _ _ ih => exact Scanner.Reaches.trans (.advance .refl) ih
  | addLines _ _ ih => exact Scanner.Reaches.trans (.addLines _ .refl) ih
  | done => exact .refl

/-- At scanners that are alike a routine has the same value, and leaves them alike. -/
theorem Runs.alike (h : r.Runs q s a s') (alike : s.Alike t) (h' : r.Runs q t b t') :
    a = b ∧ s'.Alike t' := by
  induction h generalizing t with
  | advance here later ih =>
      rw [alike.hasByte_eq, alike.byte_eq] at here
      cases h' with
      | advance there later' =>
          cases here.symm.trans there
          exact ih alike.advance later'
      | addLines there => cases here.symm.trans there
      | done there => cases here.symm.trans there
  | addLines here later ih =>
      rw [alike.hasByte_eq, alike.byte_eq] at here
      cases h' with
      | advance there => cases here.symm.trans there
      | addLines there later' =>
          cases here.symm.trans there
          exact ih (alike.addLines _) later'
      | done there => cases here.symm.trans there
  | done here =>
      rw [alike.hasByte_eq, alike.byte_eq] at here
      cases h' with
      | advance there => cases here.symm.trans there
      | addLines there => cases here.symm.trans there
      | done there =>
          cases here.symm.trans there
          exact ⟨rfl, alike⟩

/-- Passes the bytes of a class and yields them. -/
def takeWhile (c : ByteClass) : Routine (List UInt8) where
  State := List UInt8
  start := []
  next taken has b := if has ∧ c.contains b then .advance (taken ++ [b]) else .done taken

theorem takeWhile_runs (c : ByteClass) (taken : List UInt8) (s : Scanner) :
    (takeWhile c).Runs taken s (taken ++ (s.takeWhile c).1) (s.takeWhile c).2 := by
  fun_induction Scanner.takeWhile c s generalizing taken with
  | case1 s h later ih =>
      refine .advance (if_pos h) ?_
      have more := ih (taken ++ [s.byte])
      rw [List.append_assoc] at more
      exact more
  | case2 s h =>
      rw [List.append_nil]
      exact .done (if_neg h)

/-- Passes one byte of white space. The state tells whether a line is to be counted before, and
whether the byte has been passed. -/
def whitespace : Routine Unit where
  State := Bool × Bool
  start := (true, false)
  next
    | (_, true), _, _ => .done ()
    | (true, false), _, b => if b = 0x0A then .addLines 1 (false, false) else .advance (false, true)
    | (false, false), _, _ => .advance (false, true)

theorem whitespace_runs (s : Scanner) :
    whitespace.Runs whitespace.start s () (BlankRule.whitespace.skip s) := by
  show whitespace.Runs _ s () (if s.byte = 0x0A then (s.addLines 1).advance else s.advance)
  split
  · rename_i lineFeed
    exact .addLines (if_pos lineFeed) (.advance rfl (.done rfl))
  · rename_i other
    exact .advance (if_neg other) (.done rfl)

end Routine

namespace Lexicon

variable {τ : Type} {x : Lexicon τ} {s t next : Scanner} {ts : List τ}

/-- What each rule does, where it begins, is the run of a routine. -/
structure ByRoutines (x : Lexicon τ) : Prop where
  skip : ∃ r : Routine Unit, ∀ s : Scanner, s.Meets x.blank.trigger →
    r.Runs r.start s () (x.blank.skip s)
  read : ∀ rule ∈ x.rules, ∃ r : Routine τ, ∀ s : Scanner, s.Meets rule.trigger →
    r.Runs r.start s (rule.read s).1 (rule.read s).2

theorem ByRoutines.onlyMoves (hx : x.ByRoutines) : x.OnlyMoves where
  skip s meets := by
    obtain ⟨r, runs⟩ := hx.skip
    exact (runs s meets).reaches
  read rule mem s meets := by
    obtain ⟨r, runs⟩ := hx.read rule mem
    exact (runs s meets).reaches

theorem byRoutines_ofClasses (classes : List ByteClass) :
    (ofClasses .whitespace classes).ByRoutines where
  skip := ⟨.whitespace, fun s _ => Routine.whitespace_runs s⟩
  read rule mem := by
    obtain ⟨c, -, rfl⟩ := List.mem_map.mp mem
    exact ⟨.takeWhile c, fun s _ => Routine.takeWhile_runs c [] s⟩

theorem Strays.alike (alike : s.Alike t) (h : x.Strays s) : x.Strays t :=
  ⟨alike.hasByte_eq ▸ h.hasByte, alike.byte_eq ▸ h.blank, alike.byte_eq ▸ h.rule⟩

theorem Round.alike (hx : x.ByRoutines) (alike : s.Alike t) (h : x.Round s ts next) :
    ∃ next', x.Round t ts next' ∧ next.Alike next' := by
  cases h with
  | blank has mem =>
      obtain ⟨r, runs⟩ := hx.skip
      have here : s.Meets x.blank.trigger := ⟨alike.loaded, has, mem⟩
      have there := alike.meets here
      obtain ⟨-, later⟩ := (runs s here).alike alike (runs t there)
      exact ⟨_, .blank there.hasByte there.contains, later⟩
  | @token rule has blank found =>
      obtain ⟨r, runs⟩ := hx.read rule (mem_of_ruleFor? found)
      have here : s.Meets rule.trigger := ⟨alike.loaded, has, contains_of_ruleFor? found⟩
      have there := alike.meets here
      obtain ⟨same, later⟩ := (runs s here).alike alike (runs t there)
      rw [alike.byte_eq] at blank found
      rw [same]
      exact ⟨_, .token there.hasByte blank found, later⟩

end Lexicon

end LittleLang
