import LittleLang.Proofs.Scan.Routines

/-!
# Scans that go on behind a fault

A lexicon whose rules are routines reads the bytes behind a stray one as it reads them by
themselves.
-/

namespace LittleLang

/-- The byte of the fault and the number of bytes in front of it, where `before` bytes come in front
of the text that has the fault. -/
def LexFault.spot (before : Nat) : LexFault → UInt8 × Nat
  | .unexpectedByte b p => (b, before + p.offset)

namespace Lexicon

open Scanner

variable {τ : Type} {x : Lexicon τ} {s t next last : Scanner} {ts : List τ} {m n before : Nat}
  {fault : LexFault} {text : List UInt8}

/-! ## Scanners that are alike -/

/-- From scanners that are alike the same tokens are read, or the same byte is stray. -/
theorem scanWithin_alike (hx : x.ByRoutines) (alike : s.Alike t)
    (behind : t.offset = before + s.offset) (rounds : Nat) :
    Outcome.mapFault (LexFault.spot 0) (x.scanWithin rounds t).1 =
      Outcome.mapFault (LexFault.spot before) (x.scanWithin rounds s).1 := by
  induction rounds generalizing s t with
  | zero =>
      cases has : s.hasByte with
      | false =>
          rw [scanWithin_of_end has, scanWithin_of_end (alike.hasByte_eq ▸ has)]
          rfl
      | true =>
          rw [scanWithin_zero has, scanWithin_zero (alike.hasByte_eq ▸ has)]
          rfl
  | succ rounds ih =>
      rcases x.round_cases s with has | stray | ⟨ts, next, round⟩
      · rw [scanWithin_of_end has, scanWithin_of_end (alike.hasByte_eq ▸ has)]
        rfl
      · rw [stray.scanWithin_succ, (stray.alike alike).scanWithin_succ, alike.byte_eq]
        simp [Outcome.fault, LexFault.spot, Scanner.position, behind]
      · obtain ⟨next', round', later⟩ := round.alike hx alike
        -- Both rounds pass the same number of bytes.
        have passed := (round.reaches hx.onlyMoves alike.loaded).offset_add_length
        have passed' := (round'.reaches hx.onlyMoves alike.loaded_right).offset_add_length
        rw [later.rest_eq, alike.rest_eq] at passed
        have same := ih later (by omega)
        rw [round.scanWithin_succ, round'.scanWithin_succ, Outcome.mapFault_map,
          Outcome.mapFault_map, same]

/-! ## The number of rounds -/

/-- A round that passes no byte is followed by the same round, without end. -/
theorem Round.endless (hx : x.ByRoutines) (h : x.Round s ts next) (alike : s.Alike next)
    (rounds : Nat) : (x.scanWithin rounds s).1 = .error .endless := by
  induction rounds with
  | zero => rw [scanWithin_zero h.hasByte]
  | succ rounds ih =>
      have moved := (h.reaches hx.onlyMoves alike.loaded).offset_add_length
      rw [alike.rest_eq] at moved
      have behind : next.offset = 0 + s.offset := by omega
      have again := scanWithin_alike hx alike behind rounds
      rw [ih, Outcome.mapFault_endless, Outcome.mapFault_eq_endless_iff] at again
      rw [h.scanWithin_succ, again]
      rfl

/-- A scan that comes to an end in some number of rounds needs at most one for each byte ahead. -/
theorem scanWithin_of_ends (hx : x.ByRoutines) (loaded : s.loaded = true)
    (ends : Outcome.Ends (x.scanWithin m s).1) (enough : s.rest.length ≤ n) :
    x.scanWithin n s = x.scanWithin m s := by
  induction m generalizing s n with
  | zero =>
      cases has : s.hasByte with
      | false => rw [scanWithin_of_end has, scanWithin_of_end has]
      | true =>
          rw [scanWithin_zero has] at ends
          exact absurd rfl ends
  | succ m ih =>
      have pos : s.hasByte = true → ∃ k, n = k + 1 := by
        intro has
        have some : s.rest ≠ [] := by simpa [hasByte] using has
        exact Nat.exists_eq_add_one.mpr (Nat.lt_of_lt_of_le (List.length_pos_iff.mpr some) enough)
      rcases x.round_cases s with has | stray | ⟨ts, next, round⟩
      · rw [scanWithin_of_end has, scanWithin_of_end has]
      · obtain ⟨k, rfl⟩ := pos stray.hasByte
        rw [stray.scanWithin_succ, stray.scanWithin_succ]
      · obtain ⟨k, rfl⟩ := pos round.hasByte
        have moved := round.reaches hx.onlyMoves loaded
        -- A scan that ends has no round that could be repeated for ever.
        have shorter : next.rest.length < s.rest.length := by
          refine Nat.lt_of_not_le fun le => ends ?_
          exact round.endless hx (moved.alike loaded le) (m + 1)
        rw [round.scanWithin_succ] at ends
        have later : Outcome.Ends (x.scanWithin m next).1 := by
          intro endless
          rw [endless] at ends
          exact ends rfl
        rw [round.scanWithin_succ, round.scanWithin_succ,
          ih (moved.loaded loaded) later (Nat.le_of_lt_succ (Nat.lt_of_lt_of_le shorter enough))]

/-- The rounds that a scan has are enough, so only scans that go on without end are cut off. -/
theorem ByRoutines.returns_iff (hx : x.ByRoutines) {o : Except LexFault (List τ)} :
    x.Returns s o last ↔ x.scan s = (o.mapError .raised, last) := by
  refine ⟨?_, returns_of_scan⟩
  rintro ⟨rounds, run⟩
  have ends : Outcome.Ends (x.scanWithin rounds s.advance).1 := by
    rw [run]
    cases o <;> nofun
  have enough : s.advance.rest.length ≤ s.rest.length := (advance_follows s).rest_le
  rw [scan, scanWithin_of_ends hx (loaded_advance s) ends enough, run]

theorem scanWithin_fst_eq (hx : x.ByRoutines) (loaded : s.loaded = true)
    (hm : s.rest.length ≤ m) (hn : s.rest.length ≤ n) :
    (x.scanWithin m s).1 = (x.scanWithin n s).1 := by
  by_cases endsLeft : Outcome.Ends (x.scanWithin m s).1
  · rw [scanWithin_of_ends hx loaded endsLeft hn]
  · by_cases endsRight : Outcome.Ends (x.scanWithin n s).1
    · rw [scanWithin_of_ends hx loaded endsRight hm]
    · exact (Classical.not_not.mp endsLeft).trans (Classical.not_not.mp endsRight).symm

/-! ## Behind the stray byte -/

theorem Returns.stands (hx : x.OnlyMoves) (h : x.Returns (.ofBytes text) (.error fault) last) :
    ∃ b rest, last.rest = b :: rest ∧ last.loaded = true ∧ fault.position.offset = last.offset ∧
      text.drop (last.offset + 1) = rest := by
  have moved := h.reaches hx
  cases h.stops with
  | stray stray =>
      have some : last.rest ≠ [] := by simpa [hasByte] using stray.hasByte
      obtain ⟨b, rest, rest_eq⟩ := List.exists_cons_of_ne_nil some
      refine ⟨b, rest, rest_eq, moved.loaded rfl, rfl, ?_⟩
      have whole : text = last.passed.reverse ++ b :: rest := by
        rw [← rest_eq]
        exact moved.content_eq.symm
      have length_eq : last.passed.reverse.length = last.offset := by
        rw [List.length_reverse, last.offset_eq]
      rw [whole, ← length_eq, List.drop_length_add_append]
      rfl

/-- Behind a fault a scan has the outcome that it has on the bytes there by themselves. -/
theorem scan_behind_fault (hx : x.ByRoutines) (h : x.Returns (.ofBytes text) (.error fault) last) :
    Outcome.mapFault (LexFault.spot 0) (x.scan last).1 =
      Outcome.mapFault (LexFault.spot (fault.position.offset + 1))
        (x.tokens (text.drop (fault.position.offset + 1))) := by
  obtain ⟨b, rest, rest_eq, loaded, offset_eq, dropped⟩ := h.stands hx.onlyMoves
  rw [offset_eq, dropped, tokens, scan, scan]
  have ahead : last.advance.rest = rest ∧ last.advance.offset = last.offset + 1 := by
    simp [advance, loaded, rest_eq]
  obtain ⟨rest_advance, offset_advance⟩ := ahead
  cases rest with
  -- With no bytes behind the stray one the scanners need not be alike: it is still loaded.
  | nil =>
      rw [scanWithin_of_end (by simp [hasByte, rest_advance]), scanWithin_of_end rfl]
      rfl
  | cons c rest =>
      have alike : (ofBytes (c :: rest)).advance.Alike last.advance :=
        .of_rest rfl (loaded_advance last) rfl rest_advance
      have rounds : (x.scanWithin last.rest.length last.advance).1 =
          (x.scanWithin (c :: rest).length last.advance).1 :=
        scanWithin_fst_eq hx (loaded_advance last) (by simp [rest_advance, rest_eq])
          (by simp [rest_advance])
      rw [rounds]
      exact scanWithin_alike hx alike offset_advance _

end Lexicon

end LittleLang
