import LittleLang.Parse.Program

/-!
Running a program to its end. `Ensures p s Q` says that on the stream `s` the program `p` comes to
an end and that, if it succeeds, its value and the stream it leaves satisfy `Q`.
-/
namespace LittleLang

variable {τ α β : Type}

namespace TokenStream

/-- The stream `next` is a later state of `s` with at least `n` tokens read in between. -/
structure Past (n : Nat) (s next : TokenStream τ) : Prop where
  loaded : next.loaded = true
  rest_le : next.rest.length + n ≤ s.rest.length

theorem Past.zero {s : TokenStream τ} (h : s.loaded = true) : Past 0 s s := ⟨h, Nat.le_refl _⟩

theorem Past.trans {m n : Nat} {s t u : TokenStream τ} (h : Past m s t) (h' : Past n t u) :
    Past (m + n) s u := ⟨h'.loaded, by have := h.rest_le; have := h'.rest_le; omega⟩

theorem Past.weaken {m n : Nat} {s t : TokenStream τ} (h : Past n s t) (le : m ≤ n) : Past m s t :=
  ⟨h.loaded, by have := h.rest_le; omega⟩

theorem pending_of_loaded {s : TokenStream τ} (h : s.loaded = true) : s.pending = s.rest.length := by
  simp [pending, h]

theorem past_advance (s : TokenStream τ) : Past 0 s s.advance := by
  rcases s with ⟨passed, rest, loaded⟩
  cases loaded with
  | false => exact ⟨rfl, Nat.le_refl _⟩
  | true =>
    cases rest with
    | nil => exact ⟨rfl, Nat.le_refl _⟩
    | cons t rest => exact ⟨rfl, Nat.le_succ _⟩

theorem past_advance_of_token? {s : TokenStream τ} {t : τ} (h : s.token? = some t) :
    Past 1 s s.advance := by
  rcases s with ⟨passed, rest, loaded⟩
  cases loaded with
  | false => simp [token?] at h
  | true =>
    cases rest with
    | nil => simp [token?] at h
    | cons t rest => exact ⟨rfl, Nat.le_refl _⟩

end TokenStream

namespace ParseM

/-- On the stream `s` the program comes to an end and, if it succeeds, ends in `Q`. -/
def Ensures (p : ParseM τ α) (s : TokenStream τ) (Q : α → TokenStream τ → Prop) : Prop :=
  match p s with
  | (.ok a, next) => Q a next
  | (.error failure, _) => failure ≠ .endless

theorem ensures_pure {a : α} {s : TokenStream τ} {Q : α → TokenStream τ → Prop} (h : Q a s) :
    Ensures (pure a) s Q := h

theorem ensures_raise {fault : ParseFault} {s : TokenStream τ} {Q : α → TokenStream τ → Prop} :
    Ensures (raise fault) s Q := nofun

theorem ensures_look {observation : TokenStream τ → α} {s : TokenStream τ}
    {Q : α → TokenStream τ → Prop} (h : Q (observation s) s) : Ensures (look observation) s Q := h

theorem ensures_advance {s : TokenStream τ} :
    Ensures advance s fun _ next => TokenStream.Past 0 s next := TokenStream.past_advance s

theorem ensures_read {s : TokenStream τ} {t : τ} (h : s.token? = some t) :
    Ensures advance s fun _ next => TokenStream.Past 1 s next := TokenStream.past_advance_of_token? h

theorem Ensures.bind {p : ParseM τ α} {f : α → ParseM τ β} {s : TokenStream τ}
    {Q : α → TokenStream τ → Prop} {R : β → TokenStream τ → Prop} (hp : Ensures p s Q)
    (hf : ∀ a next, Q a next → Ensures (f a) next R) : Ensures (p >>= f) s R := by
  unfold Ensures at hp ⊢
  show match (match p s with | (.ok a, next) => f a next | (.error e, next) => (.error e, next)) with
    | (.ok b, next) => R b next
    | (.error failure, _) => failure ≠ .endless
  generalize p s = result at hp ⊢
  rcases result with ⟨_ | a, next⟩
  · exact hp
  · exact hf a next hp

theorem Ensures.imp {p : ParseM τ α} {s : TokenStream τ} {Q R : α → TokenStream τ → Prop}
    (hp : Ensures p s Q) (h : ∀ a next, Q a next → R a next) : Ensures p s R := by
  unfold Ensures at hp ⊢
  generalize p s = result at hp ⊢
  rcases result with ⟨_ | a, next⟩
  · exact hp
  · exact h a next hp

theorem Ensures.ends {p : ParseM τ α} {s : TokenStream τ} {Q : α → TokenStream τ → Prop}
    (h : Ensures p s Q) : Outcome.Ends (p s).1 := by
  unfold Ensures at h
  generalize p s = result at h ⊢
  rcases result with ⟨_ | a, next⟩
  · exact fun e => h (Except.error.inj e)
  · exact Outcome.ends_ok a

/-- A loop comes to an end if every round but the last reads a token. -/
theorem ensures_collect {step : ParseM τ (Option α)} {s : TokenStream τ} (loaded : s.loaded = true)
    (h : ∀ t, TokenStream.Past 0 s t → Ensures step t fun a next =>
      TokenStream.Past (if a.isSome then 1 else 0) t next) :
    Ensures (collect step) s fun _ next => TokenStream.Past 0 s next := by
  fun_induction collect step s with
  | case1 s failure next stop =>
    have := h s (.zero loaded)
    unfold Ensures at this ⊢
    rw [collect]
    simp only [stop] at this ⊢
    exact this
  | case2 s next stop =>
    have := h s (.zero loaded)
    unfold Ensures at this ⊢
    rw [collect]
    simp only [stop] at this ⊢
    exact this
  | case3 s a next go less _ ih =>
    have past := h s (.zero loaded)
    unfold Ensures at past
    simp only [go, Option.isSome_some, if_true] at past
    have rest := ih past.loaded fun t ht => h t ((past.trans ht).weaken (Nat.zero_le _))
    unfold Ensures at rest ⊢
    rw [collect]
    simp only [go, if_pos less]
    generalize collect step next = result at rest ⊢
    rcases result with ⟨_ | as, last⟩
    · exact rest
    · exact (past.trans rest).weaken (Nat.zero_le _)
  | case4 s a next go less =>
    have past := h s (.zero loaded)
    unfold Ensures at past
    simp only [go, Option.isSome_some, if_true] at past
    have := past.rest_le
    rw [TokenStream.pending_of_loaded past.loaded, TokenStream.pending_of_loaded loaded] at less
    omega

/-- It does so on every stream, also on one whose first token has not been loaded. -/
theorem collect_ends {step : ParseM τ (Option α)}
    (h : ∀ t, Ensures step t fun a next => a.isSome = true → TokenStream.Past 1 t next)
    (s : TokenStream τ) : Outcome.Ends (collect step s).1 := by
  fun_induction collect step s with
  | case1 s failure next stop =>
    have round := (h s).ends
    rw [stop] at round
    exact Outcome.ends_error_iff.mpr (Outcome.ends_error_iff.mp round)
  | case2 s next stop => exact Outcome.ends_ok _
  | case3 s a next go less later ih => exact ih.map _
  | case4 s a next go less =>
    have round := h s
    unfold Ensures at round
    rw [go] at round
    have past := round rfl
    have := past.rest_le
    refine absurd ?_ less
    rw [TokenStream.pending_of_loaded past.loaded]
    exact Nat.lt_of_lt_of_le (Nat.lt_of_succ_le this) (Nat.le_add_right _ _)

theorem ensures_collectWhile {condition : TokenStream τ → Bool} {body : ParseM τ α}
    {s : TokenStream τ} (loaded : s.loaded = true)
    (h : ∀ t, TokenStream.Past 0 s t → condition t = true →
      Ensures body t fun _ next => TokenStream.Past 1 t next) :
    Ensures (collectWhile condition body) s fun _ next => TokenStream.Past 0 s next := by
  refine ensures_collect loaded fun t ht => ?_
  refine Ensures.bind (Q := fun go next => go = condition t ∧ next = t) (ensures_look ⟨rfl, rfl⟩) ?_
  rintro go next ⟨rfl, rfl⟩
  split
  · rename_i go
    exact (h _ ht go).bind fun a last past => ensures_pure past
  · exact ensures_pure (.zero ht.loaded)

end ParseM

end LittleLang
