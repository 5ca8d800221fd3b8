import LittleLang.Parse.Grammar
import LittleLang.Proofs.Parse.Runs

/-!
# Parsing programs on other tokens

A program that asks of its tokens nothing that a map of tokens changes does the same on the tokens
that the map makes of them.
-/

namespace LittleLang

namespace TokenStream

variable {τ σ : Type}

/-- The stream with every token mapped. -/
def map (f : τ → σ) (s : TokenStream τ) : TokenStream σ :=
  ⟨s.passed.map f, s.rest.map f, s.loaded⟩

variable (f : τ → σ) (s : TokenStream τ)

@[simp] theorem map_ofTokens (ts : List τ) : (ofTokens ts).map f = ofTokens (ts.map f) := rfl

@[simp] theorem hasTokens_map : (s.map f).hasTokens = s.hasTokens := by
  simp [hasTokens, map]

@[simp] theorem token?_map : (s.map f).token? = s.token?.map f := by
  cases h : s.loaded <;> simp [token?, map, h]

@[simp] theorem pending_map : (s.map f).pending = s.pending := by
  rcases s with ⟨passed, rest, loaded⟩
  cases loaded <;> simp [pending, map]

@[simp] theorem position_map : (s.map f).position = s.position := by
  simp [position, map]

theorem advance_map : (s.map f).advance = s.advance.map f := by
  rcases s with ⟨passed, rest, loaded⟩
  cases loaded with
  | false => rfl
  | true =>
      cases rest with
      | nil => rfl
      | cons t rest => rfl

end TokenStream

namespace ParseM

variable {τ σ α α' β β' : Type} {f : τ → σ} {g : α → α'} {h : β → β'}

/-- On mapped tokens `q` comes to the mapped outcome of `p`, and reads as many tokens. -/
def Mirrors (f : τ → σ) (g : α → α') (p : ParseM τ α) (q : ParseM σ α') : Prop :=
  ∀ s, q (s.map f) = (g <$> (p s).1, (p s).2.map f)

theorem mirrors_pure (a : α) : Mirrors f g (pure a) (pure (g a)) := fun _ => rfl

theorem mirrors_fail (failure : Failure ParseFault) : Mirrors f g (fail failure) (fail failure) :=
  fun _ => rfl

theorem mirrors_raise (fault : ParseFault) : Mirrors f g (raise fault) (raise fault) :=
  mirrors_fail _

theorem mirrors_advance : Mirrors f id (advance : ParseM τ Unit) advance := by
  intro s
  simp only [advance, TokenStream.advance_map]
  rfl

theorem mirrors_look {observation : TokenStream τ → α} {observation' : TokenStream σ → α'}
    (same : ∀ s, observation' (s.map f) = g (observation s)) :
    Mirrors f g (look observation) (look observation') := by
  intro s
  simp only [look, same]
  rfl

theorem Mirrors.bind {p : ParseM τ α} {q : ParseM σ α'} {k : α → ParseM τ β}
    {l : α' → ParseM σ β'} (hp : Mirrors f g p q) (hk : ∀ a, Mirrors f h (k a) (l (g a))) :
    Mirrors f h (p >>= k) (q >>= l) := by
  intro s
  have first := hp s
  rcases run : p s with ⟨failure | a, next⟩
  · rw [run] at first
    rw [bind_of_error run, bind_of_error first]
    rfl
  · rw [run] at first
    rw [bind_of_ok run, bind_of_ok first]
    exact hk a next

theorem mirrors_collect {step : ParseM τ (Option α)} {step' : ParseM σ (Option α')}
    (hs : Mirrors f (Option.map g) step step') :
    Mirrors f (List.map g) (collect step) (collect step') := by
  intro s
  fun_induction collect step s with
  | case1 s failure next stop =>
      have first := hs s
      rw [stop] at first
      rw [collect, first]
      rfl
  | case2 s next stop =>
      have first := hs s
      rw [stop] at first
      rw [collect, first]
      rfl
  | case3 s a next go less later ih =>
      have first := hs s
      rw [go] at first
      simp only [Outcome.map_ok, Option.map_some] at first
      rw [collect, first]
      simp only [TokenStream.pending_map, if_pos less, ih, later]
      cases (collect step next).1 <;> rfl
  | case4 s a next go less =>
      have first := hs s
      rw [go] at first
      simp only [Outcome.map_ok, Option.map_some] at first
      rw [collect, first]
      simp only [TokenStream.pending_map, if_neg less]
      rfl

theorem mirrors_collectWhile {condition : TokenStream τ → Bool} {condition' : TokenStream σ → Bool}
    {body : ParseM τ α} {body' : ParseM σ α'} (same : ∀ s, condition' (s.map f) = condition s)
    (hb : Mirrors f g body body') :
    Mirrors f (List.map g) (collectWhile condition body) (collectWhile condition' body') := by
  refine mirrors_collect ((mirrors_look (g := id) same).bind fun go => ?_)
  cases go with
  | true => exact hb.bind fun a => mirrors_pure (some a)
  | false => exact mirrors_pure none

end ParseM

end LittleLang
