import LittleLang.Proofs.Parse.Moves

/-!
# Programs that do the same where one of them ends

A rule is given the calls that it can make, and it can be given others. If those do the same
wherever the given ones come to an end, so does the rule: this is how it is told apart which calls
a rule makes, and why a deeper budget of calls changes nothing.
-/

namespace LittleLang

namespace ParseM

variable {τ α β : Type} {origin s : TokenStream τ} {p q : ParseM τ α} {f g : α → ParseM τ β}

/-- On the streams that loading tokens makes of `origin`, the program `p` does no more than load
tokens, and where it comes to an end `q` does the same. -/
def RefinedBy (origin : TokenStream τ) (p q : ParseM τ α) : Prop :=
  ∀ s, origin.Reaches s → origin.Reaches (p s).2 ∧ (Outcome.Ends (p s).1 → q s = p s)

theorem RefinedBy.eq (h : RefinedBy s p q) (ends : Outcome.Ends (p s).1) : q s = p s :=
  (h s .refl).2 ends

theorem OnlyAdvances.refinedBy (h : p.OnlyAdvances) : RefinedBy origin p p :=
  fun s reached => ⟨reached.trans (h s), fun _ => rfl⟩

theorem refinedBy_pure (a : α) : RefinedBy origin (pure a) (pure a) :=
  (onlyAdvances_pure a).refinedBy

theorem refinedBy_raise (fault : ParseFault) :
    RefinedBy origin (raise fault : ParseM τ α) (raise fault) :=
  (onlyAdvances_raise fault).refinedBy

theorem refinedBy_look (observation : TokenStream τ → α) :
    RefinedBy origin (look observation) (look observation) :=
  (onlyAdvances_look observation).refinedBy

theorem refinedBy_advance : RefinedBy origin (advance : ParseM τ Unit) advance :=
  onlyAdvances_advance.refinedBy

/-- A program that does not end is refined by every other. -/
theorem refinedBy_endless : RefinedBy origin (fail .endless) p :=
  fun _ reached => ⟨reached, fun ends => absurd rfl ends⟩

theorem RefinedBy.bind (hp : RefinedBy origin p q) (hf : ∀ a, RefinedBy origin (f a) (g a)) :
    RefinedBy origin (p >>= f) (q >>= g) := by
  intro s reached
  obtain ⟨moved, same⟩ := hp s reached
  rcases run : p s with ⟨failure | a, next⟩
  · rw [run] at moved same
    rw [bind_of_error run]
    refine ⟨moved, fun ends => bind_of_error (same ?_)⟩
    exact Outcome.ends_error_iff.mpr (Outcome.ends_error_iff.mp ends)
  · rw [run] at moved same
    rw [bind_of_ok run, bind_of_ok (same (Outcome.ends_ok a))]
    exact hf a next moved

theorem refinedBy_collect {step step' : ParseM τ (Option α)} (h : RefinedBy origin step step') :
    RefinedBy origin (collect step) (collect step') := by
  intro s reached
  obtain ⟨moved, same⟩ := h s reached
  fun_induction collect step s with
  | case1 s failure next stop =>
      rw [stop] at moved same
      refine ⟨moved, fun ends => ?_⟩
      rw [collect, same (Outcome.ends_error_iff.mpr (Outcome.ends_error_iff.mp ends))]
  | case2 s next stop =>
      rw [stop] at moved same
      refine ⟨moved, fun _ => ?_⟩
      rw [collect, same (Outcome.ends_ok _)]
  | case3 s a next go less later ih =>
      rw [go] at moved same
      obtain ⟨onward, again⟩ := ih moved (h next moved).1 (h next moved).2
      refine ⟨onward, fun ends => ?_⟩
      have rest : Outcome.Ends (collect step next).1 := fun none => ends (by rw [none]; rfl)
      rw [collect, same (Outcome.ends_ok _)]
      simp only [if_pos less, again rest, later]
  | case4 s a next go less =>
      rw [go] at moved same
      exact ⟨moved, fun ends => absurd rfl ends⟩

theorem refinedBy_collectWhile {condition : TokenStream τ → Bool} (h : RefinedBy origin p q) :
    RefinedBy origin (collectWhile condition p) (collectWhile condition q) := by
  refine refinedBy_collect ((refinedBy_look condition).bind fun go => ?_)
  cases go with
  | true => exact h.bind fun a => refinedBy_pure (some a)
  | false => exact refinedBy_pure none

end ParseM

/-! ## Calls inside one another -/

/-- On the stream `s` the rule calls `name` at the stream `t`: it matters what this one call comes to.
A call that fails fails the rule that makes it, so each call that is made matters. -/
def GrammarRule.Calls {τ ν : Type} (rule : GrammarRule τ ν) (call : RuleCall τ ν)
    (s : TokenStream τ) (name : String) (t : TokenStream τ) : Prop :=
  ∃ call' : RuleCall τ ν, (∀ other u, ¬ (other = name ∧ u = t) → call' other u = call other u) ∧
    rule call' s ≠ rule call s

/-- A rule that does not come to an end when a call does not, but otherwise does, makes the call. -/
theorem GrammarRule.calls_of_endless {τ ν : Type} {rule : GrammarRule τ ν} {call : RuleCall τ ν}
    {s : TokenStream τ} {name : String} {t : TokenStream τ} (ends : Outcome.Ends (rule call s).1)
    (stops : ∀ call' : RuleCall τ ν, call' name t = (.error .endless, t) →
      (rule call' s).1 = .error .endless) : rule.Calls call s name t := by
  classical
  refine ⟨fun other u => if other = name ∧ u = t then (.error .endless, t) else call other u,
    fun other u ne => if_neg ne, fun same => ends ?_⟩
  rw [← same]
  exact stops _ (if_pos ⟨rfl, rfl⟩)

/-- In a parse of `s` the rule `name` is called at `t` as the innermost of `k` calls, each of which is
made by the one before. The first is that of the rule to start from. -/
inductive Grammar.Nested {τ ν : Type} (g : Grammar τ ν) (s : TokenStream τ) :
    Nat → String → TokenStream τ → Prop
  | root : Nested g s 1 g.root s.advance
  | call {k name rule t inner u} : Nested g s k name t → g.rules.get? name = some rule →
      GrammarRule.Calls rule g.callOn t inner u → Nested g s (k + 1) inner u

namespace TokenStream

variable {τ : Type} {s t : TokenStream τ}

theorem length_tokens (s : TokenStream τ) : s.tokens.length = s.position + s.rest.length := by
  rw [tokens, position, List.length_append, List.length_reverse]

theorem Reaches.position_lt (h : s.Reaches t) (lt : t.rest.length < s.rest.length) :
    s.position < t.position := by
  have same := congrArg List.length h.tokens_eq
  rw [length_tokens, length_tokens] at same
  omega

end TokenStream

end LittleLang
