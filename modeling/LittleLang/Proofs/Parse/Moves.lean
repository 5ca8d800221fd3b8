import LittleLang.Parse.Lemmas.Progress
import LittleLang.Proofs.Parse.Runs
import LittleLang.Script.Parse

/-!
# Programs that only advance the stream

A program has one way to change a stream: it loads the next token. What is put together from such
programs changes streams in this way alone, and so does every rule of a grammar with such rules.
-/

namespace LittleLang

namespace TokenStream

variable {τ : Type} {s t u : TokenStream τ}

/-- Loading tokens, and nothing else, takes `s` to the other stream. -/
inductive Reaches (s : TokenStream τ) : TokenStream τ → Prop
  | refl : Reaches s s
  | advance {t : TokenStream τ} : Reaches s t → Reaches s t.advance

theorem tokens_advance (s : TokenStream τ) : s.advance.tokens = s.tokens := by
  rcases s with ⟨passed, rest, loaded⟩
  cases loaded with
  | false => rfl
  | true =>
      cases rest with
      | nil => rfl
      | cons t rest => simp [advance, tokens]

theorem position_le_advance (s : TokenStream τ) : s.position ≤ s.advance.position := by
  rcases s with ⟨passed, rest, loaded⟩
  cases loaded with
  | false => exact Nat.le_refl _
  | true =>
      cases rest with
      | nil => exact Nat.le_refl _
      | cons t rest => exact Nat.le_succ _

theorem loaded_advance (s : TokenStream τ) : s.advance.loaded = true := (past_advance s).loaded

theorem advance_of_end (loaded : s.loaded = true) (h : s.hasTokens = false) : s.advance = s := by
  have none : s.rest = [] := by simpa [hasTokens] using h
  rw [advance, if_pos loaded]
  split
  · rename_i more
    rw [none] at more
    cases more
  · rfl

theorem position_le_length (s : TokenStream τ) : s.position ≤ s.tokens.length := by
  rw [tokens, List.length_append, List.length_reverse]
  exact Nat.le_add_right _ _

namespace Reaches

theorem trans (h : s.Reaches t) (h' : t.Reaches u) : s.Reaches u := by
  induction h' with
  | refl => exact h
  | advance _ ih => exact ih.advance

theorem tokens_eq (h : s.Reaches t) : t.tokens = s.tokens := by
  induction h with
  | refl => rfl
  | advance _ ih => exact (tokens_advance _).trans ih

theorem position_le (h : s.Reaches t) : s.position ≤ t.position := by
  induction h with
  | refl => exact Nat.le_refl _
  | advance _ ih => exact Nat.le_trans ih (position_le_advance _)

theorem loaded (h : s.Reaches t) (loaded : s.loaded = true) : t.loaded = true := by
  induction h with
  | refl => exact loaded
  | advance _ _ => exact loaded_advance _

theorem eq_of_end (h : s.Reaches t) (loaded : s.loaded = true) (none : s.hasTokens = false) :
    t = s := by
  induction h with
  | refl => rfl
  | advance _ ih =>
      rw [ih]
      exact advance_of_end loaded none

end Reaches

end TokenStream

/-! ## Programs and rules -/

namespace ParseM

variable {τ α β : Type} {p q : ParseM τ α} {f : α → ParseM τ β}

/-- The program changes the stream by loading tokens alone. -/
def OnlyAdvances (p : ParseM τ α) : Prop := ∀ s : TokenStream τ, s.Reaches (p s).2

theorem onlyAdvances_pure (a : α) : (pure a : ParseM τ α).OnlyAdvances := fun _ => .refl

theorem onlyAdvances_fail (failure : Failure ParseFault) :
    (fail failure : ParseM τ α).OnlyAdvances := fun _ => .refl

theorem onlyAdvances_raise (fault : ParseFault) : (raise fault : ParseM τ α).OnlyAdvances :=
  onlyAdvances_fail _

theorem onlyAdvances_look (observation : TokenStream τ → α) : (look observation).OnlyAdvances :=
  fun _ => .refl

theorem onlyAdvances_advance : (advance : ParseM τ Unit).OnlyAdvances := fun _ => .advance .refl

theorem OnlyAdvances.bind (hp : p.OnlyAdvances) (hf : ∀ a, (f a).OnlyAdvances) :
    (p >>= f).OnlyAdvances := by
  intro s
  have first := hp s
  rcases run : p s with ⟨failure | a, next⟩
  · rw [run] at first
    rw [bind_of_error run]
    exact first
  · rw [run] at first
    rw [bind_of_ok run]
    exact first.trans (hf a next)

theorem OnlyAdvances.map (hp : p.OnlyAdvances) (g : α → β) : (g <$> p).OnlyAdvances :=
  hp.bind fun a => onlyAdvances_pure (g a)

theorem OnlyAdvances.orElse (hp : p.OnlyAdvances) (hq : q.OnlyAdvances) :
    (orElse p q).OnlyAdvances := by
  intro s
  have first := hp s
  rcases run : p s with ⟨(fault | _) | a, next⟩
  · rw [run] at first
    rw [ParseM.orElse, run]
    exact first.trans (hq next)
  · rw [run] at first
    rw [ParseM.orElse, run]
    exact first
  · rw [run] at first
    rw [ParseM.orElse, run]
    exact first

theorem onlyAdvances_collect {step : ParseM τ (Option α)} (h : step.OnlyAdvances) :
    (collect step).OnlyAdvances := by
  intro s
  have first := h s
  fun_induction collect step s with
  | case1 s failure next stop =>
      rw [stop] at first
      exact first
  | case2 s next stop =>
      rw [stop] at first
      exact first
  | case3 s a next go less later ih =>
      rw [go] at first
      exact first.trans (ih (h next))
  | case4 s a next go less =>
      rw [go] at first
      exact first

theorem onlyAdvances_collectWhile {condition : TokenStream τ → Bool} (h : p.OnlyAdvances) :
    (collectWhile condition p).OnlyAdvances := by
  refine onlyAdvances_collect ((onlyAdvances_look condition).bind fun go => ?_)
  cases go with
  | true => exact h.bind fun a => onlyAdvances_pure (some a)
  | false => exact onlyAdvances_pure none

end ParseM

/-- The rule changes the stream by loading tokens alone, and by what it calls. -/
def GrammarRule.OnlyAdvances {τ ν : Type} (rule : GrammarRule τ ν) : Prop :=
  ∀ call : RuleCall τ ν, (∀ name, (call name).OnlyAdvances) → (rule call).OnlyAdvances

namespace Grammar

variable {τ ν : Type} {g : Grammar τ ν}

/-- So does every rule of the grammar. -/
def OnlyAdvances (g : Grammar τ ν) : Prop :=
  ∀ name rule, g.rules.get? name = some rule → GrammarRule.OnlyAdvances rule

/-- However rules call each other, calls only advance the stream. -/
theorem OnlyAdvances.call (hg : g.OnlyAdvances) (depth : Nat) (name : String) :
    (g.call depth name).OnlyAdvances := by
  induction depth generalizing name with
  | zero => exact ParseM.onlyAdvances_fail _
  | succ depth ih =>
      rw [Grammar.call]
      split
      · rename_i rule found
        exact hg name rule found (g.call depth) ih
      · exact ParseM.onlyAdvances_raise _

end Grammar

/-! ## Grammars of statements -/

namespace Script

open ParseM

variable {call : RuleCall Token Tree}

mutual

theorem run_onlyAdvances (calls : ∀ name, (call name).OnlyAdvances) :
    (statement : Statement) → (statement.run call).OnlyAdvances
  | .advance => by
      rw [Statement.run]
      exact onlyAdvances_advance.bind fun _ => onlyAdvances_pure []
  | .take => by
      rw [Statement.run]
      refine (onlyAdvances_look TokenStream.token?).bind fun token => ?_
      cases token with
      | none => exact onlyAdvances_raise .invalidSyntax
      | some t => exact onlyAdvances_advance.bind fun _ => onlyAdvances_pure _
  | .expect m => by
      rw [Statement.run]
      refine (onlyAdvances_look m.holds).bind fun holds => ?_
      cases holds with
      | true => exact onlyAdvances_advance.bind fun _ => onlyAdvances_pure []
      | false => exact onlyAdvances_raise .invalidSyntax
  | .lit bytes => by
      rw [Statement.run]
      exact onlyAdvances_pure _
  | .call name => by
      rw [Statement.run]
      exact (calls name).bind fun tree => onlyAdvances_pure [tree]
  | .splice name => by
      rw [Statement.run]
      exact (calls name).bind fun tree => onlyAdvances_pure tree.children
  | .either first second => by
      rw [Statement.run]
      exact ((calls first).orElse (calls second)).bind fun tree => onlyAdvances_pure [tree]
  | .choose m yes no => by
      rw [Statement.run]
      refine (onlyAdvances_look m.holds).bind fun holds => ?_
      cases holds with
      | true => exact runAll_onlyAdvances calls yes
      | false => exact runAll_onlyAdvances calls no
  | .whileAt m body => by
      rw [Statement.run]
      exact (onlyAdvances_collectWhile (runAll_onlyAdvances calls body)).map _
  | .untilAt m body => by
      rw [Statement.run]
      exact (onlyAdvances_collectWhile (runAll_onlyAdvances calls body)).map _
  | .toEnd body => by
      rw [Statement.run]
      exact (onlyAdvances_collectWhile (runAll_onlyAdvances calls body)).map _
  | .fail fault => by
      rw [Statement.run]
      exact onlyAdvances_raise fault

theorem runAll_onlyAdvances (calls : ∀ name, (call name).OnlyAdvances) :
    (statements : List Statement) → (Statement.runAll call statements).OnlyAdvances
  | [] => by
      rw [Statement.runAll]
      exact onlyAdvances_pure []
  | statement :: rest => by
      rw [Statement.runAll]
      refine (run_onlyAdvances calls statement).bind fun trees => ?_
      exact (runAll_onlyAdvances calls rest).bind fun more => onlyAdvances_pure (trees ++ more)

end

theorem grammar_onlyAdvances (root : String) (rules : List (String × List Statement)) :
    (grammar root rules).OnlyAdvances := by
  intro name rule found
  obtain ⟨entry, -, same⟩ :=
    List.mem_map.mp (NameTable.mem_of_mem_ofList (NameTable.mem_of_get? found))
  cases same
  intro call calls
  exact (runAll_onlyAdvances calls entry.2).bind fun trees => onlyAdvances_pure _

end Script

end LittleLang
