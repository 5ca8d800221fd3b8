import LittleLang.Proofs.Syntax.Calls

/-!
# How deep the calls of the rules go

A rule calls others only behind the token that it begins with, so calls inside one another begin at
later and later tokens. There are no more of them than there are tokens, but for the call of the root
rule and one at the end.
-/

namespace LittleLang.Decl

open ParseM Syntax
open TokenStream (Past)

variable {s t : TokenStream Token} {name : String} {n depth k : Nat}

/-! ## Calls further on -/

/-- The calls at streams with fewer than `n` tokens ahead; the others do not come to an end. -/
def callsBelow (n : Nat) (call : RuleCall Token Node) : RuleCall Token Node := fun name s =>
  if s.rest.length < n then call name s else ParseM.fail .endless s

theorem callsBelow_of_lt (call : RuleCall Token Node) (lt : s.rest.length < n) :
    callsBelow n call name s = call name s := if_pos lt

theorem progresses_callsBelow (n : Nat) : Progresses n (callsBelow n grammar.callOn) := by
  intro rule mem s _ lt
  unfold Ensures
  rw [callsBelow_of_lt grammar.callOn lt]
  exact ensures_callOn mem s

theorem callsRefined_callsBelow {call : RuleCall Token Node}
    (same : ∀ rule ∈ calledRules, ∀ u, s.Reaches u → u.rest.length < n →
      call rule.1 u = grammar.callOn rule.1 u) :
    CallsRefined s (callsBelow n grammar.callOn) call := by
  intro rule mem u reached
  by_cases lt : u.rest.length < n
  · rw [callsBelow_of_lt grammar.callOn lt]
    exact ⟨reached.trans (callOn_reaches mem u), fun _ => same rule mem u reached lt⟩
  · rw [show callsBelow n grammar.callOn rule.1 u = ParseM.fail .endless u from if_neg lt]
    exact refinedBy_endless u reached

/-- A rule that comes to an end with no calls but those with fewer than `n` tokens ahead makes no
other calls. -/
theorem calls_below {rule : Rule}
    (refines : ∀ {call call'}, CallsRefined s call call' → RefinedBy s (rule call) (rule call'))
    (ends : ∀ {call}, Progresses n call → Outcome.Ends (rule call s).1)
    (h : GrammarRule.Calls rule grammar.callOn s name t) :
    s.Reaches t ∧ t.rest.length < n ∧ ∃ called ∈ calledRules, called.1 = name := by
  -- Otherwise the one call that matters is among those that were taken away.
  refine Classical.byContradiction fun other => ?_
  obtain ⟨call, same, differs⟩ := h
  have here := ends (progresses_callsBelow n)
  have given := (refines (callsRefined_callsBelow fun _ _ _ _ _ => rfl)).eq here
  have changed : rule call s = rule (callsBelow n grammar.callOn) s := by
    refine (refines (callsRefined_callsBelow fun called mem u reached lt => same _ _ ?_)).eq here
    rintro ⟨rfl, rfl⟩
    exact other ⟨reached, lt, called, mem, rfl⟩
  exact differs (changed.trans given.symm)

theorem calls_of_rule {rule : String × Rule} (mem : rule ∈ calledRules)
    (h : GrammarRule.Calls rule.2 grammar.callOn s name t) :
    s.Reaches t ∧ s.position < t.position ∧ ∃ called ∈ calledRules, called.1 = name := by
  obtain ⟨reached, lt, called⟩ := calls_below (fun refined => refinedBy_rule refined mem)
    (fun progresses => (ensures_calledRule progresses mem (Nat.le_refl _)).ends) h
  exact ⟨reached, reached.position_lt lt, called⟩

theorem calls_of_root (loaded : s.loaded = true)
    (h : GrammarRule.Calls root grammar.callOn s name t) :
    s.Reaches t ∧ ∃ called ∈ calledRules, called.1 = name := by
  obtain ⟨reached, -, called⟩ := calls_below refinedBy_root
    (fun progresses => (ensures_root progresses loaded (Nat.lt_succ_self _)).ends) h
  exact ⟨reached, called⟩

/-! ## Calls inside one another -/

/-- The innermost of `k` calls stands at the token of index `k - 2` or later. -/
theorem nested_cases (h : grammar.Nested s k name t) :
    s.Reaches t ∧ ((k = 1 ∧ name = "root" ∧ t = s.advance) ∨
      (∃ called ∈ calledRules, called.1 = name) ∧ k ≤ t.position + 2) := by
  induction h with
  | root => exact ⟨.advance .refl, .inl ⟨rfl, rfl, rfl⟩⟩
  | @call k name rule t inner u outer found made ih =>
      obtain ⟨reached, ⟨rfl, rfl, rfl⟩ | ⟨⟨called, mem, rfl⟩, le⟩⟩ := ih
      · cases found.symm.trans get?_root
        obtain ⟨further, called⟩ := calls_of_root (TokenStream.loaded_advance s) made
        exact ⟨reached.trans further, .inr ⟨called, Nat.le_add_left _ _⟩⟩
      · cases found.symm.trans (get?_calledRules called mem)
        obtain ⟨further, later, inner⟩ := calls_of_rule mem made
        exact ⟨reached.trans further, .inr ⟨inner, by omega⟩⟩

theorem nested_le (h : grammar.Nested s k name t) : k ≤ s.tokens.length + 2 := by
  obtain ⟨reached, ⟨rfl, -, -⟩ | ⟨-, le⟩⟩ := nested_cases h
  · exact Nat.le_add_left _ _
  · have inside := t.position_le_length
    rw [reached.tokens_eq] at inside
    omega

/-! ## Whole readings -/

theorem root_call_eq (lt : s.rest.length < depth) :
    root (grammar.call depth) s.advance = root grammar.callOn s.advance := by
  have le := (TokenStream.past_advance s).rest_le
  have ends := ensures_root (progresses_call depth) (TokenStream.loaded_advance s)
    (show s.advance.rest.length < depth by omega)
  exact ((refinedBy_root (callsRefined_callOn depth)).eq ends.ends).symm

theorem parseWithin_eq_parse (lt : s.rest.length < depth) :
    grammar.parseWithin depth s = grammar.parse s := by
  rw [Grammar.parse, Grammar.parseWithin_eq get?_root, Grammar.parseWithin_eq get?_root,
    root_call_eq lt, root_call_eq (grammar.rest_lt_depthBound s)]

theorem callOn_onward {rule : String × Rule} (mem : rule ∈ calledRules) {node : Node}
    {next : TokenStream Token} (h : grammar.callOn rule.1 s = (.ok node, next)) :
    s.position < next.position := by
  have moved := callOn_reaches mem s
  have past := ensures_callOn mem s
  unfold Ensures at past
  rw [h] at moved past
  exact moved.position_lt (Nat.lt_of_succ_le past.rest_le)

theorem progresses_callOn (n : Nat) : Progresses n grammar.callOn :=
  fun _ mem s _ _ => ensures_callOn mem s

theorem untilBrace_ends (phrase : Phrase) (s : TokenStream Token) :
    Outcome.Ends (untilBrace (grammar.callOn phrase.rule.1) s).1 := by
  refine collect_ends (fun t => ?_) s
  refine Ensures.bind (Q := fun _ next => next = t) (ensures_look rfl) ?_
  rintro go next rfl
  split
  · exact (ensures_callOn phrase.rule_mem next).bind fun n last past => ensures_pure fun _ => past
  · exact ensures_pure nofun

theorem params_ends (s : TokenStream Token) :
    Outcome.Ends (collect (nextParam grammar.callOn) s).1 := by
  refine collect_ends (fun t => ?_) s
  refine (ensures_nextParam (progresses_callOn _) (Nat.le_refl _)).imp fun a next past some => ?_
  rwa [if_pos some] at past

/-- Reading comes to an end on every stream of tokens. A call of a rule that succeeds reads a token,
and the calls that the rule makes begin behind the place where it begins itself. So the calls inside
one another are at most two more than the tokens, and the loops over members, parameters and
declarations come to an end, whatever the tokens are. -/
theorem reading_ends (s : TokenStream Token) :
    (∀ rule ∈ calledRules,
      grammar.callOn rule.1 s = rule.2 grammar.callOn s ∧ Outcome.Ends (grammar.callOn rule.1 s).1 ∧
        (∀ node next, grammar.callOn rule.1 s = (.ok node, next) → s.position < next.position) ∧
        ∀ name t, GrammarRule.Calls rule.2 grammar.callOn s name t →
          t.tokens = s.tokens ∧ s.position < t.position) ∧
      (∀ k name t, grammar.Nested s k name t → k ≤ s.tokens.length + 2) ∧
      Outcome.Ends (grammar.parse s).1 ∧
      grammar.parseWithin (s.tokens.length + 1) s = grammar.parse s ∧
      Outcome.Ends (untilBrace (grammar.callOn "member") s).1 ∧
      Outcome.Ends (collect (nextParam grammar.callOn) s).1 ∧
      Outcome.Ends (untilBrace (grammar.callOn "declaration") s).1 := by
  refine ⟨fun rule mem => ⟨callOn_rule mem s, (ensures_callOn mem s).ends, ?_, ?_⟩,
    fun k name t => nested_le, parse_ends s, parseWithin_eq_parse ?_, untilBrace_ends .member s,
    params_ends s, untilBrace_ends .declaration s⟩
  · exact fun node next => callOn_onward mem
  · intro name t made
    obtain ⟨reached, later, -⟩ := calls_of_rule mem made
    exact ⟨reached.tokens_eq, later⟩
  · rw [TokenStream.length_tokens]
    omega

theorem declaration_variable {keyword name equals : Token} {passed rest : List Token}
    (hk : keyword.Spells "let") (hn : name.kind = .word) (he : equals.kind = .eql)
    (call : RuleCall Token Node) :
    declaration call ⟨passed, keyword :: name :: equals :: rest, true⟩ =
      (do return .named .varDeclaration name [← call "value"] : Parse Node)
        ⟨equals :: name :: keyword :: passed, rest, true⟩ := by
  show ((if isBindingWord keyword then _ else _) : Parse Node) _ = _
  rw [if_pos (isBindingWord_iff.mpr (.inl hk))]
  show ((if name.kind = .word then _ else _ : Parse Token) >>= _) _ = _
  rw [if_pos hn]
  show ((if equals.kind = .eql then _ else _ : Parse Token) >>= _) _ = _
  rw [if_pos he]
  rfl

/-- In `let x = 1` the root rule calls that for declarations at the first token, and this calls that
for values at the last one. -/
theorem reading_ends_at_value : ∃ (s t next : TokenStream Token) (node : Node),
    s.tokens.length = 4 ∧ grammar.callOn "declaration" s.advance = (.ok node, next) ∧
      s.advance.position < next.position ∧
      GrammarRule.Calls declaration grammar.callOn s.advance "value" t ∧
      t.tokens = s.tokens ∧ s.advance.position < t.position ∧ grammar.Nested s 3 "value" t ∧
      3 ≤ s.tokens.length + 2 := by
  let keyword : Token := ⟨.word, ascii "let", 1, 1⟩
  let x : Token := ⟨.word, ascii "x", 1, 5⟩
  let equals : Token := ⟨.eql, ascii "=", 1, 7⟩
  let one : Token := ⟨.num, ascii "1", 1, 9⟩
  let s : TokenStream Token := .ofTokens [keyword, x, equals, one]
  let t : TokenStream Token := ⟨[equals, x, keyword], [one], true⟩
  have mem := Phrase.rule_mem .declaration
  have derived : Derives .declaration [keyword, x, equals, one] _ :=
    .varDeclaration (.inl ⟨rfl, rfl⟩) (.mk rfl rfl (.number rfl))
  have read : grammar.callOn "declaration" s.advance = (.ok _, _) :=
    runs_ruleCall mem derived.runs (grammar.rest_lt_depthBound s.advance) [] [] trivial
  have value : GrammarRule.Calls declaration grammar.callOn s.advance "value" t := by
    refine GrammarRule.calls_of_endless (ensures_calledRule (progresses_callOn _) mem
      (Nat.le_refl _)).ends fun call stops => ?_
    rw [show s.advance = ⟨[], [keyword, x, equals, one], true⟩ from rfl,
      declaration_variable ⟨rfl, rfl⟩ rfl rfl, bind_of_error stops]
  have start : GrammarRule.Calls root grammar.callOn s.advance "declaration" s.advance := by
    refine GrammarRule.calls_of_endless (ensures_root (progresses_callOn _) rfl
      (Nat.lt_succ_self _)).ends fun call stops => ?_
    have first : (do
        if ← look TokenStream.hasTokens then return some (← rootStep call) else return none :
          Parse (Option Node)) s.advance = (.error .endless, s.advance) :=
      bind_of_error (p := rootStep call) stops
    rw [root_eq, bind_of_error (by rw [collectWhile, collect, first])]
  obtain ⟨rules, -⟩ := reading_ends s.advance
  obtain ⟨-, -, onward, later⟩ := rules _ mem
  obtain ⟨-, nested, -⟩ := reading_ends s
  have inner : grammar.Nested s 3 "value" t :=
    .call (.call .root get?_root start) (get?_calledRules _ mem) value
  exact ⟨s, t, _, _, rfl, read, onward _ _ read, value, (later _ _ value).1, (later _ _ value).2,
    inner, nested _ _ _ inner⟩

end LittleLang.Decl
