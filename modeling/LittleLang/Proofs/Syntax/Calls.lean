import LittleLang.Proofs.Parse.Refinement
import LittleLang.Proofs.Syntax.Lemmas.Reading

/-!
# The calls of the rules

A rule does the same with other calls, if these do the same wherever it calls them. So it does not
matter how many calls inside one another are allowed, once that is enough.
-/

namespace LittleLang.Decl

open ParseM Syntax
open TokenStream (Past)

variable {origin s : TokenStream Token} {call call' : RuleCall Token Node}

/-! ## Rules -/

/-- Where a call of a rule comes to an end, the other call does the same. -/
def CallsRefined (origin : TokenStream Token) (call call' : RuleCall Token Node) : Prop :=
  ∀ rule ∈ calledRules, RefinedBy origin (call rule.1) (call' rule.1)

theorem onlyAdvances_current : current.OnlyAdvances := by
  refine (onlyAdvances_look TokenStream.token?).bind fun token => ?_
  cases token with
  | none => exact onlyAdvances_raise _
  | some t => exact onlyAdvances_pure t

theorem onlyAdvances_expect (kind : TokenKind) : (expect kind).OnlyAdvances := by
  refine onlyAdvances_current.bind fun t => ?_
  split
  · exact onlyAdvances_advance.bind fun _ => onlyAdvances_pure t
  · exact onlyAdvances_raise _

theorem refinedBy_expect (kind : TokenKind) : RefinedBy origin (expect kind) (expect kind) :=
  (onlyAdvances_expect kind).refinedBy

theorem refinedBy_untilBrace {body body' : Parse Node} (h : RefinedBy origin body body') :
    RefinedBy origin (untilBrace body) (untilBrace body') := refinedBy_collectWhile h

section

variable (h : CallsRefined origin call call')
include h

theorem refinedBy_binding (kind : NodeKind) :
    RefinedBy origin (binding kind call) (binding kind call') := by
  refine (refinedBy_expect .word).bind fun name => ?_
  refine (refinedBy_expect .eql).bind fun _ => ?_
  exact (h _ value_mem).bind fun v => refinedBy_pure _

theorem refinedBy_callable (kind : NodeKind) (name : Token) :
    RefinedBy origin (callable kind name call) (callable kind name call') := by
  refine (h _ args_mem).bind fun a => ?_
  exact (h _ (Phrase.rule_mem .block)).bind fun b => refinedBy_pure _

theorem refinedBy_declaration : RefinedBy origin (declaration call) (declaration call') := by
  refine onlyAdvances_current.refinedBy.bind fun keyword => ?_
  split
  · exact refinedBy_advance.bind fun _ => refinedBy_binding h _
  · split
    · refine refinedBy_advance.bind fun _ => ?_
      exact (refinedBy_expect .word).bind fun name => refinedBy_callable h _ name
    · split
      · refine refinedBy_advance.bind fun _ => ?_
        refine (refinedBy_expect .word).bind fun name => ?_
        refine (refinedBy_expect .leftBrace).bind fun _ => ?_
        refine (refinedBy_untilBrace (h _ (Phrase.rule_mem .member))).bind fun members => ?_
        exact (refinedBy_expect .rightBrace).bind fun _ => refinedBy_pure _
      · exact refinedBy_raise _

theorem refinedBy_member : RefinedBy origin (member call) (member call') := by
  refine onlyAdvances_current.refinedBy.bind fun t => ?_
  split
  · exact refinedBy_advance.bind fun _ => refinedBy_binding h _
  · exact refinedBy_advance.bind fun _ => refinedBy_callable h _ t
  · exact refinedBy_raise _

theorem refinedBy_param : RefinedBy origin (param call) (param call') := by
  refine (refinedBy_expect .word).bind fun name => ?_
  refine (refinedBy_look _).bind fun stands => ?_
  split
  · refine refinedBy_advance.bind fun _ => ?_
    exact (h _ value_mem).bind fun v => refinedBy_pure _
  · exact refinedBy_pure _

theorem refinedBy_nextParam : RefinedBy origin (nextParam call) (nextParam call') := by
  refine onlyAdvances_current.refinedBy.bind fun t => ?_
  split
  · exact refinedBy_advance.bind fun _ => (refinedBy_param h).bind fun p => refinedBy_pure _
  · exact refinedBy_advance.bind fun _ => refinedBy_pure _
  · exact refinedBy_raise _

theorem refinedBy_args : RefinedBy origin (args call) (args call') := by
  refine (refinedBy_expect .leftPrt).bind fun _ => ?_
  refine (refinedBy_look _).bind fun stands => ?_
  split
  · exact refinedBy_advance.bind fun _ => refinedBy_pure _
  · refine (refinedBy_param h).bind fun first => ?_
    exact (refinedBy_collect (refinedBy_nextParam h)).bind fun others => refinedBy_pure _

theorem refinedBy_block : RefinedBy origin (block call) (block call') := by
  refine (refinedBy_expect .leftBrace).bind fun _ => ?_
  refine (refinedBy_untilBrace (h _ (Phrase.rule_mem .declaration))).bind fun declarations => ?_
  exact (refinedBy_expect .rightBrace).bind fun _ => refinedBy_pure _

theorem refinedBy_rule {rule : String × Rule} (mem : rule ∈ calledRules) :
    RefinedBy origin (rule.2 call) (rule.2 call') := by
  simp only [calledRules, List.mem_cons, List.not_mem_nil, or_false] at mem
  rcases mem with rfl | rfl | rfl | rfl | rfl
  · exact refinedBy_declaration h
  · exact refinedBy_member h
  · exact refinedBy_args h
  · exact refinedBy_block h
  · refine onlyAdvances_current.refinedBy.bind fun t => ?_
    split
    · exact refinedBy_advance.bind fun _ => refinedBy_pure _
    · exact refinedBy_raise _

theorem refinedBy_root : RefinedBy origin (root call) (root call') := by
  refine (refinedBy_collectWhile ?_).bind fun declarations => refinedBy_pure _
  refine (refinedBy_look _).bind fun stands => ?_
  split
  · exact h _ (Phrase.rule_mem .declaration)
  · exact refinedBy_raise _

end

/-! ## Enough calls inside one another -/

/-- A grammar with the rules that are called, which may start from another rule. -/
def HasCalledRules (g : Grammar Token Node) : Prop :=
  ∀ rule ∈ calledRules, g.rules.get? rule.1 = some rule.2

variable {g g' : Grammar Token Node} {depth depth' : Nat} {rule : String × Rule}

theorem HasCalledRules.call_succ (hg : HasCalledRules g) (mem : rule ∈ calledRules) (depth : Nat) :
    g.call (depth + 1) rule.1 = rule.2 (g.call depth) := by
  simp only [Grammar.call, hg rule mem]

/-- With a deeper budget of calls, calls that come to an end do the same. -/
theorem callsRefined_call (hg : HasCalledRules g) (hg' : HasCalledRules g') (le : depth ≤ depth') :
    CallsRefined origin (g.call depth) (g'.call depth') := by
  induction depth generalizing depth' with
  | zero => exact fun _ _ => refinedBy_endless
  | succ depth ih =>
      intro rule mem
      cases depth' with
      | zero => exact absurd le (Nat.not_succ_le_zero depth)
      | succ depth' =>
          rw [hg.call_succ mem, hg'.call_succ mem]
          exact refinedBy_rule (ih (Nat.le_of_succ_le_succ le)) mem

theorem ensures_call (mem : rule ∈ calledRules) (lt : s.rest.length < depth) :
    Ensures (grammar.call depth rule.1) s fun _ next => Past 1 s next := by
  cases depth with
  | zero => exact absurd lt (Nat.not_lt_zero _)
  | succ depth =>
      rw [Decl.call_succ mem]
      exact ensures_calledRule (progresses_call depth) mem (Nat.le_of_lt_succ lt)

/-- Every depth that is enough comes to the same. -/
theorem HasCalledRules.call_eq (hg : HasCalledRules g) (mem : rule ∈ calledRules)
    (lt : s.rest.length < depth) :
    g.call depth rule.1 s = grammar.call (s.rest.length + 1) rule.1 s :=
  (callsRefined_call get?_calledRules hg lt rule mem).eq
    (ensures_call mem (Nat.lt_succ_self _)).ends

theorem callOn_eq (mem : rule ∈ calledRules) (lt : s.rest.length < depth) :
    grammar.callOn rule.1 s = grammar.call depth rule.1 s := by
  have hg : HasCalledRules grammar := get?_calledRules
  rw [Grammar.callOn, hg.call_eq mem (grammar.rest_lt_depthBound s), hg.call_eq mem lt]

theorem callOn_eq_of_ends (mem : rule ∈ calledRules)
    (ends : Outcome.Ends (grammar.call depth rule.1 s).1) :
    grammar.callOn rule.1 s = grammar.call depth rule.1 s := by
  rcases Nat.lt_or_ge s.rest.length depth with lt | le
  · exact callOn_eq mem lt
  · rw [callOn_eq mem (Nat.lt_succ_self _)]
    have le : depth ≤ s.rest.length + 1 := Nat.le_succ_of_le le
    exact (callsRefined_call get?_calledRules get?_calledRules le rule mem).eq ends

theorem callsRefined_callOn (depth : Nat) :
    CallsRefined origin (grammar.call depth) grammar.callOn := by
  intro rule mem s reached
  have same : CallsRefined origin (grammar.call depth) (grammar.call depth) :=
    callsRefined_call get?_calledRules get?_calledRules (Nat.le_refl depth)
  exact ⟨(same rule mem s reached).1, callOn_eq_of_ends mem⟩

theorem callOn_reaches (mem : rule ∈ calledRules) (s : TokenStream Token) :
    s.Reaches (grammar.callOn rule.1 s).2 :=
  (callsRefined_callOn (grammar.depthBound s) rule mem s .refl).1

theorem ensures_callOn (mem : rule ∈ calledRules) (s : TokenStream Token) :
    Ensures (grammar.callOn rule.1) s fun _ next => Past 1 s next :=
  ensures_call mem (grammar.rest_lt_depthBound s)

/-- A call of a rule runs the rule, which can make such calls itself. -/
theorem callOn_rule (mem : rule ∈ calledRules) (s : TokenStream Token) :
    grammar.callOn rule.1 s = rule.2 grammar.callOn s := by
  have ends := ensures_calledRule (progresses_call s.rest.length) mem (Nat.le_refl _)
  rw [callOn_eq mem (Nat.lt_succ_self _), Decl.call_succ mem]
  exact ((refinedBy_rule (callsRefined_callOn _) mem).eq ends.ends).symm

end LittleLang.Decl
