import LittleLang.Decl.Grammar
import LittleLang.Parse.Lemmas.Progress

/-!
Every rule of the declaration language reads a token before it calls another, so parsing comes to
an end on every list of tokens.
-/
namespace LittleLang.Decl

open ParseM
open TokenStream (Past)

/-- The rules that are called by others. -/
def calledRules : List (String × Rule) :=
  [("declaration", declaration), ("member", member), ("args", args), ("block", block),
    ("value", value)]

/-- On streams with fewer than `n` tokens left, calls come to an end and read a token. -/
def Progresses (n : Nat) (call : RuleCall Token Node) : Prop :=
  ∀ rule ∈ calledRules, ∀ s : TokenStream Token, s.loaded = true → s.rest.length < n →
    Ensures (call rule.1) s fun _ next => Past 1 s next

variable {n : Nat} {call : RuleCall Token Node} {s : TokenStream Token}

theorem ensures_current : Ensures current s fun t next => next = s ∧ s.token? = some t := by
  refine Ensures.bind (Q := fun t next => t = s.token? ∧ next = s) (ensures_look ⟨rfl, rfl⟩) ?_
  rintro t next ⟨h, rfl⟩
  split
  · exact ensures_pure ⟨rfl, h.symm⟩
  · exact ensures_raise

theorem ensures_expect (kind : TokenKind) : Ensures (expect kind) s fun _ next => Past 1 s next := by
  refine ensures_current.bind ?_
  rintro t next ⟨rfl, h⟩
  split
  · exact (ensures_read h).bind fun _ _ past =>
      ensures_pure past
  · exact ensures_raise

theorem ensures_untilBrace {body : Parse Node} (loaded : s.loaded = true)
    (h : ∀ t, Past 0 s t → Ensures body t fun _ next => Past 1 t next) :
    Ensures (untilBrace body) s fun _ next => Past 0 s next :=
  ensures_collectWhile loaded fun t past _ => h t past


theorem ensures_binding (h : Progresses n call) (kind : NodeKind) (le : s.rest.length ≤ n) :
    Ensures (binding kind call) s fun _ next => Past 1 s next := by
  refine (ensures_expect .word).bind fun name t past => ?_
  refine (ensures_expect .eql).bind fun _ u past' => ?_
  have later := past.trans past'
  have := later.rest_le
  refine (h ("value", value) (by simp [calledRules]) u later.loaded (by omega)).bind ?_
  intro v w last
  exact ensures_pure ((later.trans last).weaken (by omega))

theorem ensures_callable (h : Progresses n call) (kind : NodeKind) (name : Token)
    (loaded : s.loaded = true) (lt : s.rest.length < n) :
    Ensures (callable kind name call) s fun _ next => Past 1 s next := by
  refine (h ("args", args) (by simp [calledRules]) s loaded lt).bind fun a t past => ?_
  have := past.rest_le
  refine (h ("block", block) (by simp [calledRules]) t past.loaded (by omega)).bind ?_
  intro b u last
  exact ensures_pure ((past.trans last).weaken (by omega))

theorem ensures_declaration (h : Progresses n call) (le : s.rest.length ≤ n) :
    Ensures (declaration call) s fun _ next => Past 1 s next := by
  refine ensures_current.bind ?_
  rintro keyword next ⟨rfl, found⟩
  split
  · refine (ensures_read found).bind fun _ t past => ?_
    have := past.rest_le
    exact (ensures_binding h _ (by omega)).imp fun _ _ last => (past.trans last).weaken (by omega)
  · split
    · refine (ensures_read found).bind fun _ t past => ?_
      refine (ensures_expect .word).bind fun name u past' => ?_
      have later := past.trans past'
      have := later.rest_le
      exact (ensures_callable h _ _ later.loaded (by omega)).imp fun _ _ last =>
        (later.trans last).weaken (by omega)
    · split
      · refine (ensures_read found).bind fun _ t past => ?_
        refine (ensures_expect .word).bind fun name u past' => ?_
        refine (ensures_expect .leftBrace).bind fun _ v past'' => ?_
        have later := (past.trans past').trans past''
        have := later.rest_le
        refine (ensures_untilBrace later.loaded fun w inside => ?_).bind fun members w inside => ?_
        · have := inside.rest_le
          exact h ("member", member) (by simp [calledRules]) w inside.loaded (by omega)
        · refine (ensures_expect .rightBrace).bind fun _ x last => ?_
          exact ensures_pure (((later.trans inside).trans last).weaken (by omega))
      · exact ensures_raise

theorem ensures_member (h : Progresses n call) (le : s.rest.length ≤ n) :
    Ensures (member call) s fun _ next => Past 1 s next := by
  refine ensures_current.bind ?_
  rintro t next ⟨rfl, found⟩
  split
  · refine (ensures_read found).bind fun _ u past => ?_
    have := past.rest_le
    exact (ensures_binding h _ (by omega)).imp fun _ _ last => (past.trans last).weaken (by omega)
  · refine (ensures_read found).bind fun _ u past => ?_
    have := past.rest_le
    exact (ensures_callable h _ _ past.loaded (by omega)).imp fun _ _ last =>
      (past.trans last).weaken (by omega)
  · exact ensures_raise

theorem ensures_param (h : Progresses n call) (le : s.rest.length ≤ n) :
    Ensures (param call) s fun _ next => Past 1 s next := by
  refine (ensures_expect .word).bind fun name t past => ?_
  refine Ensures.bind (Q := fun _ next => next = t) (ensures_look rfl) ?_
  rintro stands next rfl
  split
  · refine ensures_advance.bind fun _ u past' => ?_
    have later := past.trans past'
    have := later.rest_le
    refine (h ("value", value) (by simp [calledRules]) u later.loaded (by omega)).bind ?_
    intro v w last
    exact ensures_pure ((later.trans last).weaken (by omega))
  · exact ensures_pure past

theorem ensures_nextParam (h : Progresses n call) (le : s.rest.length ≤ n) :
    Ensures (nextParam call) s fun a next => Past (if a.isSome then 1 else 0) s next := by
  refine ensures_current.bind ?_
  rintro t next ⟨rfl, found⟩
  split
  · refine (ensures_read found).bind fun _ u past => ?_
    have := past.rest_le
    refine (ensures_param h (by omega)).bind fun p v last => ?_
    exact ensures_pure ((past.trans last).weaken (by simp))
  · exact (ensures_read found).bind fun _ u past => ensures_pure (past.weaken (by simp))
  · exact ensures_raise

theorem ensures_args (h : Progresses n call) (le : s.rest.length ≤ n) :
    Ensures (args call) s fun _ next => Past 1 s next := by
  refine (ensures_expect .leftPrt).bind fun _ t past => ?_
  have := past.rest_le
  refine Ensures.bind (Q := fun _ next => next = t) (ensures_look rfl) ?_
  rintro stands next rfl
  split
  · refine ensures_advance.bind fun _ u last => ?_
    exact ensures_pure ((past.trans last).weaken (by omega))
  · refine (ensures_param h (by omega)).bind fun first u past' => ?_
    have later := past.trans past'
    have := later.rest_le
    refine (ensures_collect later.loaded fun v inside => ?_).bind fun others v last => ?_
    · have := inside.rest_le
      exact ensures_nextParam h (by omega)
    · exact ensures_pure ((later.trans last).weaken (by omega))

theorem ensures_block (h : Progresses n call) (le : s.rest.length ≤ n) :
    Ensures (block call) s fun _ next => Past 1 s next := by
  refine (ensures_expect .leftBrace).bind fun _ t past => ?_
  have := past.rest_le
  refine (ensures_untilBrace past.loaded fun u inside => ?_).bind fun declarations u inside => ?_
  · have := inside.rest_le
    exact h ("declaration", declaration) (by simp [calledRules]) u inside.loaded (by omega)
  · refine (ensures_expect .rightBrace).bind fun _ v last => ?_
    exact ensures_pure (((past.trans inside).trans last).weaken (by omega))

theorem ensures_value (call : RuleCall Token Node) : Ensures (value call) s fun _ next => Past 1 s next := by
  refine ensures_current.bind ?_
  rintro t next ⟨rfl, found⟩
  split
  · exact (ensures_read found).bind fun _ _ past =>
      ensures_pure past
  · exact ensures_raise

theorem ensures_calledRule (h : Progresses n call) {rule : String × Rule} (mem : rule ∈ calledRules)
    (le : s.rest.length ≤ n) : Ensures (rule.2 call) s fun _ next => Past 1 s next := by
  simp only [calledRules, List.mem_cons, List.not_mem_nil, or_false] at mem
  rcases mem with rfl | rfl | rfl | rfl | rfl
  · exact ensures_declaration h le
  · exact ensures_member h le
  · exact ensures_args h le
  · exact ensures_block h le
  · exact ensures_value call

theorem get?_root : grammar.rules.get? "root" = some root := by rfl

theorem get?_calledRules : ∀ rule ∈ calledRules, grammar.rules.get? rule.1 = some rule.2 := by
  simp only [calledRules, List.mem_cons, List.not_mem_nil, or_false, forall_eq_or_imp, forall_eq]
  exact ⟨rfl, rfl, rfl, rfl, rfl⟩

theorem progresses_call (depth : Nat) : Progresses depth (grammar.call depth) := by
  induction depth with
  | zero => exact fun _ _ _ _ lt => absurd lt (Nat.not_lt_zero _)
  | succ depth ih =>
    intro rule mem s loaded lt
    simp only [Grammar.call, get?_calledRules rule mem]
    exact ensures_calledRule ih mem (Nat.le_of_lt_succ lt)

theorem ensures_root (h : Progresses n call) (loaded : s.loaded = true) (lt : s.rest.length < n) :
    Ensures (root call) s fun _ next => Past 0 s next := by
  refine (ensures_collectWhile loaded fun t past _ => ?_).bind fun declarations t past =>
    ensures_pure past
  have := past.rest_le
  refine Ensures.bind (Q := fun _ next => next = t) (ensures_look rfl) ?_
  rintro stands next rfl
  split
  · exact h ("declaration", declaration) (by simp [calledRules]) next past.loaded (by omega)
  · exact ensures_raise

/-- Parsing comes to an end at a depth of one call more than there are tokens. -/
theorem parseWithin_ends {depth : Nat} {s : TokenStream Token} (lt : s.rest.length < depth) :
    Outcome.Ends (grammar.parseWithin depth s).1 := by
  refine Ensures.ends (Q := fun _ _ => True) ?_
  simp only [Grammar.parseWithin, show grammar.rules.get? grammar.root = some root from get?_root]
  refine ensures_advance.bind fun _ t past => ?_
  have := past.rest_le
  refine Ensures.bind (Q := fun _ next => next = t) (ensures_look rfl) ?_
  rintro has next rfl
  split
  · refine (ensures_root (progresses_call depth) past.loaded (by omega)).bind fun node u _ => ?_
    refine Ensures.bind (Q := fun _ _ => True) (ensures_look trivial) fun has v _ => ?_
    split
    · exact ensures_raise
    · exact ensures_pure trivial
  · exact ensures_raise

theorem parse_ends (s : TokenStream Token) : Outcome.Ends (grammar.parse s).1 :=
  parseWithin_ends (grammar.rest_lt_depthBound s)

end LittleLang.Decl
