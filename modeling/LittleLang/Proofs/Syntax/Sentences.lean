import LittleLang.Decl.Language
import LittleLang.Proofs.Parse.Sequences
import LittleLang.Proofs.Syntax.Calls
import LittleLang.Proofs.Syntax.Lemmas.Decision
import LittleLang.Proofs.Syntax.Lemmas.Refusal

/-!
# The rules read single constructs

Each rule reads the tokens of one construct and no more, whatever comes after them, since no construct
begins with another one of the same kind. So rules that are run one after another read one construct
after another.
-/

namespace LittleLang.Decl

open ParseM

namespace Syntax

/-- The constructs that have a rule: declarations, members, blocks, arguments and values. -/
inductive Construct where
  | phrase (phrase : Phrase)
  | args
  | value

theorem Decided.imp {whole : List Token → Prop} {awaits awaits' : List Token → Wanted → Prop}
    {ts : List Token} (h : Decided whole awaits ts) (imp : ∀ us w, awaits us w → awaits' us w) :
    Decided whole awaits' ts := by
  obtain ⟨us, rest, eq, hw | ⟨w, fault, ha, refused⟩⟩ := h
  · exact ⟨us, rest, eq, .inl hw⟩
  · exact ⟨us, rest, eq, .inr ⟨w, fault, imp us w ha, refused⟩⟩

namespace Construct

variable {x : Construct} {xs : List Construct} {us vs ts : List Token} {n m : Node} {depth : Nat}
  {g : Grammar Token Node}

/-- The rule that reads a construct, with its name. -/
def rule : Construct → String × Rule
  | phrase p => p.rule
  | args => ("args", Decl.args)
  | value => ("value", Decl.value)

/-- The grammar derives the tokens from the construct, with the tree. -/
def Derives : Construct → List Token → Node → Prop
  | phrase p => Syntax.Derives p
  | args => Args
  | value => Value

theorem rule_mem (x : Construct) : x.rule ∈ calledRules := by
  cases x with
  | phrase p => exact p.rule_mem
  | args => exact args_mem
  | value => exact value_mem

theorem Derives.ne_nil (h : x.Derives ts n) : ts ≠ [] := by
  cases x with
  | phrase p => exact Syntax.Derives.ne_nil h
  | args => cases h <;> simp
  | value => cases h <;> simp

theorem Derives.runs (h : x.Derives ts n) (lt : ts.length < depth) :
    Runs (grammar.call depth x.rule.1) ts (.ok n) anything := by
  cases x with
  | phrase p => exact runs_ruleCall p.rule_mem (Syntax.Derives.runs h) lt
  | args =>
      have := Args.two_le_length h
      exact Args.runs_call h (by omega)
  | value => exact Value.runs_call h (Nat.zero_lt_of_lt lt)

/-- Tokens begin with the construct, or the rule stops within them where nothing that is wanted comes
next. -/
theorem decided (x : Construct) (ts : List Token) :
    Decided (fun us => ∃ n, x.Derives us n)
      (fun us w => ∀ depth, us.length + 1 < depth → Breaks (grammar.call depth x.rule.1) us w)
      ts := by
  cases x with
  | phrase p =>
      refine (decidedBelow _ p ts (Nat.lt_succ_self _)).imp fun us w h depth lt => ?_
      exact breaks_ruleCall p.rule_mem h.breaks lt
  | args =>
      refine (args_decided ts).imp fun us w h depth lt => ?_
      exact h.breaks_call (by omega)
  | value =>
      rcases Wanted.value.refuses_or_admits rfl ts with ⟨fault, h⟩ | ⟨t, ts, rfl, ht⟩
      · refine ⟨[], ts, rfl, .inr ⟨_, fault, fun depth lt => ?_, h⟩⟩
        exact breaks_ruleCall value_mem (fun {depth} _ => breaks_value (grammar.call depth)) (Nat.lt_of_succ_lt lt)
      · exact ⟨[t], ts, rfl, .inl (exists_value ht)⟩

/-! ## One construct -/

/-- A call of the rule succeeds just where the construct comes next, and reads it. -/
theorem readsExactly_call (hg : HasCalledRules g) (x : Construct) (depth : Nat) :
    ReadsExactly depth (g.call depth x.rule.1) x.Derives := by
  intro s loaded lt n next
  have known : HasCalledRules grammar := get?_calledRules
  have same : g.call depth x.rule.1 s = grammar.call (s.rest.length + 2) x.rule.1 s := by
    rw [hg.call_eq x.rule_mem lt, known.call_eq x.rule_mem (Nat.lt_add_of_pos_right Nat.two_pos)]
  rw [same]
  constructor
  · intro run
    obtain ⟨us, rest, ahead, ⟨m, hd⟩ | ⟨w, fault, breaks, refused⟩⟩ := x.decided s.rest
    · have short : us.length < s.rest.length + 2 := by
        rw [ahead, List.length_append]
        omega
      have reads : s.Reads us ⟨us.reverse ++ s.passed, rest, true⟩ := ⟨rfl, ahead, rfl⟩
      cases ((hd.runs short).eq_of_reads loaded reads).symm.trans run
      exact ⟨us, reads, hd⟩
    · have short : us.length + 1 < s.rest.length + 2 := by
        rw [ahead, List.length_append]
        omega
      have stops := breaks _ short fault s.passed rest refused
      rw [← ahead, ← loaded] at stops
      cases stops.symm.trans run
  · rintro ⟨us, reads, hd⟩
    have short : us.length < s.rest.length + 2 := by
      rw [reads.rest_eq, List.length_append]
      omega
    exact (hd.runs short).eq_of_reads loaded reads

theorem readsExactly_callOn (x : Construct) (n : Nat) :
    ReadsExactly n (grammar.callOn x.rule.1) x.Derives := fun s loaded _ =>
  readsExactly_call get?_calledRules x _ s loaded (grammar.rest_lt_depthBound s)

/-- No sentence of a construct begins with another one. -/
theorem Derives.eq_of_prefix (h : x.Derives us n) (h' : x.Derives vs m) (le : us <+: vs) :
    us = vs ∧ n = m := by
  obtain ⟨rest, rfl⟩ := le
  let depth := (us ++ rest).length + 1
  have short : us.length < depth := Nat.lt_succ_of_le (by simp)
  have first : grammar.call depth x.rule.1 _ = _ := h.runs short [] rest trivial
  have second : grammar.call depth x.rule.1 _ = _ := h'.runs (Nat.lt_succ_self _) [] [] trivial
  rw [List.append_nil] at second
  have same := first.symm.trans second
  simp only [Prod.mk.injEq, Except.ok.injEq, TokenStream.mk.injEq] at same
  obtain ⟨tree, -, none, -⟩ := same
  exact ⟨by rw [none, List.append_nil], tree⟩

/-- A reading begins with at most one sentence of a construct. -/
theorem Derives.eq_of_extract {i j k : Nat} (h : x.Derives (ts.extract i j) n)
    (h' : x.Derives (ts.extract i k) m) (hj : i < j ∧ j ≤ ts.length) (hk : i < k ∧ k ≤ ts.length) :
    j = k ∧ n = m := by
  have lengths : ∀ l, i < l ∧ l ≤ ts.length → (ts.extract i l).length = l - i := by
    intro l hl
    rw [List.extract_eq_take_drop, List.length_take, List.length_drop]
    omega
  -- The shorter of the two is how the longer one begins.
  have shorter : ∀ a b, a ≤ b → ts.extract i a <+: ts.extract i b := by
    intro a b le
    rw [List.extract_eq_take_drop, List.extract_eq_take_drop]
    exact List.take_prefix_take_left (Nat.sub_le_sub_right le i)
  have same : ts.extract i j = ts.extract i k ∧ n = m := by
    rcases Nat.le_total j k with le | le
    · exact h.eq_of_prefix h' (shorter j k le)
    · obtain ⟨list, tree⟩ := h'.eq_of_prefix h (shorter k j le)
      exact ⟨list.symm, tree.symm⟩
  have length := congrArg List.length same.1
  rw [lengths j hj, lengths k hk] at length
  exact ⟨by omega, same.2⟩

theorem Derives.lt_of_extract {i j : Nat} (h : x.Derives (ts.extract i j) n) : i < j := by
  refine Nat.lt_of_not_le fun le => h.ne_nil ?_
  rw [List.extract_eq_take_drop, Nat.sub_eq_zero_of_le le, List.take_zero]

section

variable {s next : TokenStream Token} (loaded : s.loaded = true)
include loaded

/-- A call of the rule that succeeds is a reading of the tokens up to the place where it stops. -/
theorem callOn_eq_ok_iff : grammar.callOn x.rule.1 s = (.ok n, next) ↔
    next.loaded = true ∧ next.tokens = s.tokens ∧ s.position < next.position ∧
      x.Derives (s.tokens.extract s.position next.position) n := by
  rw [(readsExactly_callOn x _).eq_ok_iff loaded (Nat.lt_succ_self _)]
  constructor
  · rintro ⟨loaded', same, -, hd⟩
    exact ⟨loaded', same, hd.lt_of_extract, hd⟩
  · rintro ⟨loaded', same, lt, hd⟩
    exact ⟨loaded', same, Nat.le_of_lt lt, hd⟩

theorem exists_callOn_iff : (∃ next, grammar.callOn x.rule.1 s = (.ok n, next)) ↔
    ∃ j, s.position < j ∧ j ≤ s.tokens.length ∧
      x.Derives (s.tokens.extract s.position j) n := by
  simp only [readsExactly_callOn x _ s loaded (Nat.lt_succ_self _), TokenStream.exists_reads_iff]
  constructor
  · rintro ⟨j, -, inside, hd⟩
    exact ⟨j, hd.lt_of_extract, inside, hd⟩
  · rintro ⟨j, lt, inside, hd⟩
    exact ⟨j, Nat.le_of_lt lt, inside, hd⟩

end

/-! ## Constructs one after another -/

/-- The names of the rules that read the constructs. -/
def ruleNames (xs : List Construct) : List String := xs.map fun x => x.rule.1

theorem readsExactly_calls {n : Nat} {call : RuleCall Token Node}
    (h : ∀ x : Construct, ReadsExactly n (call x.rule.1) x.Derives) (xs : List Construct) :
    ReadsExactly n ((ruleNames xs).mapM call) (Chain Derives xs) := by
  rw [ruleNames, List.mapM_map]
  exact readsExactly_mapM h xs

theorem sequence_eq_ok_iff {call : RuleCall Token Node} {names : List String}
    {s next : TokenStream Token} : sequence names call s = (.ok n, next) ↔
      ∃ ns, names.mapM call s = (.ok ns, next) ∧ n = .plain .root ns := by
  rw [sequence, bind_eq_ok_iff]
  constructor
  · rintro ⟨ns, t, run, last⟩
    cases last
    exact ⟨ns, run, rfl⟩
  · rintro ⟨ns, run, rfl⟩
    exact ⟨ns, next, run, rfl⟩

/-- A whole list of tokens is read by rules one after another where it is their constructs one after
another. -/
theorem tree_eq_ok_iff (hg : HasCalledRules g)
    (found : g.rules.get? g.root = some (sequence (ruleNames xs))) :
    g.tree ts = .ok n ↔ ts ≠ [] ∧ ∃ ns, Chain Derives xs ts ns ∧ n = .plain .root ns := by
  have lt : ts.length < g.depthBound (.ofTokens ts) := g.rest_lt_depthBound (.ofTokens ts)
  have start : (TokenStream.ofTokens ts).advance = ⟨[], ts, true⟩ := rfl
  have reads := readsExactly_calls (readsExactly_call hg · _) xs ⟨[], ts, true⟩ rfl lt
  rw [Grammar.tree, Grammar.parse, Grammar.parseWithin_fst_eq_ok_iff found, start]
  simp only [sequence_eq_ok_iff, reads]
  constructor
  · rintro ⟨some, next, ⟨ns, ⟨us, ⟨-, rest_eq, -⟩, chain⟩, rfl⟩, none⟩
    have all : ts = us := by
      have left : next.rest = [] := by simpa [TokenStream.hasTokens] using none
      simpa [left] using rest_eq
    exact ⟨by simpa [TokenStream.hasTokens] using some, ns, all ▸ chain, rfl⟩
  · rintro ⟨ne, ns, chain, rfl⟩
    exact ⟨hasTokens_of_ne_nil ne, ⟨ts.reverse, [], true⟩,
      ⟨ns, ⟨ts, ⟨rfl, (List.append_nil ts).symm, (List.append_nil _).symm⟩, chain⟩, rfl⟩, rfl⟩

theorem tree_sequence_eq_ok_iff :
    (grammar.withRule "root" (sequence (ruleNames xs))).tree ts = .ok n ↔
      ts ≠ [] ∧ ∃ ns, Chain Derives xs ts ns ∧ n = .plain .root ns := by
  refine tree_eq_ok_iff ?_ rfl
  simp only [HasCalledRules, calledRules, List.mem_cons, List.not_mem_nil, or_false,
    forall_eq_or_imp, forall_eq]
  exact ⟨rfl, rfl, rfl, rfl, rfl⟩

end Construct

end Syntax

open Syntax
open Construct (ruleNames)

/-- On a stream with a loaded token a rule succeeds just where a sentence of its construct comes next,
and stops behind it, whatever follows. There is one such sentence at most, since none begins with
another. So rules that are run one after another read the sentences of their constructs one after
another, and a grammar that starts with such a sequence takes the token lists that can be split in
this way. -/
theorem constructs_read_exactly {s : TokenStream Token} (loaded : s.loaded = true) :
    (∀ (x : Construct) n,
      ((∃ next, grammar.callOn x.rule.1 s = (.ok n, next)) ↔ ∃ j, s.position < j ∧
        j ≤ s.tokens.length ∧ x.Derives (s.tokens.extract s.position j) n) ∧
      (∀ next, grammar.callOn x.rule.1 s = (.ok n, next) ↔ next.loaded = true ∧
        next.tokens = s.tokens ∧ s.position < next.position ∧
          x.Derives (s.tokens.extract s.position next.position) n) ∧
      ∀ m j k, s.position < j ∧ j ≤ s.tokens.length → s.position < k ∧ k ≤ s.tokens.length →
        x.Derives (s.tokens.extract s.position j) n →
        x.Derives (s.tokens.extract s.position k) m → j = k ∧ n = m) ∧
      (∀ (x : Construct) us vs n m, x.Derives us n → x.Derives vs m → us <+: vs → us = vs ∧ n = m) ∧
      (∀ xs ns next, (ruleNames xs).mapM (m := ParseM Token) grammar.callOn s = (.ok ns, next) ↔
        next.loaded = true ∧ next.tokens = s.tokens ∧ s.position ≤ next.position ∧
          Chain Construct.Derives xs (s.tokens.extract s.position next.position) ns) ∧
      ∀ xs ts n, (grammar.withRule "root" (sequence (ruleNames xs))).tree ts = .ok n ↔
        ts ≠ [] ∧ ∃ ns, Chain Construct.Derives xs ts ns ∧ n = .plain .root ns := by
  refine ⟨fun x n => ⟨Construct.exists_callOn_iff loaded,
    fun next => Construct.callOn_eq_ok_iff loaded, ?_⟩, ?_, ?_, ?_⟩
  · exact fun m j k hj hk h h' => h.eq_of_extract h' hj hk
  · exact fun x us vs n m h h' le => h.eq_of_prefix h' le
  · exact fun xs ns next => (Construct.readsExactly_calls (Construct.readsExactly_callOn · _)
      xs).eq_ok_iff loaded (Nat.lt_succ_self _)
  · exact fun xs ts n => Construct.tree_sequence_eq_ok_iff

/-- In `()1 1` the rules for arguments and values read three tokens and leave the last number. -/
theorem constructs_read_arguments_and_value :
    ∃ (s next last : TokenStream Token) (a v : Node), s.loaded = true ∧ s.tokens.length = 4 ∧
      grammar.callOn "args" s = (.ok a, next) ∧ next.position = 2 ∧
      ["args", "value"].mapM (m := ParseM Token) grammar.callOn s = (.ok [a, v], last) ∧
      last.position = 3 := by
  let opening : Token := ⟨.leftPrt, ascii "(", 1, 1⟩
  let closing : Token := ⟨.rightPrt, ascii ")", 1, 2⟩
  let one : Token := ⟨.num, ascii "1", 1, 3⟩
  let other : Token := ⟨.num, ascii "1", 1, 5⟩
  let s : TokenStream Token := ⟨[], [opening, closing, one, other], true⟩
  have brackets : Construct.args.Derives [opening, closing] (.plain .args []) := Args.none rfl rfl
  have number : Construct.value.Derives [one] (.named .numberLiteral one []) := Value.number rfl
  obtain ⟨single, -, sequences, -⟩ := constructs_read_exactly (s := s) rfl
  refine ⟨s, ⟨[closing, opening], [one, other], true⟩, ⟨[one, closing, opening], [other], true⟩,
    .plain .args [], .named .numberLiteral one [], rfl, rfl,
    ((single .args _).2.1 _).mpr ⟨rfl, rfl, Nat.two_pos, brackets⟩, rfl, ?_, rfl⟩
  exact (sequences [.args, .value] _ _).mpr
    ⟨rfl, rfl, Nat.zero_le 3, .cons brackets (.cons number .nil)⟩

end LittleLang.Decl
