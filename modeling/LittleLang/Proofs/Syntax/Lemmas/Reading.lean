import LittleLang.Decl.Lemmas.Progress
import LittleLang.Proofs.Parse.Runs
import LittleLang.Proofs.Syntax.Expectation

/-!
# The rules read what the grammar derives
-/

namespace LittleLang.Decl

open ParseM

variable {α : Type} {t : Token} {ts us : List Token} {F : List Token → Prop} {f : Token → Parse α}

/-! ## Single tokens -/

theorem runs_current_bind {o : Outcome ParseFault α} (h : Runs (f t) (t :: ts) o F) :
    Runs (current >>= f) (t :: ts) o F := h

theorem runs_expect {kind : TokenKind} (h : t.kind = kind) : Runs (expect kind) [t] (.ok t) F := by
  refine runs_current_bind ?_
  rw [if_pos h]
  exact .advance_bind runs_pure

theorem standsAt_cons (kind : TokenKind) (passed rest : List Token) :
    standsAt kind ⟨passed, t :: rest, true⟩ = (t.kind == kind) := rfl

theorem isWord_iff {spelling : String} : t.isWord (ascii spelling) = true ↔ t.Spells spelling := by
  simp [Token.isWord, Token.Spells]

theorem isBindingWord_iff :
    isBindingWord t = true ↔ t.Spells "let" ∨ t.Spells "var" ∨ t.Spells "const" := by
  simp only [isBindingWord, Bool.or_eq_true, isWord_iff, or_assoc]

theorem Token.Spells.isWord {a : String} (h : t.Spells a) (b : String) :
    t.isWord (ascii b) = (ascii a == ascii b) := by
  simp [Token.isWord, h.1, h.2]

theorem Token.Spells.isBindingWord {a : String} (h : t.Spells a) : isBindingWord t =
    (ascii a == ascii "let" || ascii a == ascii "var" || ascii a == ascii "const") := by
  simp only [Decl.isBindingWord, h.isWord]

/-- The call of a rule by its name, one level deeper. -/
theorem call_succ {rule : String × Rule} (mem : rule ∈ calledRules) (depth : Nat) :
    grammar.call (depth + 1) rule.1 = rule.2 (grammar.call depth) := by
  simp only [Grammar.call, get?_calledRules rule mem]

theorem value_mem : ("value", value) ∈ calledRules := by simp [calledRules]

theorem args_mem : ("args", args) ∈ calledRules := by simp [calledRules]

theorem runs_ruleCall {rule : String × Rule} (mem : rule ∈ calledRules)
    {o : Outcome ParseFault Node} {n : Nat}
    (h : ∀ {depth}, n ≤ depth → Runs (rule.2 (grammar.call depth)) ts o F) {depth : Nat}
    (lt : n < depth) : Runs (grammar.call depth rule.1) ts o F := by
  cases depth with
  | zero => exact absurd lt (Nat.not_lt_zero n)
  | succ depth =>
      rw [call_succ mem]
      exact h (Nat.le_of_lt_succ lt)

namespace Syntax

variable {depth : Nat}

/-! ## Phrases without blocks -/

theorem Value.runs {v} (h : Value ts v) (call : RuleCall Token Node) :
    Runs (value call) ts (.ok v) F := by
  cases h with
  | number h =>
      refine runs_current_bind ?_
      simp only [literalKind?, h]
      exact .advance_bind runs_pure
  | string h =>
      refine runs_current_bind ?_
      simp only [literalKind?, h]
      exact .advance_bind runs_pure
  | boolean h =>
      refine runs_current_bind ?_
      rcases h with h | h
      all_goals
        simp only [literalKind?, h.1, h.2, true_or, or_true, if_true]
        exact .advance_bind runs_pure

theorem Value.runs_call {v} (h : Value ts v) (pos : 0 < depth) :
    Runs (grammar.call depth "value") ts (.ok v) F :=
  runs_ruleCall value_mem (fun {depth} _ => h.runs (grammar.call depth)) pos

theorem Binding.runs {kind name v} (h : Binding ts name v) (pos : 0 < depth) :
    Runs (binding kind (grammar.call depth)) ts (.ok (.named kind name [v])) F := by
  cases h with
  | mk hn he hv =>
      refine (runs_expect hn).seq ?_
      refine (runs_expect he).seq ?_
      exact (hv.runs_call pos).bind_pure

theorem Binding.runs_param {name v} (h : Binding ts name v) (pos : 0 < depth) :
    Runs (param (grammar.call depth)) ts (.ok (.named .param name [v])) F := by
  cases h with
  | mk hn he hv =>
      refine (runs_expect hn).seq ?_
      refine Runs.look_bind (c := true) (fun passed rest _ => ?_) ?_
      · simpa [standsAt_cons] using he
      · refine .advance_bind ?_
        exact (hv.runs_call pos).bind_pure

/-- The tokens do not go on with an equality sign, which would begin a default value. -/
def NoDefault (rest : List Token) : Prop := ∀ t ∈ rest.head?, t.kind ≠ .eql

theorem Param.runs {n} (h : Param ts n) (pos : 0 < depth) :
    Runs (param (grammar.call depth)) ts (.ok n) NoDefault := by
  cases h with
  | bare hn =>
      refine (runs_expect hn).bind ?_ fun _ h => h
      refine Runs.look_bind (c := false) ?_ runs_pure
      rintro passed (_ | ⟨t, rest⟩) h
      · rfl
      · simpa [standsAt_cons] using h t rfl
  | withDefault hb => exact hb.runs_param pos

theorem Param.runs_nextParam {comma : Token} {n} (hc : comma.kind = .comma) (h : Param ts n)
    (pos : 0 < depth) :
    Runs (nextParam (grammar.call depth)) (comma :: ts) (.ok (some n)) NoDefault := by
  refine runs_current_bind ?_
  simp only [hc]
  exact .advance_bind (h.runs pos).bind_pure

theorem MoreParams.noDefault {ns} (h : MoreParams ts ns) {closing : Token}
    (hc : closing.kind = .rightPrt) (rest : List Token) : NoDefault (ts ++ [closing] ++ rest) := by
  intro t ht
  cases h with
  | none => cases ht; simp [hc]
  | next h => cases ht; simp [h]

theorem MoreParams.runs {ns} (h : MoreParams ts ns) {closing : Token}
    (hc : closing.kind = .rightPrt) (pos : 0 < depth) :
    Runs (collect (nextParam (grammar.call depth))) (ts ++ [closing]) (.ok ns) F := by
  induction h with
  | none =>
      refine runs_collect_none (runs_current_bind ?_)
      simp only [hc]
      exact .advance_bind runs_pure
  | next h hp later ih =>
      have step := hp.runs_nextParam h pos
      have := runs_collect_some step (by simp) ih fun rest _ => later.noDefault hc rest
      simpa using this

/-- Within the brackets, where they are not closed at once. -/
theorem runs_args_params {opening : Token} {o : Outcome ParseFault Node}
    {call : RuleCall Token Node}
    (ho : opening.kind = .leftPrt)
    (go : ∀ passed rest, F rest → standsAt .rightPrt ⟨passed, ts ++ rest, true⟩ = false)
    (h : Runs (do
        let first ← param call
        let others ← collect (nextParam call)
        return .plain .args (first :: others)) ts o F) :
    Runs (args call) (opening :: ts) o F :=
  (runs_expect ho).seq (.look_bind (c := false) go h)

theorem Param.head_kind {n} (h : Param ts n) : ∃ t us, ts = t :: us ∧ t.kind = .word := by
  cases h with
  | bare hn => exact ⟨_, _, rfl, hn⟩
  | withDefault hb => cases hb with | mk hn => exact ⟨_, _, rfl, hn⟩

theorem Args.runs {n} (h : Args ts n) (pos : 0 < depth) :
    Runs (args (grammar.call depth)) ts (.ok n) F := by
  cases h with
  | none ho hc =>
      refine (runs_expect ho).seq ?_
      refine .look_bind (c := true) (fun passed rest _ => ?_) (.advance_bind runs_pure)
      simp [standsAt_cons, hc]
  | some ho hp hm hc =>
      refine runs_args_params ho (fun passed rest _ => ?_) ?_
      · obtain ⟨t, us, rfl, ht⟩ := hp.head_kind
        simp [standsAt_cons, ht]
      · refine (hp.runs pos).bind ?_ fun rest _ => hm.noDefault hc rest
        exact (hm.runs hc pos).bind_pure

theorem Args.runs_call {n} (h : Args ts n) (lt : 1 < depth) :
    Runs (grammar.call depth "args") ts (.ok n) F :=
  runs_ruleCall args_mem h.runs lt

/-! ## Declarations, members and blocks -/

/-- The kinds of tokens that a phrase can begin with. -/
def Phrase.beginsWith : Phrase → TokenKind → Bool
  | .declaration, kind => kind == .word
  | .member, kind => kind == .hash || kind == .word
  | .block, kind => kind == .leftBrace

/-- The rule that reads a phrase, with its name. -/
def Phrase.rule : Phrase → String × Rule
  | .declaration => ("declaration", Decl.declaration)
  | .member => ("member", Decl.member)
  | .block => ("block", Decl.block)

theorem Phrase.rule_mem (phrase : Phrase) : phrase.rule ∈ calledRules := by
  cases phrase <;> simp [rule, calledRules]

theorem Derives.beginsWith {phrase n} (h : Derives phrase ts n) :
    ∃ t us, ts = t :: us ∧ phrase.beginsWith t.kind = true := by
  cases h with
  | varDeclaration hk =>
      rcases hk with hk | hk | hk <;> exact ⟨_, _, rfl, by simp [Phrase.beginsWith, hk.1]⟩
  | funcDeclaration hk => exact ⟨_, _, rfl, by simp [Phrase.beginsWith, hk.1]⟩
  | classDeclaration hk => exact ⟨_, _, rfl, by simp [Phrase.beginsWith, hk.1]⟩
  | privateField h => exact ⟨_, _, rfl, by simp [Phrase.beginsWith, h]⟩
  | method h => exact ⟨_, _, rfl, by simp [Phrase.beginsWith, h]⟩
  | block h => exact ⟨_, _, rfl, by simp [Phrase.beginsWith, h]⟩

/-- The loop over the parts of a block or class goes on at the first token of a part. -/
theorem goes_on {phrase : Phrase} (h : phrase.beginsWith t.kind = true) (passed rest : List Token) :
    ((⟨passed, t :: rest, true⟩ : TokenStream Token).hasTokens &&
      !standsAt .rightBrace ⟨passed, t :: rest, true⟩) = true := by
  simp only [TokenStream.hasTokens, standsAt_cons, List.isEmpty_cons, Bool.not_false, Bool.true_and]
  cases phrase <;> simp only [Phrase.beginsWith, Bool.or_eq_true, beq_iff_eq] at h
  · simp [h]
  · rcases h with h | h <;> simp [h]
  · simp [h]

/-! The branches of the rules for declarations and members. -/

theorem runs_declaration_binding {o : Outcome ParseFault Node} {call : RuleCall Token Node}
    (ht : t.Spells "let" ∨ t.Spells "var" ∨ t.Spells "const")
    (h : Runs (binding .varDeclaration call) ts o F) : Runs (declaration call) (t :: ts) o F := by
  refine runs_current_bind ?_
  rw [if_pos (isBindingWord_iff.mpr ht)]
  exact .advance_bind h

theorem runs_declaration_function {o : Outcome ParseFault Node} {call : RuleCall Token Node}
    (ht : t.Spells "function")
    (h : Runs (do callable .funcDeclaration (← expect .word) call) ts o F) :
    Runs (declaration call) (t :: ts) o F := by
  refine runs_current_bind ?_
  rw [if_neg (by rw [ht.isBindingWord]; decide), if_pos (by rw [ht.isWord]; decide)]
  exact .advance_bind h

theorem runs_declaration_class {o : Outcome ParseFault Node} {call : RuleCall Token Node}
    (ht : t.Spells "class")
    (h : Runs (do
        let name ← expect .word
        let _ ← expect .leftBrace
        let members ← untilBrace (call "member")
        let _ ← expect .rightBrace
        return .named .classDeclaration name members) ts o F) :
    Runs (declaration call) (t :: ts) o F := by
  refine runs_current_bind ?_
  rw [if_neg (by rw [ht.isBindingWord]; decide), if_neg (by rw [ht.isWord]; decide),
    if_pos (by rw [ht.isWord]; decide)]
  exact .advance_bind h

theorem runs_member_field {o : Outcome ParseFault Node} {call : RuleCall Token Node}
    (ht : t.kind = .hash) (h : Runs (binding .privateField call) ts o F) :
    Runs (member call) (t :: ts) o F := by
  refine runs_current_bind ?_
  simp only [ht]
  exact .advance_bind h

theorem runs_member_method {o : Outcome ParseFault Node} {call : RuleCall Token Node}
    (ht : t.kind = .word) (h : Runs (callable .method t call) ts o F) :
    Runs (member call) (t :: ts) o F := by
  refine runs_current_bind ?_
  simp only [ht]
  exact .advance_bind h

/-- The loop over the parts of a block or class passes whole parts. -/
theorem runs_untilBrace_parts {phrase : Phrase} {parts : List Part}
    {o : Outcome ParseFault (List Node)} (h : ∀ p ∈ parts, Derives phrase p.tokens p.tree)
    (reads : ∀ p ∈ parts, Runs (grammar.call depth phrase.rule.1) p.tokens (.ok p.tree) anything)
    (later : Runs (untilBrace (grammar.call depth phrase.rule.1)) us o F) :
    Runs (untilBrace (grammar.call depth phrase.rule.1)) (parts.flatMap Part.tokens ++ us)
      ((parts.map Part.tree ++ ·) <$> o) F := by
  refine runs_collectWhile_parts (fun p hp => ⟨reads p hp, (h p hp).ne_nil, ?_⟩) later
  intro passed rest
  obtain ⟨t, us, eq, begins⟩ := (h p hp).beginsWith
  rw [eq]
  exact goes_on begins passed (us ++ rest)

/-- The parts of a block or class, with the closing brace. -/
theorem runs_untilBrace_closing (phrase : Phrase) {parts : List Part} {closing : Token}
    {g : List Node → Node} (hc : closing.kind = .rightBrace)
    (h : ∀ p ∈ parts, Derives phrase p.tokens p.tree)
    (reads : ∀ p ∈ parts, Runs (grammar.call depth phrase.rule.1) p.tokens (.ok p.tree) anything) :
    Runs (do
        let nodes ← untilBrace (grammar.call depth phrase.rule.1)
        let _ ← expect .rightBrace
        return g nodes)
      (parts.flatMap Part.tokens ++ [closing]) (.ok (g (parts.map Part.tree))) F := by
  have stop : Runs (untilBrace (grammar.call depth phrase.rule.1)) [] (.ok [])
      fun rest => ∃ us, rest = closing :: us := by
    refine runs_collectWhile_stop ?_
    rintro passed rest ⟨us, rfl⟩
    simp [standsAt_cons, hc]
  have loop := runs_untilBrace_parts h reads stop
  simp only [Outcome.map_ok, List.append_nil] at loop
  exact loop.bind (runs_expect hc).bind_pure fun rest _ => ⟨rest, rfl⟩

theorem runs_callable {kind : NodeKind} {name : Token} {a b : Node} (ha : Args ts a)
    (hb : Runs (grammar.call depth "block") us (.ok b) anything) (lt : 1 < depth) :
    Runs (callable kind name (grammar.call depth)) (ts ++ us)
      (.ok (.named kind name [a, b])) F := by
  refine (ha.runs_call lt).seq ?_
  exact (hb.mono fun _ _ => trivial).bind_pure

theorem length_le_flatMap {parts : List Part} {p : Part} (h : p ∈ parts) :
    p.tokens.length ≤ (parts.flatMap Part.tokens).length := by
  obtain ⟨before, after, rfl⟩ := List.append_of_mem h
  simp only [List.flatMap_append, List.flatMap_cons, List.length_append]
  omega

theorem Args.two_le_length {n} (h : Args ts n) : 2 ≤ ts.length := by
  cases h with
  | none => exact Nat.le_refl 2
  | some =>
      simp only [List.length_cons, List.length_append, List.length_nil]
      omega

/-- A call that is nested no deeper than the phrase is long reads the phrase, whatever follows. -/
theorem Derives.runs {phrase n} (h : Derives phrase ts n) {depth : Nat} (le : ts.length ≤ depth) :
    Runs (phrase.rule.2 (grammar.call depth)) ts (.ok n) anything := by
  -- Each call costs one level, and each phrase within another is shorter by at least one token.
  induction h generalizing depth with
  | varDeclaration hk hb =>
      simp only [List.length_cons] at le
      exact runs_declaration_binding hk (hb.runs (by omega))
  | funcDeclaration hk hn ha hb ih =>
      have := ha.two_le_length
      simp only [List.length_cons, List.length_append] at le
      refine runs_declaration_function hk ((runs_expect hn).seq ?_)
      exact runs_callable ha (runs_ruleCall (Phrase.rule_mem .block) ih (by omega)) (by omega)
  | classDeclaration hk hn ho hm hc ih =>
      refine runs_declaration_class hk ((runs_expect hn).seq ((runs_expect ho).seq ?_))
      refine runs_untilBrace_closing .member hc hm fun p hp => ?_
      have := length_le_flatMap hp
      simp only [List.length_cons, List.length_append] at le
      exact runs_ruleCall (Phrase.rule_mem .member) (ih p hp) (by omega)
  | privateField hm hb =>
      simp only [List.length_cons] at le
      exact runs_member_field hm (hb.runs (by omega))
  | method hn ha hb ih =>
      have := ha.two_le_length
      simp only [List.length_cons, List.length_append] at le
      refine runs_member_method hn ?_
      exact runs_callable ha (runs_ruleCall (Phrase.rule_mem .block) ih (by omega)) (by omega)
  | block ho hd hc ih =>
      refine (runs_expect ho).seq ?_
      refine runs_untilBrace_closing .declaration hc hd fun p hp => ?_
      have := length_le_flatMap hp
      simp only [List.length_cons, List.length_append] at le
      exact runs_ruleCall (Phrase.rule_mem .declaration) (ih p hp) (by omega)

theorem reads_parts {phrase : Phrase} {parts : List Part}
    (h : ∀ p ∈ parts, Derives phrase p.tokens p.tree)
    (lt : (parts.flatMap Part.tokens).length < depth) (p : Part) (hp : p ∈ parts) :
    Runs (grammar.call depth phrase.rule.1) p.tokens (.ok p.tree) anything :=
  runs_ruleCall phrase.rule_mem (h p hp).runs (Nat.lt_of_le_of_lt (length_le_flatMap hp) lt)

/-! ## The root -/

/-- One round of the loop over the declarations of the root. -/
def rootStep (call : RuleCall Token Node) : Parse Node := do
  if ← look (standsAt .word) then call "declaration" else raise .invalidSyntax

theorem root_eq (call : RuleCall Token Node) : root call = do
    let declarations ← collectWhile TokenStream.hasTokens (rootStep call)
    return .plain .root declarations := rfl

theorem runs_rootStep {o : Outcome ParseFault Node} (ht : t.kind = .word)
    (h : Runs (grammar.call depth "declaration") (t :: ts) o F) :
    Runs (rootStep (grammar.call depth)) (t :: ts) o F :=
  .look_bind (c := true) (fun passed rest _ => by simp [standsAt_cons, ht]) h

/-- The loop over the declarations of the root passes whole declarations. -/
theorem runs_root_parts {parts : List Part} {o : Outcome ParseFault (List Node)}
    (h : ∀ p ∈ parts, Derives .declaration p.tokens p.tree)
    (lt : (parts.flatMap Part.tokens).length < depth)
    (later : Runs (collectWhile TokenStream.hasTokens (rootStep (grammar.call depth))) us o F) :
    Runs (collectWhile TokenStream.hasTokens (rootStep (grammar.call depth)))
      (parts.flatMap Part.tokens ++ us) ((parts.map Part.tree ++ ·) <$> o) F := by
  refine runs_collectWhile_parts (fun p hp => ?_) later
  have reads := reads_parts h lt p hp
  obtain ⟨t, us, eq, begins⟩ := (h p hp).beginsWith
  rw [eq] at reads ⊢
  exact ⟨runs_rootStep (by simpa [Phrase.beginsWith] using begins) reads, by simp, fun _ _ => rfl⟩

theorem Root.runs {n} (h : Root ts n) (lt : ts.length < depth) :
    Runs (root (grammar.call depth)) ts (.ok n) (· = []) := by
  cases h with
  | @mk parts ne hd =>
      rw [root_eq]
      have stop : Runs (collectWhile TokenStream.hasTokens (rootStep (grammar.call depth))) []
          (.ok []) (· = []) := by
        refine runs_collectWhile_stop ?_
        rintro passed rest rfl
        rfl
      have loop := runs_root_parts hd lt stop
      simp only [Outcome.map_ok, List.append_nil] at loop
      exact loop.bind_pure

theorem Root.ne_nil {n} (h : Root ts n) : ts ≠ [] := by
  cases h with
  | @mk parts ne hd =>
      cases parts with
      | nil => exact absurd rfl ne
      | cons p parts =>
          have := (hd p List.mem_cons_self).ne_nil
          simp [this]

/-! ## Whole lists of tokens -/

variable {passed tokens : List Token} {s : TokenStream Token} {n : Node}

theorem lt_depthBound_of_pending (h : tokens.length < s.pending) :
    tokens.length + 1 < grammar.depthBound s := by
  have le : s.pending + 1 ≤ (s.pending + 1) * (grammar.rules.size + 1) :=
    Nat.le_mul_of_pos_right _ (Nat.succ_pos _)
  exact Nat.lt_of_lt_of_le (Nat.succ_lt_succ h) le

theorem lt_depthBound (tokens : List Token) :
    tokens.length + 1 < grammar.depthBound (.ofTokens tokens) :=
  lt_depthBound_of_pending (Nat.lt_succ_self tokens.length)

theorem hasTokens_of_ne_nil (ne : tokens ≠ []) :
    (⟨passed, tokens, true⟩ : TokenStream Token).hasTokens = true := by
  simpa [TokenStream.hasTokens] using ne

theorem parseWithin_nil (here : s.advance = ⟨passed, [], true⟩) :
    grammar.parseWithin depth s = (Outcome.fault .nothingToParse, ⟨passed, [], true⟩) := by
  rw [Grammar.parseWithin_eq get?_root, here]
  rfl

theorem Root.parseWithin (h : Root tokens n) (lt : tokens.length < depth)
    (here : s.advance = ⟨passed, tokens, true⟩) :
    grammar.parseWithin depth s = (.ok n, ⟨tokens.reverse ++ passed, [], true⟩) := by
  have run := h.runs lt passed [] rfl
  rw [List.append_nil] at run
  rw [Grammar.parseWithin_eq get?_root, here, if_pos (hasTokens_of_ne_nil h.ne_nil), run]
  rfl

theorem parseWithin_of_runs_fault {rest : List Token} {fault : ParseFault} (ne : ts ++ rest ≠ [])
    (hF : F rest) (h : Runs (root (grammar.call depth)) ts (Outcome.fault fault) F)
    (here : s.advance = ⟨passed, ts ++ rest, true⟩) :
    grammar.parseWithin depth s = (Outcome.fault fault, ⟨ts.reverse ++ passed, rest, true⟩) := by
  rw [Grammar.parseWithin_eq get?_root, here, if_pos (hasTokens_of_ne_nil ne), h passed rest hF]
  rfl

theorem parse_nil : grammar.parse (.ofTokens []) =
    (Outcome.fault .nothingToParse, ⟨[], [], true⟩) := parseWithin_nil rfl

theorem Root.parse (h : Root tokens n) :
    grammar.parse (.ofTokens tokens) = (.ok n, ⟨tokens.reverse, [], true⟩) := by
  rw [← List.append_nil tokens.reverse]
  exact h.parseWithin (Nat.lt_of_succ_lt (lt_depthBound tokens)) rfl

end Syntax
end LittleLang.Decl
