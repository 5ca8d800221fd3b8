import LittleLang.Proofs.Syntax.Lemmas.Reading

/-!
# The rules stop where nothing that is wanted comes next
-/

namespace LittleLang.Decl.Syntax

open ParseM

variable {α β : Type} {t : Token} {ts us : List Token} {w : Wanted} {depth : Nat}

/-- After the tokens `ts` the program wants `w`: it stops before anything else. -/
def Breaks (p : Parse α) (ts : List Token) (w : Wanted) : Prop :=
  ∀ fault, Runs p ts (Outcome.fault fault) (w.Refuses fault)

theorem Breaks.bind {p : Parse α} {f : α → Parse β} (h : Breaks p ts w) : Breaks (p >>= f) ts w :=
  fun fault => (h fault).bind_fault

theorem Breaks.seq {p : Parse α} {f : α → Parse β} {a : α} (hp : Runs p ts (.ok a) anything)
    (hf : Breaks (f a) us w) : Breaks (p >>= f) (ts ++ us) w := fun fault => hp.seq (hf fault)

theorem breaks_current_bind {f : Token → Parse α}
    (hf : ∀ t, w.admits t = false → f t = raise w.fault) : Breaks (current >>= f) [] w := by
  rintro fault passed (_ | ⟨t, rest⟩) ⟨refused, rfl⟩
  · rfl
  · show f t ⟨passed, t :: rest, true⟩ = _
    rw [hf t refused]
    rfl

theorem breaks_expect (kind : TokenKind) : Breaks (expect kind) [] (.kind kind) := by
  refine breaks_current_bind fun t ht => ?_
  simp only [Wanted.kind, beq_eq_false_iff_ne] at ht
  rw [if_neg ht]
  rfl

theorem breaks_ruleCall {rule : String × Rule} (mem : rule ∈ calledRules) {n : Nat}
    (h : ∀ {depth}, n ≤ depth → Breaks (rule.2 (grammar.call depth)) ts w) (lt : n < depth) :
    Breaks (grammar.call depth rule.1) ts w :=
  fun fault => runs_ruleCall mem (fun le => h le fault) lt

/-! ## Phrases without blocks -/

theorem breaks_value (call : RuleCall Token Node) : Breaks (value call) [] .value := by
  refine breaks_current_bind fun t ht => ?_
  simp only [Wanted.value, Option.isSome_eq_false_iff, Option.isNone_iff_eq_none] at ht
  simp only [ht, Wanted.value]

theorem AwaitsBinding.breaks {kind : NodeKind} (h : AwaitsBinding ts w) (pos : 0 < depth) :
    Breaks (binding kind (grammar.call depth)) ts w := by
  cases h with
  | name => exact (breaks_expect .word).bind
  | equals hn => exact .seq (runs_expect hn) (breaks_expect .eql).bind
  | value hn he =>
      refine .seq (runs_expect hn) (.seq (runs_expect he) (Breaks.bind ?_))
      exact breaks_ruleCall value_mem (fun {depth} _ => breaks_value (grammar.call depth)) pos

theorem breaks_nextParam (call : RuleCall Token Node) :
    Breaks (nextParam call) [] .afterParam := by
  refine breaks_current_bind fun t ht => ?_
  simp only [Wanted.afterParam, Wanted.orKind, Wanted.kind, Bool.or_eq_false_iff,
    beq_eq_false_iff_ne] at ht
  split
  · exact absurd ‹_› ht.1
  · exact absurd ‹_› ht.2
  · rfl

/-- Within a parameter the parameter breaks; after a whole one, what comes next does. -/
theorem AwaitsParam.breaks_or_runs (h : AwaitsParam ts w) (pos : 0 < depth) :
    Breaks (param (grammar.call depth)) ts w ∨
      ∃ n, ∀ fault, Runs (param (grammar.call depth)) ts (.ok n) (w.Refuses fault) ∧
        ∀ rest, w.Refuses fault rest → Wanted.afterParam.Refuses fault rest := by
  cases h with
  | name => exact .inl (breaks_expect .word).bind
  | value hn he =>
      refine .inl (.seq (runs_expect hn) fun fault => ?_)
      refine .look_bind (c := true) (fun passed rest _ => by simpa [standsAt_cons] using he) ?_
      refine .advance_bind (Breaks.bind ?_ fault)
      exact breaks_ruleCall value_mem (fun {depth} _ => breaks_value (grammar.call depth)) pos
  | bare hn =>
      refine .inr ⟨_, fun fault => ⟨((Param.bare hn).runs pos).mono ?_, fun rest h => h.of_orKind⟩⟩
      rintro (_ | ⟨t, rest⟩) h u hu
      · cases hu
      · cases hu
        simpa using (Bool.or_eq_false_iff.mp h.1).2
  | withDefault hb =>
      exact .inr ⟨_, fun fault => ⟨hb.runs_param pos, fun rest h => h⟩⟩

theorem AwaitsMore.noDefault (h : AwaitsMore ts w) (rest : List Token) :
    NoDefault (ts ++ rest) := by
  intro t ht
  cases h with
  | param hc => cases ht; simp [hc]
  | later hc => cases ht; simp [hc]

theorem AwaitsMore.breaks (h : AwaitsMore ts w) (pos : 0 < depth) :
    Breaks (collect (nextParam (grammar.call depth))) ts w := by
  induction h with
  | @param comma ts w hc hp =>
      intro fault
      rcases hp.breaks_or_runs pos with h | ⟨n, h⟩
      · refine runs_collect_fault (runs_current_bind ?_)
        simp only [hc]
        exact .advance_bind (h fault).bind_fault
      · obtain ⟨reads, after⟩ := h fault
        have step : Runs (nextParam (grammar.call depth)) (comma :: ts) (.ok (some n))
            (w.Refuses fault) := by
          refine runs_current_bind ?_
          simp only [hc]
          exact .advance_bind reads.bind_pure
        have stop := runs_collect_fault (breaks_nextParam (grammar.call depth) fault)
        have := runs_collect_some step (by simp) (stop.mono after) fun rest h => h
        simpa using this
  | later hc hp hm ih =>
      intro fault
      have := runs_collect_some (hp.runs_nextParam hc pos) (by simp) (ih fault)
        fun rest _ => hm.noDefault rest
      simpa using this

theorem AwaitsParam.head_kind (h : AwaitsParam ts w) (ne : ts ≠ []) :
    ∃ t us, ts = t :: us ∧ t.kind = .word := by
  cases h with
  | name => exact absurd rfl ne
  | value hn => exact ⟨_, _, rfl, hn⟩
  | bare hn => exact ⟨_, _, rfl, hn⟩
  | withDefault hb => exact (Param.withDefault hb).head_kind

theorem AwaitsArgs.breaks (h : AwaitsArgs ts w) (pos : 0 < depth) :
    Breaks (args (grammar.call depth)) ts w := by
  intro fault
  cases h with
  | opening => exact (breaks_expect .leftPrt).bind fault
  | first ho =>
      refine runs_args_params ho ?_ (Runs.mono ((breaks_expect .word).bind.bind fault) ?_)
      · rintro passed (_ | ⟨t, rest⟩) h
        · rfl
        · simpa [standsAt_cons] using (Bool.or_eq_false_iff.mp h.1).2
      · exact fun rest h => h.of_orKind
  | @param opening ts w ho hp ne =>
      refine runs_args_params ho (fun passed rest _ => ?_) ?_
      · obtain ⟨t, us, rfl, ht⟩ := hp.head_kind ne
        simp [standsAt_cons, ht]
      · rcases hp.breaks_or_runs pos with h | ⟨n, h⟩
        · exact h.bind fault
        · obtain ⟨reads, after⟩ := h fault
          have stop := runs_collect_fault (breaks_nextParam (grammar.call depth) fault)
          exact reads.bind_nil (stop.mono after).bind_fault
  | more ho hp hm =>
      refine runs_args_params ho (fun passed rest _ => ?_) ?_
      · obtain ⟨t, us, rfl, ht⟩ := hp.head_kind
        simp [standsAt_cons, ht]
      · exact (hp.runs pos).bind ((hm.breaks pos).bind fault) fun rest _ => hm.noDefault rest

theorem AwaitsArgs.breaks_call (h : AwaitsArgs ts w) (lt : 1 < depth) :
    Breaks (grammar.call depth "args") ts w :=
  breaks_ruleCall args_mem h.breaks lt

/-! ## Declarations, members and blocks -/

theorem breaks_start (phrase : Phrase) (call : RuleCall Token Node) :
    Breaks (phrase.rule.2 call) [] phrase.start := by
  cases phrase with
  | declaration =>
      refine breaks_current_bind fun t ht => ?_
      simp only [Phrase.start, Wanted.keyword, Bool.or_eq_false_iff] at ht
      simp only [ht, Bool.false_eq_true, if_false]
      rfl
  | member =>
      refine breaks_current_bind fun t ht => ?_
      simp only [Phrase.start, Wanted.member, Bool.or_eq_false_iff, beq_eq_false_iff_ne] at ht
      split
      · exact absurd ‹_› ht.1
      · exact absurd ‹_› ht.2
      · rfl
  | block => exact (breaks_expect .leftBrace).bind

/-- After some parts of a block or class, a further part or the closing brace is wanted. -/
theorem breaks_untilBrace_next (phrase : Phrase) {parts : List Part} {g : List Node → Node}
    (h : ∀ p ∈ parts, Derives phrase p.tokens p.tree)
    (reads : ∀ p ∈ parts, Runs (grammar.call depth phrase.rule.1) p.tokens (.ok p.tree) anything)
    (pos : 0 < depth) :
    Breaks (do
        let nodes ← untilBrace (grammar.call depth phrase.rule.1)
        let _ ← expect .rightBrace
        return g nodes)
      (parts.flatMap Part.tokens) (phrase.start.orKind .rightBrace) := by
  -- At the end the loop stops and the brace is missing; before a token the loop goes on.
  rintro fault passed (_ | ⟨t, rest⟩) refused
  · have stop : Runs (untilBrace (grammar.call depth phrase.rule.1)) [] (.ok []) (· = []) := by
      refine runs_collectWhile_stop ?_
      rintro passed rest rfl
      rfl
    have loop := runs_untilBrace_parts h reads stop
    simp only [Outcome.map_ok] at loop
    have missing : Breaks (do let _ ← expect .rightBrace; return g (parts.map Part.tree ++ [])) []
        (.kind .rightBrace) := (breaks_expect .rightBrace).bind
    have ended : Runs (do let _ ← expect .rightBrace; return g (parts.map Part.tree ++ [])) []
        (Outcome.fault fault) (· = []) := (missing fault).mono ?_
    · simpa using loop.bind_nil ended passed [] rfl
    · rintro rest rfl
      exact ⟨rfl, refused.2⟩
  · have start := breaks_ruleCall phrase.rule_mem
      (fun {depth} _ => breaks_start phrase (grammar.call depth)) pos fault
    have stop : Runs (untilBrace (grammar.call depth phrase.rule.1)) [] (Outcome.fault fault)
        fun us => us = t :: rest := by
      refine runs_collectWhile_fault ?_ (start.mono ?_)
      · rintro passed us rfl
        simpa [standsAt_cons, TokenStream.hasTokens] using (Bool.or_eq_false_iff.mp refused.1).2
      · rintro us rfl
        exact refused.of_orKind
    have loop := runs_untilBrace_parts h reads stop
    rw [Outcome.map_fault, List.append_nil] at loop
    exact loop.bind_fault passed (t :: rest) rfl

/-- Within a part of a block or class, what the part wants is wanted. -/
theorem breaks_untilBrace_part {phrase : Phrase} {parts : List Part} {g : List Node → Node}
    (h : ∀ p ∈ parts, Derives phrase p.tokens p.tree)
    (reads : ∀ p ∈ parts, Runs (grammar.call depth phrase.rule.1) p.tokens (.ok p.tree) anything)
    (begins : ∃ t us, ts = t :: us ∧ phrase.beginsWith t.kind = true)
    (breaks : Breaks (grammar.call depth phrase.rule.1) ts w) :
    Breaks (do
        let nodes ← untilBrace (grammar.call depth phrase.rule.1)
        let _ ← expect .rightBrace
        return g nodes)
      (parts.flatMap Part.tokens ++ ts) w := by
  refine Breaks.bind fun fault => ?_
  refine runs_untilBrace_parts h reads
    (runs_collectWhile_fault (fun passed rest _ => ?_) (breaks fault))
  obtain ⟨t, us, rfl, begins⟩ := begins
  exact goes_on begins passed (us ++ rest)

theorem Awaits.beginsWith {phrase} (h : Awaits phrase ts w) (ne : ts ≠ []) :
    ∃ t us, ts = t :: us ∧ phrase.beginsWith t.kind = true := by
  cases h with
  | keyword => exact absurd rfl ne
  | member => exact absurd rfl ne
  | opening => exact absurd rfl ne
  | binding hk =>
      rcases hk with hk | hk | hk <;> exact ⟨_, _, rfl, by simp [Phrase.beginsWith, hk.1]⟩
  | _ => exact ⟨_, _, rfl, by simp_all [Phrase.beginsWith, Token.Spells]⟩

theorem Awaits.breaks {phrase} (h : Awaits phrase ts w) {depth : Nat} (lt : ts.length < depth) :
    Breaks (phrase.rule.2 (grammar.call depth)) ts w := by
  induction h generalizing depth with
  | keyword => exact breaks_start .declaration (grammar.call depth)
  | member => exact breaks_start .member (grammar.call depth)
  | opening => exact breaks_start .block (grammar.call depth)
  | binding hk hb => exact fun fault => runs_declaration_binding hk (hb.breaks (by omega) fault)
  | functionName hk =>
      exact fun fault => runs_declaration_function hk ((breaks_expect .word).bind fault)
  | functionArgs hk hn ha =>
      simp only [List.length_cons] at lt
      refine fun fault => runs_declaration_function hk ((runs_expect hn).seq ?_)
      exact (ha.breaks_call (by omega)).bind fault
  | functionBlock hk hn ha hb ih =>
      simp only [List.length_cons, List.length_append] at lt
      refine fun fault => runs_declaration_function hk ((runs_expect hn).seq ?_)
      refine (ha.runs_call (by omega)).seq ?_
      exact (breaks_ruleCall (Phrase.rule_mem .block) ih (by omega)).bind fault
  | className hk => exact fun fault => runs_declaration_class hk ((breaks_expect .word).bind fault)
  | classOpening hk hn =>
      refine fun fault => runs_declaration_class hk ((runs_expect hn).seq ?_)
      exact (breaks_expect .leftBrace).bind fault
  | classNext hk hn ho hm =>
      simp only [List.length_cons] at lt
      refine fun fault => runs_declaration_class hk ((runs_expect hn).seq ((runs_expect ho).seq ?_))
      exact breaks_untilBrace_next .member hm (reads_parts hm (by omega)) (by omega) fault
  | classMember hk hn ho hm ha ne ih =>
      simp only [List.length_cons, List.length_append] at lt
      refine fun fault => runs_declaration_class hk ((runs_expect hn).seq ((runs_expect ho).seq ?_))
      refine breaks_untilBrace_part hm (reads_parts hm (by omega)) (ha.beginsWith ne) ?_ fault
      exact breaks_ruleCall (Phrase.rule_mem .member) ih (by omega)
  | privateField hm hb => exact fun fault => runs_member_field hm (hb.breaks (by omega) fault)
  | methodArgs hn ha =>
      simp only [List.length_cons] at lt
      exact fun fault => runs_member_method hn ((ha.breaks_call (by omega)).bind fault)
  | methodBlock hn ha hb ih =>
      simp only [List.length_cons, List.length_append] at lt
      refine fun fault => runs_member_method hn ((ha.runs_call (by omega)).seq ?_)
      exact (breaks_ruleCall (Phrase.rule_mem .block) ih (by omega)).bind fault
  | blockNext ho hd =>
      simp only [List.length_cons] at lt
      refine .seq (runs_expect ho) ?_
      exact breaks_untilBrace_next .declaration hd (reads_parts hd (by omega)) (by omega)
  | blockDeclaration ho hd ha ne ih =>
      simp only [List.length_cons, List.length_append] at lt
      refine .seq (runs_expect ho) ?_
      refine breaks_untilBrace_part hd (reads_parts hd (by omega)) (ha.beginsWith ne) ?_
      exact breaks_ruleCall (Phrase.rule_mem .declaration) ih (by omega)

/-! ## The root -/

theorem breaks_rootStep (pos : 0 < depth) :
    Breaks (rootStep (grammar.call depth)) [] .keyword := by
  have start := breaks_ruleCall (Phrase.rule_mem .declaration)
    (fun {depth} _ => breaks_start .declaration (grammar.call depth)) pos
  rintro fault passed (_ | ⟨t, rest⟩) refused
  · obtain ⟨-, rfl⟩ := refused
    rfl
  · by_cases ht : t.kind = .word
    · refine Runs.look_bind (F := (· = t :: rest)) (c := true) ?_ ((start fault).mono ?_)
        passed _ rfl
      · rintro passed us rfl
        simp [standsAt_cons, ht]
      · rintro us rfl
        exact refused
    · refine Runs.look_bind (F := (· = t :: rest)) (c := false) ?_ ?_ passed _ rfl
      · rintro passed us rfl
        simpa [standsAt_cons] using ht
      · rw [refused.2]
        exact runs_raise

theorem AwaitsRoot.breaks (h : AwaitsRoot ts w) (lt : ts.length + 1 < depth) :
    Breaks (root (grammar.call depth)) ts w := by
  rw [root_eq]
  refine Breaks.bind fun fault => ?_
  cases h with
  | @next parts hd =>
      have stop : Runs (collectWhile TokenStream.hasTokens (rootStep (grammar.call depth))) []
          (Outcome.fault fault) (Wanted.keyword.orEnd.Refuses fault) := by
        refine runs_collectWhile_fault ?_ ((breaks_rootStep (by omega) fault).mono ?_)
        · rintro passed (_ | ⟨t, rest⟩) refused
          · cases refused.1
          · rfl
        · rintro (_ | ⟨t, rest⟩) refused
          · cases refused.1
          · exact refused
      simpa using runs_root_parts hd (by omega) stop
  | @declaration parts ts w hd ha ne =>
      simp only [List.length_append] at lt
      have start : Breaks (grammar.call depth "declaration") ts w :=
        breaks_ruleCall (Phrase.rule_mem .declaration) ha.breaks (by omega)
      obtain ⟨t, us, rfl, begins⟩ := ha.beginsWith ne
      refine runs_root_parts hd (by omega) (runs_collectWhile_fault (fun _ _ _ => rfl) ?_)
      exact runs_rootStep (by simpa [Phrase.beginsWith] using begins) (start fault)

/-- Where nothing that is wanted comes next, the whole list has no tree, and the reading has gone
no further. -/
theorem AwaitsRoot.parseWithin (h : AwaitsRoot ts w) {fault : ParseFault} {passed rest : List Token}
    {s : TokenStream Token} (ne : ts ++ rest ≠ []) (refused : w.Refuses fault rest)
    (lt : ts.length + 1 < depth) (here : s.advance = ⟨passed, ts ++ rest, true⟩) :
    grammar.parseWithin depth s = (Outcome.fault fault, ⟨ts.reverse ++ passed, rest, true⟩) :=
  parseWithin_of_runs_fault ne refused (h.breaks lt fault) here

theorem AwaitsRoot.parse (h : AwaitsRoot ts w) {fault : ParseFault} {rest : List Token}
    (ne : ts ++ rest ≠ []) (refused : w.Refuses fault rest) :
    grammar.parse (.ofTokens (ts ++ rest)) =
      (Outcome.fault fault, ⟨ts.reverse, rest, true⟩) := by
  have bound := lt_depthBound (ts ++ rest)
  rw [List.length_append] at bound
  rw [← List.append_nil ts.reverse]
  exact h.parseWithin ne refused (by omega) rfl

end LittleLang.Decl.Syntax
