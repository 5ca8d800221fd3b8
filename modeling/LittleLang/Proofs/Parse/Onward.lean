import LittleLang.Language
import LittleLang.Proofs.Parse.Moves

/-!
# Streams go onward

Whatever grammars a stream is parsed by, and in whatever order it is advanced and parsed, it keeps
its tokens and goes onward, to their end at most.
-/

namespace LittleLang

/-! ## One parse -/

namespace Grammar

variable {τ ν : Type} {g : Grammar τ ν} {rule : GrammarRule τ ν} {s u : TokenStream τ}
  {o : Except ParseFault ν} {node : ν}

/-- The parse of `s` comes to an end, at some depth of calls, with the outcome `o` and the stream
`next`. -/
def Returns (g : Grammar τ ν) (s : TokenStream τ) (o : Except ParseFault ν)
    (next : TokenStream τ) : Prop :=
  ∃ depth, g.parseWithin depth s = (o.mapError .raised, next)

theorem returns_of_parse (h : g.parse s = (o.mapError .raised, u)) : g.Returns s o u := ⟨_, h⟩

theorem OnlyAdvances.parseWithin_reaches (hg : g.OnlyAdvances)
    (found : g.rules.get? g.root = some rule) (depth : Nat) (s : TokenStream τ) :
    s.advance.Reaches (g.parseWithin depth s).2 := by
  have moved := hg g.root rule found (g.call depth) (hg.call depth) s.advance
  rw [parseWithin_eq found]
  split
  · rcases run : rule (g.call depth) s.advance with ⟨failure | node, next⟩
    · rw [run] at moved
      exact moved
    · rw [run] at moved
      exact moved
  · exact .refl

theorem OnlyAdvances.parseWithin (hg : g.OnlyAdvances) (depth : Nat) :
    (g.parseWithin depth).OnlyAdvances := by
  intro s
  cases registered : g.hasRule g.root with
  | false =>
      rw [parseWithin_of_missing registered]
      exact .refl
  | true =>
      obtain ⟨rule, found⟩ := exists_root registered
      exact .trans (.advance .refl) (hg.parseWithin_reaches found depth s)

theorem Returns.reaches (hg : g.OnlyAdvances) (h : g.Returns s o u) : s.Reaches u := by
  obtain ⟨depth, run⟩ := h
  have moved := hg.parseWithin depth s
  rw [run] at moved
  exact moved

theorem Returns.read_all (h : g.Returns s (.ok node) u) :
    u.hasTokens = false ∧ g.hasRule g.root = true := by
  obtain ⟨depth, run⟩ := h
  cases registered : g.hasRule g.root with
  | false =>
      rw [parseWithin_of_missing registered] at run
      cases run
  | true =>
      obtain ⟨rule, found⟩ := exists_root registered
      rw [parseWithin_eq found] at run
      split at run
      · rcases first : rule (g.call depth) s.advance with ⟨failure | node', next⟩
        · rw [first] at run
          cases run
        · rw [first] at run
          simp only [Prod.mk.injEq] at run
          obtain ⟨outcome, rfl⟩ := run
          split at outcome
          · cases outcome
          · rename_i none
            exact ⟨Bool.eq_false_iff.mpr none, rfl⟩
      · cases run

theorem parseWithin_of_end (registered : g.hasRule g.root = true) (loaded : s.loaded = true)
    (none : s.hasTokens = false) (depth : Nat) :
    g.parseWithin depth s = (Outcome.fault .nothingToParse, s) := by
  obtain ⟨rule, found⟩ := exists_root registered
  rw [parseWithin_eq found, TokenStream.advance_of_end loaded none, if_neg (by simp [none])]

end Grammar

/-! ## One stream -/

section Uses

variable {τ : Type} {s t u v : TokenStream τ} {ts : List τ}

/-- The stream `s` is advanced and parsed, in any order and by any grammars whose rules only advance
it, and becomes the other stream. The parses come to an end, with a tree or a fault. -/
inductive Uses (s : TokenStream τ) : TokenStream τ → Prop
  | refl : Uses s s
  | advance {t : TokenStream τ} : Uses s t → Uses s t.advance
  | parse {ν : Type} {g : Grammar τ ν} {o : Except ParseFault ν} {t u : TokenStream τ} :
      g.OnlyAdvances → Uses s t → g.Returns t o u → Uses s u

theorem Uses.reaches (h : Uses s t) : s.Reaches t := by
  induction h with
  | refl => exact .refl
  | advance _ ih => exact ih.advance
  | parse hg _ run ih => exact ih.trans (run.reaches hg)

/-- A parse with a tree ends the use of a stream: what comes after it changes nothing. -/
theorem Grammar.Returns.last {ν : Type} {g : Grammar τ ν} {node : ν} (hg : g.OnlyAdvances)
    (h : g.Returns s (.ok node) u) (later : Uses u v) :
    v = u ∧ u.loaded = true ∧ u.hasTokens = false := by
  obtain ⟨none, registered⟩ := h.read_all
  obtain ⟨rule, found⟩ := Grammar.exists_root registered
  obtain ⟨depth, run⟩ := h
  have moved := hg.parseWithin_reaches found depth s
  rw [run] at moved
  have loaded := moved.loaded (TokenStream.loaded_advance s)
  exact ⟨later.reaches.eq_of_end loaded none, loaded, none⟩

end Uses

/-! ## Languages -/

namespace Language

variable {τ ν : Type} {l : Language τ ν} {fault : ParseFault} {index : Nat} {tokens : List τ}

theorem index_le_of_parse (hl : l.grammar.OnlyAdvances)
    (h : l.parse tokens = .error (.raised (.syntactic fault index))) : index ≤ tokens.length := by
  obtain ⟨e, -, same⟩ := Outcome.mapFault_eq_fault_iff.mp h
  cases same
  have moved := hl.parseWithin (l.grammar.depthBound (.ofTokens tokens)) (.ofTokens tokens)
  have inside := TokenStream.position_le_length (l.grammar.parse (.ofTokens tokens)).2
  rw [show (l.grammar.parse (.ofTokens tokens)).2.tokens = tokens from moved.tokens_eq] at inside
  exact inside

/-- A text whose tokens have no tree has tokens. -/
theorem parse_of_compile [Branching ν] {text : List UInt8}
    (h : l.compile text = .error (.raised (.syntactic fault index))) :
    ∃ tokens, l.tokenize text = .ok tokens ∧
      l.parse tokens = .error (.raised (.syntactic fault index)) := by
  rw [compile] at h
  cases lexed : l.tokenize text with
  | error failure =>
      rw [lexed] at h
      cases h
      obtain ⟨e, -, same⟩ := Outcome.mapFault_eq_fault_iff.mp lexed
      cases same
  | ok tokens =>
      rw [lexed] at h
      refine ⟨tokens, rfl, ?_⟩
      cases parsed : l.parse tokens with
      | error failure =>
          have stops : (l.parse tokens >>= l.render) = .error failure := by
            rw [parsed]
            rfl
          exact congrArg Except.error (Except.error.inj (stops.symm.trans h))
      | ok tree =>
          have goes : (l.parse tokens >>= l.render) = l.render tree := by
            rw [parsed]
            rfl
          obtain ⟨e, -, same⟩ := Outcome.mapFault_eq_fault_iff.mp (goes.symm.trans h)
          cases same

end Language

/-! ## Any use of a stream -/

/-- However a stream of tokens is advanced and parsed, its tokens stay and it goes onward, and never
past them. A grammar without a rule to start from leaves it as it is, a tree takes all tokens, and
after a tree there is nothing to parse. So where a language has a fault in its tokens, the index is
at most their number. -/
theorem streams_go_onward {τ : Type} {ts : List τ} {s t : TokenStream τ}
    (before : Uses (.ofTokens ts) s) (after : Uses s t) :
    (t.tokens = ts ∧ s.position ≤ t.position ∧ t.position ≤ ts.length) ∧
      (∀ {ν : Type} (g : Grammar τ ν), g.hasRule g.root = false → ∀ depth,
        g.parseWithin depth t = (Outcome.fault (.rootRuleMissing g.root), t)) ∧
      (∀ {ν : Type} (g : Grammar τ ν) node u, g.OnlyAdvances → g.Returns t (.ok node) u →
        u.hasTokens = false ∧ ∀ v, Uses u v → ∀ {μ : Type} (h : Grammar τ μ),
          h.hasRule h.root = true → ∀ depth,
            h.parseWithin depth v = (Outcome.fault .nothingToParse, v)) ∧
      ∀ {ν : Type} (l : Language τ ν), l.grammar.OnlyAdvances → ∀ fault index,
        (l.parse ts = .error (.raised (.syntactic fault index)) → index ≤ ts.length) ∧
          ∀ [Branching ν] text, l.compile text = .error (.raised (.syntactic fault index)) →
            l.tokenize text = .ok ts → index ≤ ts.length := by
  refine ⟨⟨?_, ?_, ?_⟩, ?_, ?_, ?_⟩
  · exact (before.reaches.trans after.reaches).tokens_eq
  · exact after.reaches.position_le
  · have inside := t.position_le_length
    rw [(before.reaches.trans after.reaches).tokens_eq] at inside
    exact inside
  · intro ν g missing depth
    exact Grammar.parseWithin_of_missing missing depth t
  · intro ν g node u hg run
    refine ⟨run.read_all.1, fun v later μ h registered depth => ?_⟩
    obtain ⟨rfl, loaded, none⟩ := run.last hg later
    exact Grammar.parseWithin_of_end registered loaded none depth
  · intro ν l hl fault index
    refine ⟨Language.index_le_of_parse hl, fun text stops lexed => ?_⟩
    obtain ⟨tokens, lexed', parsed⟩ := Language.parse_of_compile stops
    cases lexed.symm.trans lexed'
    exact Language.index_le_of_parse hl parsed

/-- Of five tokens a grammar of pairs reads two and has some left over. The next parse passes the
third and reads the others. -/
theorem streams_go_onward_past_leftovers :
    ∃ (g : Grammar Script.Token Script.Tree) (ts : List Script.Token)
      (s t : TokenStream Script.Token) (node : Script.Tree),
      g.OnlyAdvances ∧ g.Returns (.ofTokens ts) (.error .unhandledToken) s ∧ s.position = 2 ∧
      g.Returns s (.ok node) t ∧ Uses (.ofTokens ts) s ∧ Uses s t ∧
      (t.tokens = ts ∧ s.position ≤ t.position ∧ t.position ≤ ts.length) ∧
      (Script.grammar "none" []).parse t = (Outcome.fault (.rootRuleMissing "none"), t) ∧
      t.hasTokens = false ∧ g.parse t.advance = (Outcome.fault .nothingToParse, t.advance) ∧
      ∃ l : Language Script.Token Script.Tree, l.grammar = g ∧
        l.parse ts = .error (.raised (.syntactic .unhandledToken 2)) ∧ 2 ≤ ts.length := by
  have a : Script.Token := ⟨0, ascii "a", ⟨1, 1, 0⟩⟩
  obtain ⟨g, advances, first, node, second⟩ : ∃ g : Grammar Script.Token Script.Tree,
      g.OnlyAdvances ∧ g.parse (.ofTokens [a, a, a, a, a]) =
        (.error (.raised .unhandledToken), ⟨[a, a], [a, a, a], true⟩) ∧
      ∃ node, g.parse ⟨[a, a], [a, a, a], true⟩ = (.ok node, ⟨[a, a, a, a, a], [], true⟩) :=
    ⟨Script.grammar "pair" [("pair", [.take, .call "item"]), ("item", [.take])],
      Script.grammar_onlyAdvances _ _, rfl, _, rfl⟩
  have fails : g.Returns (.ofTokens [a, a, a, a, a]) (.error .unhandledToken) _ :=
    Grammar.returns_of_parse first
  have succeeds : g.Returns ⟨[a, a], [a, a, a], true⟩ (.ok node) _ :=
    Grammar.returns_of_parse second
  have before := Uses.parse advances .refl fails
  have after := Uses.parse advances .refl succeeds
  obtain ⟨onward, missing, -, index⟩ := streams_go_onward before after
  obtain ⟨-, -, last, -⟩ := streams_go_onward before .refl
  obtain ⟨none, ends⟩ := last g node _ advances succeeds
  have registered := succeeds.read_all.2
  have stops : Language.parse ⟨Script.lexicon .none [], g, ⟨[]⟩⟩ [a, a, a, a, a] =
      .error (.raised (.syntactic .unhandledToken 2)) := by
    simp only [Language.parse, first]
    rfl
  exact ⟨g, _, _, _, node, advances, fails, rfl, succeeds, before, after, onward, missing _ rfl _,
    none, ends _ (.advance .refl) g registered _, _, rfl, stops, (index _ advances _ _).1 stops⟩

end LittleLang
