import LittleLang.Parse.Grammar

/-!
# Runs of a parsing program

`Runs p ts o follow` gives the outcome of `p` on every stream that begins with `ts`, as far as it
depends on nothing but `ts` and a condition on the tokens after them.
-/

namespace LittleLang

@[simp] theorem Outcome.map_ok {ε α β : Type} (f : α → β) (a : α) :
    f <$> (.ok a : Outcome ε α) = .ok (f a) := rfl

@[simp] theorem Outcome.map_fault {ε α β : Type} (f : α → β) (e : ε) :
    f <$> (fault e : Outcome ε α) = fault e := rfl

namespace ParseM

variable {τ α β : Type}

/-- Where tokens that satisfy `follow` come after `ts`, the program reads exactly `ts` and comes to
the outcome `o`. -/
def Runs (p : ParseM τ α) (ts : List τ) (o : Outcome ParseFault α) (follow : List τ → Prop) :
    Prop :=
  ∀ passed rest, follow rest →
    p ⟨passed, ts ++ rest, true⟩ = (o, ⟨ts.reverse ++ passed, rest, true⟩)

/-- The condition on what follows that always holds. -/
abbrev anything : List τ → Prop := fun _ => True

variable {p : ParseM τ α} {ts us : List τ} {a : α} {f : α → ParseM τ β} {F G : List τ → Prop}

theorem bind_of_ok {s next : TokenStream τ} (h : p s = (.ok a, next)) : (p >>= f) s = f a next := by
  simp only [bind, h]

theorem bind_of_error {s next : TokenStream τ} {failure : Failure ParseFault}
    (h : p s = (.error failure, next)) : (p >>= f) s = (.error failure, next) := by
  simp only [bind, h]

theorem Runs.mono {o : Outcome ParseFault α} (h : Runs p ts o F) (hFG : ∀ rest, G rest → F rest) :
    Runs p ts o G := fun passed rest hG => h passed rest (hFG rest hG)

theorem runs_pure : Runs (pure a : ParseM τ α) [] (.ok a) F := fun _ _ _ => rfl

theorem runs_raise {fault : ParseFault} :
    Runs (raise fault : ParseM τ α) [] (Outcome.fault fault) F := fun _ _ _ => rfl

theorem Runs.bind {o : Outcome ParseFault β} (hp : Runs p ts (.ok a) F) (hf : Runs (f a) us o G)
    (hFG : ∀ rest, G rest → F (us ++ rest)) : Runs (p >>= f) (ts ++ us) o G := by
  intro passed rest hG
  have first := hp passed (us ++ rest) (hFG rest hG)
  rw [List.append_assoc, bind_of_ok first]
  simpa only [List.reverse_append, List.append_assoc] using hf (ts.reverse ++ passed) rest hG

theorem Runs.seq {o : Outcome ParseFault β} (hp : Runs p ts (.ok a) anything)
    (hf : Runs (f a) us o G) : Runs (p >>= f) (ts ++ us) o G := hp.bind hf fun _ _ => trivial

/-- The rest of the program reads nothing. -/
theorem Runs.bind_nil {o : Outcome ParseFault β} (hp : Runs p ts (.ok a) F)
    (hf : Runs (f a) [] o F) : Runs (p >>= f) ts o F := by
  rw [← List.append_nil ts]
  exact hp.bind hf fun rest h => h

theorem Runs.bind_pure {g : α → β} (hp : Runs p ts (.ok a) F) :
    Runs (p >>= fun a => pure (g a)) ts (.ok (g a)) F := hp.bind_nil runs_pure

theorem Runs.bind_fault {fault : ParseFault} (hp : Runs p ts (Outcome.fault fault) F) :
    Runs (p >>= f) ts (Outcome.fault fault) F := by
  intro passed rest hF
  exact bind_of_error (hp passed rest hF)

theorem Runs.advance_bind {t : τ} {q : Unit → ParseM τ α} {o : Outcome ParseFault α}
    (h : Runs (q ()) ts o F) : Runs (advance >>= q) (t :: ts) o F := by
  intro passed rest hF
  show q () ⟨t :: passed, ts ++ rest, true⟩ = _
  simpa only [List.reverse_cons, List.append_assoc, List.cons_append, List.nil_append]
    using h (t :: passed) rest hF

theorem Runs.look_bind {γ : Type} {observation : TokenStream τ → γ} {g : γ → ParseM τ α} {c : γ}
    {o : Outcome ParseFault α}
    (hc : ∀ passed rest, F rest → observation ⟨passed, ts ++ rest, true⟩ = c)
    (h : Runs (g c) ts o F) : Runs (look observation >>= g) ts o F := by
  intro passed rest hF
  show g (observation ⟨passed, ts ++ rest, true⟩) _ = _
  rw [hc passed rest hF]
  exact h passed rest hF

/-! ## Loops -/

variable {step : ParseM τ (Option α)}

theorem runs_collect_none (h : Runs step ts (.ok none) F) : Runs (collect step) ts (.ok []) F := by
  intro passed rest hF
  rw [collect, h passed rest hF]

theorem runs_collect_fault {fault : ParseFault} (h : Runs step ts (Outcome.fault fault) F) :
    Runs (collect step) ts (Outcome.fault fault) F := by
  intro passed rest hF
  rw [collect, h passed rest hF]
  rfl

theorem runs_collect_some {o : Outcome ParseFault (List α)} (h : Runs step ts (.ok (some a)) F)
    (ne : ts ≠ []) (later : Runs (collect step) us o G) (hFG : ∀ rest, G rest → F (us ++ rest)) :
    Runs (collect step) (ts ++ us) ((a :: ·) <$> o) G := by
  intro passed rest hG
  have less : (us ++ rest).length < (ts ++ (us ++ rest)).length := by
    have := List.length_pos_iff.mpr ne
    simp only [List.length_append]
    omega
  rw [collect, List.append_assoc, h passed (us ++ rest) (hFG rest hG)]
  simp only [TokenStream.pending, if_true, Nat.add_zero, less]
  rw [later (ts.reverse ++ passed) rest hG]
  simp only [List.reverse_append, List.append_assoc]

variable {condition : TokenStream τ → Bool} {body : ParseM τ α}

theorem runs_collectWhile_stop
    (stop : ∀ passed rest, F rest → condition ⟨passed, rest, true⟩ = false) :
    Runs (collectWhile condition body) [] (.ok []) F :=
  runs_collect_none (.look_bind (c := false) stop runs_pure)

theorem runs_collectWhile_fault {fault : ParseFault}
    (go : ∀ passed rest, F rest → condition ⟨passed, ts ++ rest, true⟩ = true)
    (h : Runs body ts (Outcome.fault fault) F) :
    Runs (collectWhile condition body) ts (Outcome.fault fault) F :=
  runs_collect_fault (.look_bind (c := true) go h.bind_fault)

/-- A loop passes the parts that its body reads and goes on after them. -/
theorem runs_collectWhile_parts {ι : Type} {tokens : ι → List τ} {value : ι → α} {parts : List ι}
    {o : Outcome ParseFault (List α)}
    (h : ∀ i ∈ parts, Runs body (tokens i) (.ok (value i)) anything ∧ tokens i ≠ [] ∧
      ∀ passed rest, condition ⟨passed, tokens i ++ rest, true⟩ = true)
    (later : Runs (collectWhile condition body) us o F) :
    Runs (collectWhile condition body) (parts.flatMap tokens ++ us)
      ((parts.map value ++ ·) <$> o) F := by
  induction parts with
  | nil => simpa using later
  | cons i parts ih =>
      obtain ⟨reads, ne, go⟩ := h i List.mem_cons_self
      have step : Runs (do if ← look condition then return some (← body) else return none)
          (tokens i) (.ok (some (value i))) anything :=
        .look_bind (c := true) (fun passed rest _ => go passed rest) reads.bind_pure
      have := runs_collect_some step ne (ih fun j hj => h j (List.mem_cons_of_mem _ hj))
        fun _ _ => trivial
      cases o <;> simpa [collectWhile, List.append_assoc] using this

end ParseM

/-! ## Whole parses -/

namespace Grammar

variable {τ ν : Type} {g : Grammar τ ν} {rule : GrammarRule τ ν}

theorem parseWithin_of_missing (missing : g.hasRule g.root = false) (depth : Nat)
    (s : TokenStream τ) :
    g.parseWithin depth s = (Outcome.fault (.rootRuleMissing g.root), s) := by
  have none : g.rules.get? g.root = none := by
    simpa [hasRule, NameTable.contains] using missing
  rw [Grammar.parseWithin, none]
  rfl

theorem exists_root (h : g.hasRule g.root = true) : ∃ rule, g.rules.get? g.root = some rule :=
  Option.isSome_iff_exists.mp h

/-- A parse loads a token, runs the rule to start from and looks whether tokens are left. -/
theorem parseWithin_eq (found : g.rules.get? g.root = some rule) (depth : Nat)
    (s : TokenStream τ) : g.parseWithin depth s =
      if s.advance.hasTokens then
        match rule (g.call depth) s.advance with
        | (.ok node, next) =>
          (if next.hasTokens then Outcome.fault .unhandledToken else .ok node, next)
        | (.error failure, next) => (.error failure, next)
      else (Outcome.fault .nothingToParse, s.advance) := by
  rw [Grammar.parseWithin, found]
  show (if s.advance.hasTokens then _ else _ : ParseM τ ν) s.advance = _
  split
  · rcases run : rule (g.call depth) s.advance with ⟨failure | node, next⟩
    · exact ParseM.bind_of_error run
    · rw [ParseM.bind_of_ok run]
      show (if next.hasTokens then ParseM.raise .unhandledToken else pure node : ParseM τ ν) next =
        (if next.hasTokens then Outcome.fault .unhandledToken else .ok node, next)
      split <;> rfl
  · rfl

end Grammar

end LittleLang
