import LittleLang.Proofs.Parse.Moves
import LittleLang.Proofs.Parse.Runs

/-!
# Programs one after another

What a program reads of a stream is the tokens between the place where it begins and the place where
it stops. Of programs that are run one after another each begins where the one before has stopped.
-/

namespace LittleLang

namespace TokenStream

variable {τ : Type} {s t u : TokenStream τ} {us vs : List τ}

/-- From the one stream to the other exactly the tokens `us` are read. -/
structure Reads (s : TokenStream τ) (us : List τ) (t : TokenStream τ) : Prop where
  loaded : t.loaded = true
  rest_eq : s.rest = us ++ t.rest
  passed_eq : t.passed = us.reverse ++ s.passed

theorem reads_nil (loaded : s.loaded = true) : s.Reads [] s := ⟨loaded, rfl, rfl⟩

theorem Reads.trans (h : s.Reads us t) (h' : t.Reads vs u) : s.Reads (us ++ vs) u where
  loaded := h'.loaded
  rest_eq := by rw [h.rest_eq, h'.rest_eq, List.append_assoc]
  passed_eq := by rw [h'.passed_eq, h.passed_eq, List.reverse_append, List.append_assoc]

theorem Reads.of_append (h : s.Reads (us ++ vs) u) : ∃ t, s.Reads us t ∧ t.Reads vs u := by
  refine ⟨⟨us.reverse ++ s.passed, vs ++ u.rest, true⟩, ⟨rfl, ?_, rfl⟩, ⟨h.loaded, rfl, ?_⟩⟩
  · rw [h.rest_eq, List.append_assoc]
  · rw [h.passed_eq, List.reverse_append, List.append_assoc]

theorem Reads.length_le (h : s.Reads us t) : t.rest.length ≤ s.rest.length := by
  rw [h.rest_eq, List.length_append]
  exact Nat.le_add_left _ _

theorem Reads.eq_of_nil (h : s.Reads [] t) (loaded : s.loaded = true) : t = s := by
  rcases s with ⟨passed, rest, _⟩
  rcases t with ⟨passed', rest', _⟩
  obtain ⟨rfl, rest_eq, passed_eq⟩ := h
  simp_all

theorem take_position (s : TokenStream τ) : s.tokens.take s.position = s.passed.reverse := by
  simp [tokens, position]

theorem drop_position (s : TokenStream τ) : s.tokens.drop s.position = s.rest := by
  simp [tokens, position]

theorem extract_position (s : TokenStream τ) (j : Nat) :
    s.tokens.extract s.position j = s.rest.take (j - s.position) := by
  rw [List.extract_eq_take_drop, drop_position]

/-- The tokens that are read are those between the two places. -/
theorem reads_iff : s.Reads us t ↔ t.loaded = true ∧ t.tokens = s.tokens ∧
    s.position ≤ t.position ∧ us = s.tokens.extract s.position t.position := by
  rw [extract_position]
  constructor
  · rintro ⟨loaded, rest_eq, passed_eq⟩
    have here : t.position = us.length + s.position := by simp [position, passed_eq]
    refine ⟨loaded, by simp [tokens, rest_eq, passed_eq], by omega, ?_⟩
    rw [here, Nat.add_sub_cancel, rest_eq, List.take_left]
  · rintro ⟨loaded, same, le, rfl⟩
    have rest_eq : t.rest = s.rest.drop (t.position - s.position) := by
      rw [← drop_position, ← drop_position, same, List.drop_drop, Nat.add_sub_cancel' le]
    have passed_eq : t.passed.reverse =
        s.passed.reverse ++ s.rest.take (t.position - s.position) := by
      rw [← take_position, ← take_position, ← drop_position, same, ← List.take_add,
        Nat.add_sub_cancel' le]
    refine ⟨loaded, by rw [rest_eq, List.take_append_drop], ?_⟩
    rw [← List.reverse_reverse t.passed, passed_eq, List.reverse_append, List.reverse_reverse]

theorem exists_reads_iff {P : List τ → Prop} :
    (∃ t us, s.Reads us t ∧ P us) ↔
      ∃ j, s.position ≤ j ∧ j ≤ s.tokens.length ∧ P (s.tokens.extract s.position j) := by
  constructor
  · rintro ⟨t, us, reads, h⟩
    obtain ⟨-, same, le, rfl⟩ := reads_iff.mp reads
    exact ⟨t.position, le, same ▸ t.position_le_length, h⟩
  · rintro ⟨j, le, inside, h⟩
    have here : (s.tokens.take j).length = j := List.length_take_of_le inside
    let t : TokenStream τ := ⟨(s.tokens.take j).reverse, s.tokens.drop j, true⟩
    have place : t.position = j := (List.length_reverse).trans here
    refine ⟨t, _, reads_iff.mpr ⟨rfl, ?_, place.symm ▸ le, rfl⟩, place.symm ▸ h⟩
    rw [tokens, List.reverse_reverse, List.take_append_drop]

end TokenStream

namespace ParseM

variable {τ α β ι : Type} {s next : TokenStream τ} {p : ParseM τ α} {f : α → ParseM τ β} {b : β}

theorem bind_pure_eq (p : ParseM τ α) : (p >>= fun a => pure a) = p := by
  funext s
  rcases run : p s with ⟨failure | a, next⟩
  · exact bind_of_error run
  · exact bind_of_ok run

theorem bind_bind_eq {γ : Type} (p : ParseM τ α) (f : α → ParseM τ β) (g : β → ParseM τ γ) :
    (p >>= f >>= g) = p >>= fun a => f a >>= g := by
  funext s
  rcases run : p s with ⟨failure | a, next⟩
  · rw [bind_of_error run, bind_of_error (bind_of_error run)]
  · have first : (p >>= f) s = f a next := bind_of_ok run
    rw [bind_of_ok run]
    rcases later : f a next with ⟨failure | b, last⟩
    · rw [bind_of_error later, bind_of_error (first.trans later)]
    · rw [bind_of_ok later, bind_of_ok (first.trans later)]

instance : LawfulMonad (ParseM τ) := .mk' _ bind_pure_eq (fun _ _ => rfl) bind_bind_eq

theorem bind_eq_ok_iff : (p >>= f) s = (.ok b, next) ↔
    ∃ a t, p s = (.ok a, t) ∧ f a t = (.ok b, next) := by
  rcases run : p s with ⟨failure | a, t⟩
  · rw [bind_of_error run]
    simp
  · rw [bind_of_ok run]
    simp [and_assoc]

theorem Runs.eq_of_reads {us : List τ} {a : α} (h : Runs p us (.ok a) anything)
    (loaded : s.loaded = true) (reads : s.Reads us next) : p s = (.ok a, next) := by
  rcases s with ⟨passed, rest, _⟩
  rcases next with ⟨passed', rest', _⟩
  obtain ⟨loaded', rest_eq, passed_eq⟩ := reads
  simp only at loaded loaded' rest_eq passed_eq
  rw [loaded, loaded', rest_eq, passed_eq]
  exact h passed rest' trivial

/-- On streams with fewer than `n` tokens ahead the program succeeds just where some of the next
tokens are in the relation `P` with a value. It reads those tokens and returns that value. -/
def ReadsExactly (n : Nat) (p : ParseM τ α) (P : List τ → α → Prop) : Prop :=
  ∀ s : TokenStream τ, s.loaded = true → s.rest.length < n → ∀ a next,
    p s = (.ok a, next) ↔ ∃ us, s.Reads us next ∧ P us a

/-- A success reads the tokens between the place where the program begins and the place where it
stops. -/
theorem ReadsExactly.eq_ok_iff {n : Nat} {P : List τ → α → Prop} {p : ParseM τ α} {a : α}
    (h : ReadsExactly n p P) (loaded : s.loaded = true) (lt : s.rest.length < n) :
    p s = (.ok a, next) ↔ next.loaded = true ∧ next.tokens = s.tokens ∧
      s.position ≤ next.position ∧ P (s.tokens.extract s.position next.position) a := by
  rw [h s loaded lt]
  simp only [TokenStream.reads_iff]
  constructor
  · rintro ⟨us, ⟨loaded', same, le, rfl⟩, ha⟩
    exact ⟨loaded', same, le, ha⟩
  · rintro ⟨loaded', same, le, ha⟩
    exact ⟨_, ⟨loaded', same, le, rfl⟩, ha⟩

/-- The tokens are those of the listed relations one after another, with their values. -/
inductive Chain (P : ι → List τ → α → Prop) : List ι → List τ → List α → Prop
  | nil : Chain P [] [] []
  | cons {i is us vs a as} : P i us a → Chain P is vs as → Chain P (i :: is) (us ++ vs) (a :: as)

theorem readsExactly_mapM {n : Nat} {p : ι → ParseM τ α} {P : ι → List τ → α → Prop}
    (h : ∀ i, ReadsExactly n (p i) (P i)) (is : List ι) :
    ReadsExactly n (is.mapM p) (Chain P is) := by
  induction is with
  | nil =>
      intro s loaded lt as next
      rw [List.mapM_nil]
      constructor
      · intro run
        cases run
        exact ⟨[], TokenStream.reads_nil loaded, .nil⟩
      · rintro ⟨us, reads, chain⟩
        cases chain
        rw [reads.eq_of_nil loaded]
        rfl
  | cons i is ih =>
      intro s loaded lt as next
      simp only [List.mapM_cons, bind_eq_ok_iff]
      constructor
      · rintro ⟨a, t, first, as, u, later, last⟩
        cases last
        obtain ⟨us, reads, ha⟩ := (h i s loaded lt a t).mp first
        have fewer := Nat.lt_of_le_of_lt reads.length_le lt
        obtain ⟨vs, reads', chain⟩ := (ih t reads.loaded fewer as next).mp later
        exact ⟨us ++ vs, reads.trans reads', .cons ha chain⟩
      · rintro ⟨_, reads, chain⟩
        cases chain with
        | @cons _ _ us vs a as ha chain =>
            obtain ⟨t, first, later⟩ := reads.of_append
            have fewer := Nat.lt_of_le_of_lt first.length_le lt
            refine ⟨a, t, (h i s loaded lt a t).mpr ⟨us, first, ha⟩, as, next, ?_, rfl⟩
            exact (ih t first.loaded fewer as next).mpr ⟨vs, later, chain⟩

end ParseM

/-- A parse with a tree runs the rule to start from, which leaves no tokens. -/
theorem Grammar.parseWithin_fst_eq_ok_iff {τ ν : Type} {g : Grammar τ ν} {rule : GrammarRule τ ν}
    (found : g.rules.get? g.root = some rule) {depth : Nat} {s : TokenStream τ} {node : ν} :
    (g.parseWithin depth s).1 = .ok node ↔ s.advance.hasTokens = true ∧
      ∃ next, rule (g.call depth) s.advance = (.ok node, next) ∧ next.hasTokens = false := by
  rw [parseWithin_eq found]
  cases s.advance.hasTokens with
  | false => simp [Outcome.fault]
  | true =>
      rcases run : rule (g.call depth) s.advance with ⟨failure | node', next⟩
      · simp
      · cases left : next.hasTokens <;> simp [left, and_assoc, Outcome.fault]

end LittleLang
