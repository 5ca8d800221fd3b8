import LittleLang.Decl.Language
import LittleLang.Proofs.Syntax.Lemmas.Completion
import LittleLang.Proofs.Syntax.Lemmas.Refusal

/-!
# Whole lists of tokens
-/

namespace LittleLang.Decl

open Syntax

variable {tokens : List Token}

theorem Syntax.Root.tree {n : Node} (h : Root tokens n) : grammar.tree tokens = .ok n :=
  congrArg Prod.fst h.parse

/-- A list of tokens is empty, or has a tree, or begins with tokens that are read until something
comes that is not wanted. -/
theorem parse_cases (tokens : List Token) :
    tokens = [] ∨ (∃ n, Root tokens n) ∨
      ∃ us rest w fault, tokens = us ++ rest ∧ AwaitsRoot us w ∧ w.Refuses fault rest ∧
        grammar.parse (.ofTokens tokens) = (Outcome.fault fault, ⟨us.reverse, rest, true⟩) := by
  by_cases ne : tokens = []
  · exact .inl ne
  · rcases root_decided ne with hr | ⟨us, rest, w, fault, rfl, hw, refused⟩
    · exact .inr (.inl hr)
    · exact .inr (.inr ⟨us, rest, w, fault, rfl, hw, refused, hw.parse ne refused⟩)

theorem root_of_tree {n : Node} (h : grammar.tree tokens = .ok n) : Root tokens n := by
  rcases parse_cases tokens with rfl | ⟨m, hm⟩ | ⟨us, rest, w, fault, -, -, -, stops⟩
  · rw [Grammar.tree, parse_nil] at h
    cases h
  · rw [hm.tree] at h
    cases h
    exact hm
  · rw [Grammar.tree, stops] at h
    cases h

theorem root_of_parse {n : Node} (h : parse tokens = .ok n) : Root tokens n := by
  rw [parse, Outcome.settle_eq_ok_iff] at h
  exact root_of_tree (Outcome.mapFault_eq_ok_iff.mp h)

theorem parse_of_ok {n : Node} {s : TokenStream Token}
    (h : grammar.parse (.ofTokens tokens) = (.ok n, s)) : parse tokens = .ok n := by
  rw [parse, Outcome.settle_eq_ok_iff, Language.parse, language, h]
  rfl

theorem parse_of_fault {fault : ParseFault} {s : TokenStream Token}
    (h : grammar.parse (.ofTokens tokens) = (Outcome.fault fault, s)) :
    parse tokens = .error (.syntactic fault s.position) := by
  rw [parse, Outcome.settle_eq_error_iff, Language.parse, language, h]
  rfl

theorem parse_fault {fault : Fault} (h : parse tokens = .error fault) :
    ∃ e k, fault = .syntactic e k := by
  rw [parse, Outcome.settle_eq_error_iff] at h
  obtain ⟨e, -, rfl⟩ := Outcome.mapFault_eq_fault_iff.mp h
  exact ⟨e, _, rfl⟩

/-! ## Where the reading stops -/

/-- Some list of tokens that begins with these has a tree. -/
def Viable (tokens : List Token) : Prop :=
  ∃ more n, grammar.tree (tokens ++ more) = .ok n

theorem Syntax.AwaitsRoot.viable {w : Wanted} (h : AwaitsRoot tokens w) : Viable tokens := by
  obtain ⟨more, n, hr⟩ := h.exists_root
  exact ⟨more, n, hr.tree⟩

/-- No text goes on with a token that is not wanted. -/
theorem Syntax.AwaitsRoot.not_viable {w : Wanted} (h : AwaitsRoot tokens w) {t : Token}
    (ht : w.admits t = false) : ¬ Viable (tokens ++ [t]) := by
  rintro ⟨more, n, hn⟩
  have refused : w.Refuses w.fault (t :: more) := ⟨ht, rfl⟩
  have stops := h.parse (by simp) refused
  rw [List.append_assoc, List.singleton_append, Grammar.tree, stops] at hn
  cases hn

/-- The tokens that are wanted are those that some text goes on with. -/
theorem Syntax.AwaitsRoot.viable_concat_iff {w : Wanted} (h : AwaitsRoot tokens w) {t : Token} :
    Viable (tokens ++ [t]) ↔ w.admits t = true := by
  constructor
  · intro viable
    cases ht : w.admits t with
    | true => rfl
    | false => exact absurd viable (h.not_viable ht)
  · intro ht
    obtain ⟨more, n, hr⟩ := h.completes t ht
    exact ⟨more, n, by simpa using hr.tree⟩

theorem Viable.of_append {us vs : List Token} (h : Viable (us ++ vs)) : Viable us := by
  obtain ⟨more, n, hn⟩ := h
  exact ⟨vs ++ more, n, by rwa [← List.append_assoc]⟩

theorem viable_nil : Viable [] :=
  @AwaitsRoot.viable [] _ (@AwaitsRoot.next [] (by simp))

theorem parse_eq_error {fault : ParseFault} {k : Nat}
    (h : parse tokens = .error (.syntactic fault k)) :
    ∃ s, grammar.parse (.ofTokens tokens) = (Outcome.fault fault, s) ∧ s.position = k := by
  rw [parse, Outcome.settle_eq_error_iff] at h
  simp only [Language.parse, language] at h
  rcases read : grammar.parse (.ofTokens tokens) with ⟨(e | _) | n, s⟩
  · rw [read] at h
    cases h
    exact ⟨s, rfl, rfl⟩
  · rw [read] at h
    cases h
  · rw [read] at h
    cases h

theorem Syntax.AwaitsRoot.parse_eq_error {us rest : List Token} {w : Wanted} {fault : ParseFault}
    (h : AwaitsRoot us w) (ne : us ++ rest ≠ []) (refused : w.Refuses fault rest) :
    Decl.parse (us ++ rest) = .error (.syntactic fault us.length) := by
  rw [parse_of_fault (h.parse ne refused), TokenStream.position, List.length_reverse]

/-- The reading fails on no tokens at all, or stops in front of tokens that are not wanted. -/
theorem parse_error_cases {fault : ParseFault} {k : Nat}
    (h : parse tokens = .error (.syntactic fault k)) :
    (tokens = [] ∧ fault = .nothingToParse ∧ k = 0) ∨ ∃ us rest w, tokens = us ++ rest ∧
      us.length = k ∧ tokens ≠ [] ∧ AwaitsRoot us w ∧ w.Refuses fault rest := by
  obtain ⟨s, read, rfl⟩ := parse_eq_error h
  by_cases ne : tokens = []
  · rw [ne, parse_nil] at read
    cases read
    exact .inl ⟨ne, rfl, rfl⟩
  · rcases parse_cases tokens with empty | ⟨n, hn⟩ | ⟨us, rest, w, _, whole, hw, refused, stops⟩
    · exact absurd empty ne
    · rw [hn.parse] at read
      cases read
    · rw [stops] at read
      cases read
      exact .inr ⟨us, rest, w, whole, by simp [TokenStream.position], ne, hw, refused⟩

/-- The reading stops after tokens that some text begins with, and not before the last of them that
can be followed as in the list. -/
theorem stops_after_viable {fault : ParseFault} {k : Nat}
    (h : parse tokens = .error (.syntactic fault k)) :
    ∃ us rest, tokens = us ++ rest ∧ us.length = k ∧ Viable us ∧
      ∀ t more, rest = t :: more → ¬ Viable (us ++ [t]) := by
  rcases parse_error_cases h with ⟨rfl, -, rfl⟩ | ⟨us, rest, w, rfl, rfl, -, hw, refused⟩
  · exact ⟨[], [], rfl, rfl, viable_nil, nofun⟩
  · refine ⟨us, rest, rfl, rfl, hw.viable, ?_⟩
    rintro t more rfl
    exact hw.not_viable refused.1

end LittleLang.Decl
