import LittleLang.Proofs.Syntax.Lemmas.Whole

/-!
# Parsing on behind a fault

A stream on which a parse has failed can be parsed again: the next parse passes the token in front
of which the first one stopped, and reads the tokens behind it.
-/

namespace LittleLang.Decl

open Syntax

variable {tokens ts : List Token} {last : TokenStream Token} {fault : ParseFault}

/-- What a parse makes of the tokens that it finds depends on these tokens alone: at every depth
that is enough, and whatever tokens have been passed, it comes to one outcome after the same
tokens. -/
theorem exists_reading (tokens : List Token) :
    ∃ o, ∃ read rest : List Token, ∀ passed depth (s : TokenStream Token), tokens.length + 1 < depth →
      s.advance = ⟨passed, tokens, true⟩ →
        grammar.parseWithin depth s = (o, ⟨read.reverse ++ passed, rest, true⟩) := by
  by_cases ne : tokens = []
  · refine ⟨Outcome.fault .nothingToParse, [], [], ?_⟩
    intro passed depth s _ here
    rw [ne] at here
    exact parseWithin_nil here
  · rcases root_decided ne with ⟨n, hn⟩ | ⟨us, rest, w, fault, rfl, hw, refused⟩
    · refine ⟨.ok n, tokens, [], ?_⟩
      intro passed depth s lt here
      exact hn.parseWithin (Nat.lt_of_succ_lt lt) here
    · refine ⟨Outcome.fault fault, us, rest, ?_⟩
      intro passed depth s lt here
      rw [List.length_append] at lt
      exact hw.parseWithin ne refused (by omega) here

theorem exists_stop (h : grammar.parse (.ofTokens ts) = (Outcome.fault fault, last))
    (lt : last.position < ts.length) :
    ∃ us t rest, ts = us ++ t :: rest ∧ last = ⟨us.reverse, t :: rest, true⟩ := by
  rcases parse_cases ts with rfl | ⟨n, hn⟩ | ⟨us, rest, w, fault, rfl, -, -, stops⟩
  · cases lt
  · rw [hn.parse] at h
    cases h
  · rw [stops] at h
    cases h
    cases rest with
    | nil => simp [TokenStream.position] at lt
    | cons t rest => exact ⟨us, t, rest, rfl, rfl⟩

/-- Behind a fault a second parse of the stream comes to what the tokens behind it come to by
themselves, the tree as well as the fault, after as many of them. -/
theorem parses_on_behind_fault (h : grammar.parse (.ofTokens ts) = (Outcome.fault fault, last))
    (lt : last.position < ts.length) :
    (grammar.parse last).1 = grammar.tree (ts.drop (last.position + 1)) ∧
      (grammar.parse last).2.position =
        (grammar.parse (.ofTokens (ts.drop (last.position + 1)))).2.position +
          (last.position + 1) := by
  obtain ⟨us, t, rest, rfl, rfl⟩ := exists_stop h lt
  obtain ⟨o, read, left, reads⟩ := exists_reading rest
  have behind : (us ++ t :: rest).drop (us.reverse.length + 1) = rest := by
    rw [List.length_reverse, List.drop_length_add_append]
    rfl
  have pending : rest.length < (⟨us.reverse, t :: rest, true⟩ : TokenStream Token).pending :=
    Nat.lt_succ_self rest.length
  have again : grammar.parse ⟨us.reverse, t :: rest, true⟩ =
      (o, ⟨read.reverse ++ t :: us.reverse, left, true⟩) :=
    reads _ _ _ (lt_depthBound_of_pending pending) rfl
  have fresh : grammar.parse (.ofTokens rest) = (o, ⟨read.reverse ++ [], left, true⟩) :=
    reads _ _ _ (lt_depthBound rest) rfl
  simp only [TokenStream.position, behind, Grammar.tree, again, fresh, List.length_append,
    List.length_cons, List.append_nil, true_and]

/-- `let x 3` goes wrong at the number, and behind it `let y = 4` has a tree. -/
theorem parses_variable_behind_number :
    ∃ (last : TokenStream Token) (y four : Token),
      grammar.parse (.ofTokens [⟨.word, ascii "let", 1, 1⟩, ⟨.word, ascii "x", 1, 5⟩,
        ⟨.num, ascii "3", 1, 7⟩, ⟨.word, ascii "let", 2, 1⟩, y, ⟨.eql, ascii "=", 2, 7⟩, four]) =
          (Outcome.fault .invalidSyntax, last) ∧ last.position = 2 ∧
      (grammar.parse last).1 =
        .ok (.plain .root [.named .varDeclaration y [.named .numberLiteral four []]]) ∧
      (grammar.parse last).2.position = 7 := by
  have begun : AwaitsRoot [⟨.word, ascii "let", 1, 1⟩, ⟨.word, ascii "x", 1, 5⟩] (.kind .eql) :=
    @AwaitsRoot.declaration [] _ _ (by simp) (.binding (.inl ⟨rfl, rfl⟩) (.equals rfl)) (by simp)
  have failed := @AwaitsRoot.parse _ _ begun .invalidSyntax
    [⟨.num, ascii "3", 1, 7⟩, ⟨.word, ascii "let", 2, 1⟩, ⟨.word, ascii "y", 2, 5⟩,
      ⟨.eql, ascii "=", 2, 7⟩, ⟨.num, ascii "4", 2, 9⟩] (by simp) ⟨rfl, rfl⟩
  have variable_y : Derives .declaration [⟨.word, ascii "let", 2, 1⟩, ⟨.word, ascii "y", 2, 5⟩,
      ⟨.eql, ascii "=", 2, 7⟩, ⟨.num, ascii "4", 2, 9⟩] _ :=
    .varDeclaration (.inl ⟨rfl, rfl⟩) (.mk rfl rfl (.number rfl))
  have rest := @Root.mk [⟨_, _⟩] (by simp) (List.forall_mem_singleton.mpr variable_y)
  obtain ⟨same, position⟩ := parses_on_behind_fault failed (by decide)
  refine ⟨_, ⟨.word, ascii "y", 2, 5⟩, ⟨.num, ascii "4", 2, 9⟩, failed, rfl, ?_, ?_⟩
  · exact same.trans rest.tree
  · rw [position]
    decide +kernel

end LittleLang.Decl
