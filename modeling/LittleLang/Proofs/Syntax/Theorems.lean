import LittleLang.Command.Run
import LittleLang.Proofs.Syntax.Lemmas.Whole

/-!
# The reading of tokens

The trees that are read are those that the grammar derives, and a list of tokens without a tree is
given up at the first token that no text can have there.
-/

namespace LittleLang.Decl

open Syntax

variable {tokens : List Token}

/-- The trees of a list of tokens are the trees with which the grammar derives it from the root.
There is at most one. -/
theorem tree_iff_root (tokens : List Token) :
    (∀ n, grammar.tree tokens = .ok n ↔ Root tokens n) ∧
      ∀ n m, Root tokens n → Root tokens m → n = m := by
  refine ⟨fun n => ⟨root_of_tree, Root.tree⟩, fun n m hn hm => ?_⟩
  have same := hn.tree.symm.trans hm.tree
  cases same
  rfl

/-! ## The report of the place -/

theorem describe_token {fault : ParseFault} {k : Nat} {t : Token} (h : tokens[k]? = some t) :
    Command.describe tokens (.syntactic fault k) =
      s!"{(Fault.syntactic fault k).message}\n  at line {t.line} column {t.column}: {t.message}" := by
  simp only [Command.describe, h]

theorem describe_end {fault : ParseFault} {k : Nat} (h : tokens[k]? = none) :
    Command.describe tokens (.syntactic fault k) =
      s!"{(Fault.syntactic fault k).message}\n  at end of input" := by
  simp only [Command.describe, h]

/-- The two forms of a report differ. -/
theorem report_token_ne_end (message : String) (t : Token) :
    s!"{message}\n  at line {t.line} column {t.column}: {t.message}" ≠
      s!"{message}\n  at end of input" := by
  intro same
  have text (s : String) : toString s = s := rfl
  have bytes := congrArg String.toList same
  simp [text] at bytes

theorem translate_parse_error {options : Command.Options} {name : String} {source : List UInt8}
    {fault : Fault} (lexed : tokenize source = .ok tokens) (h : parse tokens = .error fault) :
    (Command.translate options name source).2 = .error (Command.describe tokens fault) := by
  simp only [Command.translate, lexed, h]

/-- The reading stops as early as it can: some text begins with the tokens before the place, and
none goes on with the token there. The report says that the end was reached exactly if the whole
list could go on, and otherwise names the first token that does not fit. -/
theorem stops_at_first_misfit {fault : ParseFault} {k : Nat}
    (h : parse tokens = .error (.syntactic fault k)) :
    k ≤ tokens.length ∧ Viable (tokens.take k) ∧
      (k < tokens.length → ¬ Viable (tokens.take (k + 1))) ∧
      (Command.describe tokens (.syntactic fault k) =
          s!"{(Fault.syntactic fault k).message}\n  at end of input" ↔ Viable tokens) ∧
      (¬ Viable tokens → ∃ t, tokens[k]? = some t ∧
        Command.describe tokens (.syntactic fault k) =
          s!"{(Fault.syntactic fault k).message}\n  at line {t.line} column {t.column}: {t.message}") ∧
      ∀ options name source, tokenize source = .ok tokens →
        (Command.translate options name source).2 =
          .error (Command.describe tokens (.syntactic fault k)) := by
  obtain ⟨us, rest, rfl, rfl, viable, misfit⟩ := stops_after_viable h
  refine ⟨by simp, by simpa using viable, ?_, ?_, ?_, ?_⟩
  · intro lt
    cases rest with
    | nil => simp at lt
    | cons t rest =>
        rw [List.take_append, List.take_of_length_le (Nat.le_succ _)]
        simpa using misfit t rest rfl
  · cases rest with
    | nil =>
        rw [describe_end (by simp)]
        simpa using viable
    | cons t rest =>
        rw [describe_token (t := t) (by simp)]
        refine iff_of_false (report_token_ne_end _ t) fun whole => misfit t rest rfl ?_
        rw [List.append_cons] at whole
        exact whole.of_append
  · intro stuck
    cases rest with
    | nil =>
        rw [List.append_nil] at stuck
        exact absurd viable stuck
    | cons t rest => exact ⟨t, by simp, describe_token (by simp)⟩
  · exact fun options name source lexed => translate_parse_error lexed h

/-- `let x 3` goes wrong at the number. -/
theorem stops_at_number_without_equals :
    parse [⟨.word, ascii "let", 1, 1⟩, ⟨.word, ascii "x", 1, 5⟩, ⟨.num, ascii "3", 1, 7⟩] =
        .error (.syntactic .invalidSyntax 2) ∧
      Viable [⟨.word, ascii "let", 1, 1⟩, ⟨.word, ascii "x", 1, 5⟩] ∧
      ¬ Viable [⟨.word, ascii "let", 1, 1⟩, ⟨.word, ascii "x", 1, 5⟩, ⟨.num, ascii "3", 1, 7⟩] := by
  have begun : AwaitsRoot [⟨.word, ascii "let", 1, 1⟩, ⟨.word, ascii "x", 1, 5⟩] (.kind .eql) :=
    @AwaitsRoot.declaration [] _ _ (by simp) (.binding (.inl ⟨rfl, rfl⟩) (.equals rfl)) (by simp)
  have failed : parse [⟨.word, ascii "let", 1, 1⟩, ⟨.word, ascii "x", 1, 5⟩,
      ⟨.num, ascii "3", 1, 7⟩] = .error (.syntactic .invalidSyntax 2) :=
    begun.parse_eq_error (by simp) ⟨rfl, rfl⟩
  obtain ⟨-, viable, misfit, -⟩ := stops_at_first_misfit failed
  exact ⟨failed, viable, misfit (by decide)⟩

/-! ## The fault that is reported -/

/-- The fault tells what was wanted. Without tokens there is nothing to parse; a token cannot be
handled if it stands where a value or a member has to begin, which is where a number or a hash can
come; and everything else is invalid syntax, an end that comes too early included. The fault is that
of the root rule: no rule is missing and no tokens are left over. -/
theorem fault_tells_what_was_wanted {fault : ParseFault} {k : Nat}
    (h : parse tokens = .error (.syntactic fault k)) :
    (fault = .nothingToParse ↔ tokens = []) ∧
      (∀ num hash : Token, num.kind = .num → hash.kind = .hash →
        (fault = .unhandledToken ↔ k < tokens.length ∧
          (Viable (tokens.take k ++ [num]) ∨ Viable (tokens.take k ++ [hash])))) ∧
      (fault ≠ .nothingToParse → fault ≠ .unhandledToken → fault = .invalidSyntax) ∧
      (tokens ≠ [] → k = tokens.length → fault = .invalidSyntax) ∧
      (∀ name, fault ≠ .rootRuleMissing name ∧ fault ≠ .ruleNotFound name) ∧
      (tokens ≠ [] → (root (grammar.call (grammar.depthBound (.ofTokens tokens)))
        (TokenStream.ofTokens tokens).advance).1 = Outcome.fault fault) := by
  rcases parse_error_cases h with ⟨rfl, rfl, rfl⟩ | ⟨us, rest, w, rfl, rfl, ne, hw, refused⟩
  · simp
  · have occurs := hw.occurs
    have fits := occurs.refuses_cases refused
    refine ⟨?_, ?_, ?_, ?_, ?_, ?_⟩
    · refine iff_of_false ?_ ne
      rintro rfl
      simp at fits
    · intro num hash hn hh
      rw [List.take_left, hw.viable_concat_iff, hw.viable_concat_iff,
        occurs.unhandled_iff refused hn hh]
      simp [List.length_pos_iff]
    · exact fun _ handled => fits.resolve_left handled
    · intro _ whole
      cases rest with
      | nil => exact refused.2
      | cons t rest => simp at whole
    · intro name
      rcases fits with rfl | rfl <;> simp
    · intro _
      have bound := lt_depthBound (us ++ rest)
      rw [List.length_append] at bound
      exact congrArg Prod.fst (hw.breaks (by omega) fault [] rest refused)

/-- `class C { 1` goes wrong at the number, where a member is wanted. -/
theorem fault_at_number_in_class :
    parse [⟨.word, ascii "class", 1, 1⟩, ⟨.word, ascii "C", 1, 7⟩, ⟨.leftBrace, ascii "\x7b", 1, 9⟩,
        ⟨.num, ascii "1", 1, 11⟩] = .error (.syntactic .unhandledToken 3) ∧
      (Viable [⟨.word, ascii "class", 1, 1⟩, ⟨.word, ascii "C", 1, 7⟩,
          ⟨.leftBrace, ascii "\x7b", 1, 9⟩, ⟨.num, ascii "1", 1, 11⟩] ∨
        Viable [⟨.word, ascii "class", 1, 1⟩, ⟨.word, ascii "C", 1, 7⟩,
          ⟨.leftBrace, ascii "\x7b", 1, 9⟩, ⟨.hash, ascii "#", 1, 11⟩]) := by
  have begun : AwaitsRoot [⟨.word, ascii "class", 1, 1⟩, ⟨.word, ascii "C", 1, 7⟩,
      ⟨.leftBrace, ascii "\x7b", 1, 9⟩] (Wanted.member.orKind .rightBrace) :=
    @AwaitsRoot.declaration [] _ _ (by simp)
      (@Awaits.classNext _ _ _ [] ⟨rfl, rfl⟩ rfl rfl (by simp)) (by simp)
  have failed : parse [⟨.word, ascii "class", 1, 1⟩, ⟨.word, ascii "C", 1, 7⟩,
      ⟨.leftBrace, ascii "\x7b", 1, 9⟩, ⟨.num, ascii "1", 1, 11⟩] =
      .error (.syntactic .unhandledToken 3) :=
    begun.parse_eq_error (by simp) ⟨rfl, rfl⟩
  obtain ⟨-, unhandled, -⟩ := fault_tells_what_was_wanted failed
  have wanted := unhandled ⟨.num, ascii "1", 1, 11⟩ ⟨.hash, ascii "#", 1, 11⟩ rfl rfl
  exact ⟨failed, (wanted.mp rfl).2⟩

end LittleLang.Decl
