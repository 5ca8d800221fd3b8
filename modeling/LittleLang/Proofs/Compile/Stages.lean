import LittleLang.Proofs.Print.Theorems
import LittleLang.Render.Lemmas.Layers

/-!
# The stages of compilation

A text that cannot be compiled has no tokens, or its tokens have no tree. The last stage has an
answer to every tree that is read.
-/

namespace LittleLang.Decl

open Printer

variable {text : List UInt8} {tokens : List Token} {n : Node} {fault : Fault}

/-! ## What each stage contributes -/

theorem compile_of_tokenize_error (h : tokenize text = .error fault) :
    compile text = .error fault := by
  rw [compile, h]
  rfl

theorem compile_of_parse_error (lexed : tokenize text = .ok tokens)
    (h : parse tokens = .error fault) : compile text = .error fault := by
  rw [compile, lexed]
  show (parse tokens >>= render) = _
  rw [h]
  rfl

theorem compile_of_parse (lexed : tokenize text = .ok tokens) (read : parse tokens = .ok n) :
    compile text = .ok (n.children.flatMap (print 0)) := by
  rw [compile, lexed]
  show (parse tokens >>= render) = _
  rw [read]
  exact render_eq_print lexed read

/-- A text has no tokens, or its tokens have no tree, or both stages succeed and the tree is
printed. -/
theorem compile_cases (text : List UInt8) :
    (∃ e, tokenize text = .error (.lexical e) ∧ compile text = .error (.lexical e)) ∨
      ∃ tokens, tokenize text = .ok tokens ∧
        ((∃ e k, parse tokens = .error (.syntactic e k) ∧
            compile text = .error (.syntactic e k)) ∨
          ∃ n, parse tokens = .ok n ∧ compile text = .ok (n.children.flatMap (print 0))) := by
  cases lexed : tokenize text with
  | error fault =>
      obtain ⟨e, -, rfl⟩ := tokenize_eq_error_iff.mp lexed
      exact .inl ⟨e, rfl, compile_of_tokenize_error lexed⟩
  | ok tokens =>
      refine .inr ⟨tokens, rfl, ?_⟩
      cases read : parse tokens with
      | error fault =>
          obtain ⟨e, k, rfl⟩ := parse_fault read
          exact .inl ⟨e, k, rfl, compile_of_parse_error lexed read⟩
      | ok n => exact .inr ⟨n, rfl, compile_of_parse lexed read⟩

theorem compile_eq_ok {out : List UInt8} (h : compile text = .ok out) :
    ∃ tokens n, tokenize text = .ok tokens ∧ parse tokens = .ok n ∧
      out = n.children.flatMap (print 0) := by
  obtain ⟨e, -, failed⟩ | ⟨tokens, lexed, ⟨e, k, -, failed⟩ | ⟨n, read, done⟩⟩ := compile_cases text
  · simp [failed] at h
  · simp [failed] at h
  · rw [done] at h
    cases h
    exact ⟨tokens, n, lexed, read, rfl⟩

theorem compile_eq_lexical {e : LexFault} (h : compile text = .error (.lexical e)) :
    tokenize text = .error (.lexical e) := by
  obtain ⟨e', lexed, failed⟩ | ⟨tokens, lexed, ⟨e', k, -, failed⟩ | ⟨n, read, done⟩⟩ :=
    compile_cases text
  · rw [failed] at h
    cases h
    exact lexed
  · simp [failed] at h
  · simp [done] at h

theorem compile_eq_syntactic {e : ParseFault} {k : Nat}
    (h : compile text = .error (.syntactic e k)) :
    ∃ tokens, tokenize text = .ok tokens ∧ parse tokens = .error (.syntactic e k) := by
  obtain ⟨e', -, failed⟩ | ⟨tokens, lexed, ⟨e', k', read, failed⟩ | ⟨n, read, done⟩⟩ :=
    compile_cases text
  · simp [failed] at h
  · rw [failed] at h
    cases h
    exact ⟨tokens, lexed, read⟩
  · simp [done] at h

/-! ## The last stage -/

/-- What the sheet writes is never empty, whatever the tree. -/
theorem render_ne_nil {out : List UInt8} (h : render n = .ok out) : out ≠ [] := by
  rw [render, Outcome.settle_eq_ok_iff] at h
  exact Stylesheet.renderWithin_ne_nil (Outcome.mapFault_eq_ok_iff.mp h)

/-- Compilation never fails in its last stage: a tree that is read is written, and not as
nothing. -/
theorem writes_every_tree (text : List UInt8) :
    (∀ e, compile text ≠ .error (.rendering e)) ∧
      ∀ tokens n, tokenize text = .ok tokens → parse tokens = .ok n →
        ∃ out, render n = .ok out ∧ out ≠ [] := by
  constructor
  · intro e h
    obtain ⟨_, -, failed⟩ | ⟨_, -, ⟨_, _, -, failed⟩ | ⟨_, -, done⟩⟩ := compile_cases text
    · simp [failed] at h
    · simp [failed] at h
    · simp [done] at h
  · intro tokens n lexed read
    have written := render_eq_print lexed read
    exact ⟨_, written, render_ne_nil written⟩

theorem writes_variable : ∃ tokens n out, tokenize (ascii "let x = 1") = .ok tokens ∧
    parse tokens = .ok n ∧ render n = .ok out ∧ out ≠ [] := by
  have compiled : compile (ascii "let x = 1") = .ok (ascii "x = 1\n") :=
    Outcome.eq_ok_of_toOption (by decide +kernel)
  obtain ⟨tokens, n, lexed, read, -⟩ := compile_eq_ok compiled
  obtain ⟨-, written⟩ := writes_every_tree (ascii "let x = 1")
  obtain ⟨out, rendered, ne⟩ := written tokens n lexed read
  exact ⟨tokens, n, out, lexed, read, rendered, ne⟩

end LittleLang.Decl
