import LittleLang.Proofs.Print.Lemmas.Written
import LittleLang.Proofs.Spelling.Lemmas.Lexing
import LittleLang.Proofs.Syntax.Lemmas.Whole

/-!
# The Python text of a program
-/

namespace LittleLang.Decl

open Printer

variable {tokens : List Token} {n : Node}

theorem Syntax.Root.render_eq (h : Root tokens n) (lexed : ∀ t ∈ tokens, t.OneLine) :
    render n = .ok (n.children.flatMap (print 0)) := by
  have whole : stylesheet.render n = .ok (n.children.flatMap (print 0)) :=
    h.renders lexed _ (Nat.lt_succ_self _)
  rw [render, Outcome.settle_eq_ok_iff, Language.render, language, whole]
  rfl

/-- The tree of a text is written in layers as it is printed in one pass. -/
theorem render_eq_print {text : List UInt8} (lexed : tokenize text = .ok tokens)
    (read : parse tokens = .ok n) : render n = .ok (n.children.flatMap (print 0)) :=
  (root_of_parse read).render_eq (oneLine_of_tokenize lexed)

/-- Compiling a text prints the declarations of its tree one after another. Every text that has a
tree is written. -/
theorem compile_eq_print (text : List UInt8) :
    compile text = (do
      let tokens ← tokenize text
      let tree ← parse tokens
      return tree.children.flatMap (print 0)) := by
  rw [compile]
  cases lexed : tokenize text with
  | error fault => rfl
  | ok tokens =>
      show (parse tokens >>= render) =
        (parse tokens >>= fun tree => .ok (tree.children.flatMap (print 0)))
      cases read : parse tokens with
      | error fault => rfl
      | ok n => exact render_eq_print lexed read

end LittleLang.Decl
