import LittleLang.Command.Run
import LittleLang.Proofs.Compile.Stages

/-!
# The stages as the command takes them

The command takes the stages of compilation one by one, so that it can list the tokens and the tree
between them. It comes to the same end, and its report of a fault is that of the compilation, with
one more line if the fault is one of the grammar.
-/

namespace LittleLang.Command

/-- The line of a report that says where the reading stopped: at a token, or at the end. -/
def placeLine : Option Decl.Token → String
  | some t => s!"\n  at line {t.line} column {t.column}: {t.message}"
  | none => "\n  at end of input"

theorem describe_syntactic (tokens : List Decl.Token) (fault : ParseFault) (k : Nat) :
    describe tokens (.syntactic fault k) =
      (Fault.syntactic fault k).message ++ placeLine tokens[k]? := by
  have text (s : String) : toString s = s := rfl
  cases h : tokens[k]? <;> simp [describe, placeLine, h, text, String.append_assoc]

theorem translate_cases (options : Options) (name : String) (source : List UInt8) :
    (∃ out, Decl.compile source = .ok out ∧ (translate options name source).2 = .ok out) ∨
      (∃ fault, Decl.compile source = .error (.lexical fault) ∧
        (translate options name source).2 = .error (Fault.lexical fault).message) ∨
      ∃ tokens fault k, Decl.tokenize source = .ok tokens ∧
        Decl.compile source = .error (.syntactic fault k) ∧
        (translate options name source).2 =
          .error ((Fault.syntactic fault k).message ++ placeLine tokens[k]?) := by
  obtain ⟨fault, lexed, failed⟩ | ⟨tokens, lexed, ⟨fault, k, read, failed⟩ | ⟨n, read, done⟩⟩ :=
    Decl.compile_cases source
  · exact .inr (.inl ⟨fault, failed, by simp only [translate, lexed]⟩)
  · refine .inr (.inr ⟨tokens, fault, k, lexed, failed, ?_⟩)
    simp only [translate, lexed, read, describe_syntactic]
  · have rendered : Decl.render n = .ok (n.children.flatMap (Decl.Printer.print 0)) :=
      Decl.render_eq_print lexed read
    refine .inl ⟨_, done, ?_⟩
    simp only [translate, lexed, read, rendered]
    rfl

end LittleLang.Command
