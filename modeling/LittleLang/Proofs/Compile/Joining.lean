import LittleLang.Proofs.Compile.Stages
import LittleLang.Proofs.Print.Relabelled
import LittleLang.Proofs.Spelling.Lemmas.Joining

/-!
# Compiling texts one below the other
-/

namespace LittleLang.Decl

open Printer Syntax

variable {a b : List UInt8} {ts us : List Token} {n m : Node}

/-! ## Trees one after the other -/

theorem Syntax.Root.append (h : Root ts n) (h' : Root us m) :
    Root (ts ++ us) (.plain .root (n.children ++ m.children)) := by
  cases h with
  | @mk parts ne hd =>
      cases h' with
      | @mk later ne' hd' =>
          have whole := Root.mk (by simp [ne]) (List.forall_mem_append.mpr ⟨hd, hd'⟩)
          rw [List.flatMap_append, List.map_append] at whole
          exact whole

/-- What is wanted does not depend on the declarations that come before. -/
theorem Syntax.Root.append_awaits (h : Root ts n) {w : Wanted} (hw : AwaitsRoot us w) :
    AwaitsRoot (ts ++ us) w := by
  cases h with
  | @mk parts ne hd =>
      cases hw with
      | next hd' =>
          rw [← List.flatMap_append]
          exact .next (List.forall_mem_append.mpr ⟨hd, hd'⟩)
      | declaration hd' ha ne' =>
          rw [← List.append_assoc, ← List.flatMap_append]
          exact .declaration (List.forall_mem_append.mpr ⟨hd, hd'⟩) ha ne'

theorem parse_append_ok (h : parse ts = .ok n) (h' : parse us = .ok m) :
    parse (ts ++ us) = .ok (.plain .root (n.children ++ m.children)) :=
  parse_of_ok ((root_of_parse h).append (root_of_parse h')).parse

theorem parse_append_error (h : parse ts = .ok n) (ne : us ≠ []) {fault : ParseFault} {k : Nat}
    (h' : parse us = .error (.syntactic fault k)) :
    parse (ts ++ us) = .error (.syntactic fault (k + ts.length)) := by
  rcases parse_cases us with rfl | ⟨m, hm⟩ | ⟨vs, rest, w, fault', rfl, hw, refused, stops⟩
  · exact absurd rfl ne
  · rw [parse_of_ok hm.parse] at h'
    cases h'
  · rw [hw.parse_eq_error ne refused] at h'
    cases h'
    have whole := (root_of_parse h).append_awaits hw
    rw [← List.append_assoc, whole.parse_eq_error (by simpa using fun _ => ne) refused,
      List.length_append, Nat.add_comm]

/-! ## Texts one below the other -/

theorem keepsText_lower (lines : Nat) : KeepsText (Token.lower lines) := fun _ => ⟨rfl, rfl⟩

theorem tokenize_join_ok (h : tokenize a = .ok ts) (even : a.count 0x22 % 2 = 0)
    (h' : tokenize b = .ok us) :
    tokenize (a ++ 0x0A :: b) = .ok (ts ++ us.map (Token.lower (a.count 0x0A + 1))) := by
  have joined := tokensFrom_join h even b
  rw [show tokensFrom [] b = .ok us from tokenize_eq_ok_iff.mp h'] at joined
  exact tokenize_eq_ok_iff.mpr joined

theorem tokenize_join_error (h : tokenize a = .ok ts) (even : a.count 0x22 % 2 = 0) {e : LexFault}
    (h' : tokenize b = .error (.lexical e)) :
    tokenize (a ++ 0x0A :: b) =
      .error (.lexical (e.shift (a.count 0x0A + 1) (a.length + 1))) := by
  obtain ⟨e', stuck, same⟩ := tokenize_eq_error_iff.mp h'
  cases same
  have joined := tokensFrom_join h even b
  rw [show tokensFrom [] b = .error (.raised e) from stuck] at joined
  exact tokenize_eq_error_iff.mpr ⟨_, joined, rfl⟩

theorem compile_join_nothing (lexed : tokenize a = .ok ts) (read : parse ts = .ok n)
    (even : a.count 0x22 % 2 = 0) (empty : tokenize b = .ok []) :
    compile (a ++ 0x0A :: b) = .ok (n.children.flatMap (print 0)) := by
  have joined := tokenize_join_ok lexed even empty
  rw [List.map_nil, List.append_nil] at joined
  exact compile_of_parse joined read

theorem compile_join_output (lexed : tokenize a = .ok ts) (read : parse ts = .ok n)
    (even : a.count 0x22 % 2 = 0) {y : List UInt8} (done : compile b = .ok y) :
    compile (a ++ 0x0A :: b) = .ok (n.children.flatMap (print 0) ++ y) := by
  obtain ⟨us, m, lexed', read', rfl⟩ := compile_eq_ok done
  have joined := tokenize_join_ok lexed even lexed'
  have lowered := parse_map (keepsText_lower (a.count 0x0A + 1)) us
  rw [read'] at lowered
  rw [compile_of_parse joined (parse_append_ok read lowered)]
  show Except.ok ((n.children ++ (m.relabel _).children).flatMap (print 0)) = _
  rw [List.flatMap_append,
    (root_of_parse read').print_relabel (keepsText_lower _) (oneLine_of_tokenize lexed')]

theorem compile_join_syntactic (lexed : tokenize a = .ok ts) (read : parse ts = .ok n)
    (even : a.count 0x22 % 2 = 0) {fault : ParseFault} {k : Nat} (tokens : tokenize b ≠ .ok [])
    (failed : compile b = .error (.syntactic fault k)) :
    compile (a ++ 0x0A :: b) = .error (.syntactic fault (k + ts.length)) := by
  obtain ⟨us, lexed', failed'⟩ := compile_eq_syntactic failed
  have joined := tokenize_join_ok lexed even lexed'
  have lowered := parse_map (keepsText_lower (a.count 0x0A + 1)) us
  rw [failed'] at lowered
  have ne : us.map (Token.lower (a.count 0x0A + 1)) ≠ [] := by
    intro empty
    rw [List.map_eq_nil_iff] at empty
    subst empty
    exact tokens lexed'
  exact compile_of_parse_error joined (parse_append_error read ne lowered)

theorem exists_result (b : List UInt8) :
    tokenize b = .ok [] ∨ (∃ y, compile b = .ok y) ∨
      (∃ c p, compile b = .error (.lexical (.unexpectedByte c p))) ∨
      ∃ fault k, tokenize b ≠ .ok [] ∧ compile b = .error (.syntactic fault k) := by
  obtain ⟨⟨c, p⟩, -, failed⟩ | ⟨us, lexed, ⟨fault, k, -, failed⟩ | ⟨m, -, done⟩⟩ := compile_cases b
  · exact .inr (.inr (.inl ⟨c, p, failed⟩))
  · by_cases empty : tokenize b = .ok []
    · exact .inl empty
    · exact .inr (.inr (.inr ⟨fault, k, empty, failed⟩))
  · exact .inr (.inl ⟨_, done⟩)

/-- What a text below a compiled one contributes depends on nothing above it: its output comes
after the output of the text above, and its faults are those it has alone, further down. The text
above must not end within a string, which an odd number of quotes means. -/
theorem compile_join {x : List UInt8} (compiled : compile a = .ok x)
    (even : a.count 0x22 % 2 = 0) (b : List UInt8) :
    (tokenize b = .ok [] ∨ (∃ y, compile b = .ok y) ∨
      (∃ c p, compile b = .error (.lexical (.unexpectedByte c p))) ∨
      ∃ fault k, tokenize b ≠ .ok [] ∧ compile b = .error (.syntactic fault k)) ∧
    ∃ tokens, tokenize a = .ok tokens ∧
      (tokenize b = .ok [] → compile (a ++ 0x0A :: b) = .ok x) ∧
      (∀ y, compile b = .ok y → compile (a ++ 0x0A :: b) = .ok (x ++ y)) ∧
      (∀ c p, compile b = .error (.lexical (.unexpectedByte c p)) →
        compile (a ++ 0x0A :: b) = .error (.lexical (.unexpectedByte c
          ⟨p.line + 1 + a.count 0x0A, p.column, p.offset + a.length + 1⟩))) ∧
      ∀ fault k, tokenize b ≠ .ok [] → compile b = .error (.syntactic fault k) →
        compile (a ++ 0x0A :: b) = .error (.syntactic fault (k + tokens.length)) := by
  obtain ⟨ts, n, lexed, read, rfl⟩ := compile_eq_ok compiled
  refine ⟨exists_result b, ts, lexed, ?_, ?_, ?_, ?_⟩
  · exact compile_join_nothing lexed read even
  · exact fun y => compile_join_output lexed read even
  · intro c p failed
    rw [compile_of_tokenize_error (tokenize_join_error lexed even (compile_eq_lexical failed))]
    simp [LexFault.shift, Position.shift]
    omega
  · exact fun fault k => compile_join_syntactic lexed read even

/-- A class, and a byte that no token begins with, below a string of two lines. -/
theorem compile_join_string :
    compile (ascii "let s = \"a\nb\"") = .ok (ascii "s = \"a\\nb\"\n") ∧
      (ascii "let s = \"a\nb\"").count 0x22 % 2 = 0 ∧
      compile (ascii "let s = \"a\nb\"" ++ 0x0A :: ascii "class C {}") =
        .ok (ascii "s = \"a\\nb\"\n" ++ ascii "class C:\n    pass\n") ∧
      compile (ascii "let s = \"a\nb\"" ++ 0x0A :: ascii " @") =
        .error (.lexical (.unexpectedByte 0x40 ⟨3, 2, 15⟩)) := by
  have above : compile (ascii "let s = \"a\nb\"") = .ok (ascii "s = \"a\\nb\"\n") :=
    Outcome.eq_ok_of_toOption (by decide +kernel)
  have even : (ascii "let s = \"a\nb\"").count 0x22 % 2 = 0 := by decide
  have below : compile (ascii "class C {}") = .ok (ascii "class C:\n    pass\n") :=
    Outcome.eq_ok_of_toOption (by decide +kernel)
  have stuck : compile (ascii " @") = .error (.lexical (.unexpectedByte 0x40 ⟨1, 2, 1⟩)) :=
    compile_of_tokenize_error (tokenize_eq_error_iff.mpr ⟨_, rfl, rfl⟩)
  obtain ⟨-, -, -, -, joins, -⟩ := compile_join above even (ascii "class C {}")
  obtain ⟨-, -, -, -, -, fails, -⟩ := compile_join above even (ascii " @")
  exact ⟨above, even, joins _ below, fails _ _ stuck⟩

end LittleLang.Decl
