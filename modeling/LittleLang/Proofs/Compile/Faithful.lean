import LittleLang.Proofs.Compile.Places
import LittleLang.Proofs.Print.Lemmas.Nesting

/-!
# What compilation keeps

The output tells the tree of a text whose strings have no backslash, up to the places of tokens.
-/

namespace LittleLang.Decl

open Printer Syntax

/-- No string of the text has a backslash. -/
def PlainStrings (text : List UInt8) : Prop :=
  ∀ tokens, tokenize text = .ok tokens → ∀ t ∈ tokens, t.kind = .str → 0x5C ∉ t.value

theorem plainStrings_of_not_mem {text : List UInt8} (free : 0x5C ∉ text) : PlainStrings text := by
  intro tokens lexed t mem _ inside
  have layout := layout_of_scanWithin (tokenize_eq_ok_iff.mp lexed)
  exact free (layout.value_subset t mem inside)

theorem legible_of_parse {text : List UInt8} {tokens : List Token} {n : Node}
    (lexed : tokenize text = .ok tokens) (read : parse tokens = .ok n) (plain : PlainStrings text) :
    ∃ ns, n = .plain .root ns ∧ ∀ m ∈ ns, Legible .declaration m := by
  have layout := layout_of_scanWithin (tokenize_eq_ok_iff.mp lexed)
  exact (root_of_parse read).legible (layout.legible (plain tokens lexed))

/-- Two texts become the same output exactly if their trees differ in no more than the places of
tokens. The word that declares a variable is not part of its tree. -/
theorem compile_eq_iff_unplaced {a b x y : List UInt8} (ha : compile a = .ok x)
    (hb : compile b = .ok y) (plainA : PlainStrings a) (plainB : PlainStrings b) :
    ∃ n m, (tokenize a >>= parse) = .ok n ∧ (tokenize b >>= parse) = .ok m ∧
      (compile a = compile b ↔ n.unplaced = m.unplaced) := by
  obtain ⟨ts, n, lexed, read, rfl⟩ := compile_eq_ok ha
  obtain ⟨us, m, lexed', read', rfl⟩ := compile_eq_ok hb
  refine ⟨n, m, by rw [lexed]; exact read, by rw [lexed']; exact read', ?_⟩
  rw [ha, hb, Except.ok.injEq]
  constructor
  · intro same
    obtain ⟨ns, rfl, legible⟩ := legible_of_parse lexed read plainA
    obtain ⟨ms, rfl, legible'⟩ := legible_of_parse lexed' read' plainB
    have printed : printAll 0 ns = printAll 0 ms := by
      rw [printAll_eq_flatMap, printAll_eq_flatMap]
      exact same
    rw [Node.unplaced_plain, Node.unplaced_plain, printAll_inj legible legible' printed]
  · intro same
    have written := render_eq_of_unplaced same
    rw [render_eq_print lexed read, render_eq_print lexed' read'] at written
    exact Except.ok.inj written

theorem compile_eq_of_spacing :
    compile (ascii "let s = \"q\" class C \x7b#x = 1\x7d") =
        .ok (ascii "s = \"q\"\nclass C:\n    __x = 1\n") ∧
      compile (ascii "const s=\"q\"\nclass C\x7b#x=1\x7d") =
        .ok (ascii "s = \"q\"\nclass C:\n    __x = 1\n") ∧
      PlainStrings (ascii "let s = \"q\" class C \x7b#x = 1\x7d") ∧
      PlainStrings (ascii "const s=\"q\"\nclass C\x7b#x=1\x7d") ∧
      ∃ n m, (tokenize (ascii "let s = \"q\" class C \x7b#x = 1\x7d") >>= parse) = .ok n ∧
        (tokenize (ascii "const s=\"q\"\nclass C\x7b#x=1\x7d") >>= parse) = .ok m ∧
        n.unplaced = m.unplaced := by
  have done : compile (ascii "let s = \"q\" class C \x7b#x = 1\x7d") =
      .ok (ascii "s = \"q\"\nclass C:\n    __x = 1\n") :=
    Outcome.eq_ok_of_toOption (by decide +kernel)
  have done' : compile (ascii "const s=\"q\"\nclass C\x7b#x=1\x7d") =
      .ok (ascii "s = \"q\"\nclass C:\n    __x = 1\n") :=
    Outcome.eq_ok_of_toOption (by decide +kernel)
  have plain : PlainStrings (ascii "let s = \"q\" class C \x7b#x = 1\x7d") :=
    plainStrings_of_not_mem (by decide)
  have plain' : PlainStrings (ascii "const s=\"q\"\nclass C\x7b#x=1\x7d") :=
    plainStrings_of_not_mem (by decide)
  obtain ⟨n, m, read, read', same⟩ := compile_eq_iff_unplaced done done' plain plain'
  exact ⟨done, done', plain, plain', n, m, read, read', same.mp (done.trans done'.symm)⟩

end LittleLang.Decl
