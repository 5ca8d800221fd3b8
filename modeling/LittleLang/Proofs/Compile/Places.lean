import LittleLang.Proofs.Compile.Stages
import LittleLang.Proofs.Print.Legible
import LittleLang.Proofs.Print.Relabelled

/-!
# The places of tokens do not matter

Two lists of tokens that differ in no more than places have the same fault, or trees that differ in
no more than places and are written alike.
-/

namespace LittleLang.Decl

variable {ts us : List Token} {n m : Node}

theorem render_eq_of_unplaced (same : n.unplaced = m.unplaced) : render n = render m := by
  rw [← render_relabel keepsText_unplaced n, ← render_relabel keepsText_unplaced m]
  exact congrArg render same

/-- The lists have the same tokens, perhaps at other places. -/
structure SameText (ts us : List Token) : Prop where
  length_eq : ts.length = us.length
  agree : ∀ (i : Nat) t u, ts[i]? = some t → us[i]? = some u → t.kind = u.kind ∧ t.value = u.value

namespace SameText

theorem map_unplaced (h : SameText ts us) : ts.map Token.unplaced = us.map Token.unplaced := by
  refine List.ext_getElem (by simpa using h.length_eq) fun i hi hi' => ?_
  rw [List.length_map] at hi hi'
  obtain ⟨kind, value⟩ :=
    h.agree i ts[i] us[i] (List.getElem?_eq_getElem hi) (List.getElem?_eq_getElem hi')
  rw [List.getElem_map, List.getElem_map, Token.unplaced_eq kind value]

theorem map_parse (h : SameText ts us) : Node.unplaced <$> parse ts = Node.unplaced <$> parse us := by
  have read : parse (ts.map Token.unplaced) = Node.unplaced <$> parse ts :=
    parse_map keepsText_unplaced ts
  have read' : parse (us.map Token.unplaced) = Node.unplaced <$> parse us :=
    parse_map keepsText_unplaced us
  rw [← read, ← read', h.map_unplaced]

theorem parse_cases (h : SameText ts us) :
    (∃ fault, parse ts = .error fault ∧ parse us = .error fault) ∨
      ∃ n m, parse ts = .ok n ∧ parse us = .ok m ∧ n.unplaced = m.unplaced := by
  have same := h.map_parse
  cases read : parse ts with
  | error fault =>
      cases read' : parse us with
      | error fault' =>
          rw [read, read'] at same
          cases same
          exact .inl ⟨fault, rfl, rfl⟩
      | ok m =>
          rw [read, read'] at same
          cases same
  | ok n =>
      cases read' : parse us with
      | error fault =>
          rw [read, read'] at same
          cases same
      | ok m =>
          rw [read, read'] at same
          exact .inr ⟨n, m, rfl, rfl, Except.ok.inj same⟩

theorem parse_bind_render (h : SameText ts us) : (parse ts >>= render) = parse us >>= render := by
  rcases h.parse_cases with ⟨fault, read, read'⟩ | ⟨n, m, read, read', same⟩
  · rw [read, read']
  · rw [read, read']
    exact render_eq_of_unplaced same

/-- What comes of tokens depends on their kinds and values alone, valid or not. Texts with the same
tokens become the same output or have the same fault. -/
theorem same_result (h : SameText ts us) :
    ((∃ fault, parse ts = .error fault ∧ parse us = .error fault) ∨
      ∃ n m, parse ts = .ok n ∧ parse us = .ok m ∧ n.unplaced = m.unplaced ∧ render n = render m) ∧
    ∀ a b, tokenize a = .ok ts → tokenize b = .ok us → compile a = compile b := by
  constructor
  · rcases h.parse_cases with ⟨fault, read, read'⟩ | ⟨n, m, read, read', same⟩
    · exact .inl ⟨fault, read, read'⟩
    · exact .inr ⟨n, m, read, read', same, render_eq_of_unplaced same⟩
  · intro a b lexed lexed'
    rw [compile, compile, lexed, lexed']
    exact h.parse_bind_render

/-- A text with little space between its tokens, and one that begins further down. -/
theorem same_result_spread_out :
    ∃ ts us, tokenize (ascii "let x=1") = .ok ts ∧ tokenize (ascii "\n let x = 1") = .ok us ∧
      ts ≠ us ∧ SameText ts us ∧ compile (ascii "let x=1") = compile (ascii "\n let x = 1") := by
  have lexed : tokenize (ascii "let x=1") = .ok [⟨.word, ascii "let", 1, 1⟩, ⟨.word, ascii "x", 1, 5⟩,
      ⟨.eql, ascii "=", 1, 6⟩, ⟨.num, ascii "1", 1, 7⟩] :=
    Outcome.eq_ok_of_toOption (by decide +kernel)
  have lexed' : tokenize (ascii "\n let x = 1") = .ok [⟨.word, ascii "let", 2, 2⟩,
      ⟨.word, ascii "x", 2, 6⟩, ⟨.eql, ascii "=", 2, 8⟩, ⟨.num, ascii "1", 2, 10⟩] :=
    Outcome.eq_ok_of_toOption (by decide +kernel)
  have same : SameText [⟨.word, ascii "let", 1, 1⟩, ⟨.word, ascii "x", 1, 5⟩,
      ⟨.eql, ascii "=", 1, 6⟩, ⟨.num, ascii "1", 1, 7⟩] [⟨.word, ascii "let", 2, 2⟩,
      ⟨.word, ascii "x", 2, 6⟩, ⟨.eql, ascii "=", 2, 8⟩, ⟨.num, ascii "1", 2, 10⟩] := by
    refine ⟨rfl, ?_⟩
    rintro (_ | _ | _ | _ | i) t u ht hu <;> cases ht <;> cases hu <;> exact ⟨rfl, rfl⟩
  obtain ⟨-, compiled⟩ := same.same_result
  exact ⟨_, _, lexed, lexed', by decide, same, compiled _ _ lexed lexed'⟩

end SameText

end LittleLang.Decl
