import LittleLang.Decl.Stylesheet
import LittleLang.Proofs.Print.Printer
import LittleLang.Proofs.Spelling.Layout
import LittleLang.Proofs.Syntax.Derivation
import LittleLang.Render.Lemmas.Layers

/-!
# What the stylesheet makes of values, parameters and headers
-/

namespace LittleLang.Decl

open Printer Syntax

/-- The node is written as these bytes, however many levels of the sheet are left over. -/
def Renders (n : Node) (bytes : List UInt8) : Prop :=
  ∀ depth, n.size < depth → stylesheet.renderWithin depth n = .ok bytes

/-- Writes the nodes as the stylesheet does. -/
def Follows (render : Node → Rendered) (ns : List Node) : Prop :=
  ∀ n ∈ ns, ∀ bytes, Renders n bytes → render n = .ok bytes

variable {n : Node} {bytes : List UInt8}

theorem follows_renderWithin {depth : Nat} (lt : n.size < depth + 1) :
    Follows (stylesheet.renderWithin depth) n.children := fun _ hc _ h =>
  h depth (Nat.lt_of_lt_of_le (Node.size_lt_of_mem_children hc) (Nat.le_of_lt_succ lt))

/-- A node to which one rule applies. -/
theorem renders_of_rule {rule : RenderRule Node}
    (rules : stylesheet.rules.filter (·.applies n) = [rule]) (ne : bytes ≠ [])
    (h : ∀ render, Follows render n.children → rule.render render n = .ok bytes) :
    Renders n bytes := by
  intro depth lt
  cases depth with
  | zero => exact absurd lt (Nat.not_lt_zero _)
  | succ depth =>
      have layer := h _ (follows_renderWithin lt)
      refine Stylesheet.renderWithin_eq_ok_iff.mpr ⟨ne, [bytes], ?_, by simp⟩
      simp only [rules, List.mapM_cons, List.mapM_nil, layer]
      rfl

/-- A node that is written in two layers. -/
theorem renders_of_rules {first second : RenderRule Node} {head body : List UInt8}
    (rules : stylesheet.rules.filter (·.applies n) = [first, second]) (ne : head ≠ [])
    (h : ∀ render, Follows render n.children → first.render render n = .ok head)
    (hb : ∀ render, Follows render n.children → second.render render n = .ok body) :
    Renders n (head ++ body) := by
  intro depth lt
  cases depth with
  | zero => exact absurd lt (Nat.not_lt_zero _)
  | succ depth =>
      have upper := h _ (follows_renderWithin lt)
      have lower := hb _ (follows_renderWithin lt)
      have both : head ++ body ≠ [] := by simp [ne]
      refine Stylesheet.renderWithin_eq_ok_iff.mpr ⟨both, [head, body], ?_, by simp⟩
      simp only [rules, List.mapM_cons, List.mapM_nil, upper, lower]
      rfl

/-! ## Values, parameters and headers -/

variable {ts : List Token} {v : Node}

theorem renders_bool {t : Token} (h : t.Spells "true" ∨ t.Spells "false") :
    Renders (.named .boolLiteral t []) (literalText (.named .boolLiteral t [])) := by
  refine renders_of_rule rfl ?_ fun render _ => ?_
  · rw [literalText_bool]
    split <;> simp [ascii]
  · show renderBool (.named .boolLiteral t []) = _
    rw [literalText_bool, renderBool, show (Node.named .boolLiteral t []).value = t.value from rfl]
    rcases h with h | h
    · rw [if_pos h.2, if_pos h.2]
    · have ne : t.value ≠ ascii "true" := by
        rw [h.2]
        decide
      rw [if_neg ne, if_neg ne, if_pos h.2]

theorem renders_value (h : Value ts v) (lexed : ∀ t ∈ ts, t.OneLine) :
    Renders v (literalText v) := by
  cases h with
  | @number t ht =>
      exact renders_of_rule rfl (lexed t (by simp) (by simp [ht])).1 fun _ _ => rfl
  | string => exact renders_of_rule rfl (by simp [ascii]) fun _ _ => rfl
  | boolean ht => exact renders_bool ht

theorem lineFeed_not_mem_escaped (b : UInt8) : lineFeed ∉ escaped b := by
  unfold escaped
  split
  · decide
  · split
    · decide
    · rename_i other _
      simpa [lineFeed] using Ne.symm other

theorem literal_oneLine (h : Value ts v) (lexed : ∀ t ∈ ts, t.OneLine) :
    lineFeed ∉ literalText v := by
  cases h with
  | @number t ht => exact (lexed t (by simp) (by simp [ht])).2
  | @string t ht =>
      have quote : lineFeed ∉ ascii "\"" := by decide
      simp [quote, lineFeed_not_mem_escaped]
  | boolean =>
      rw [literalText_bool]
      split <;> decide

@[simp] theorem child_zero {kind : NodeKind} {token : Token} {ns : List Node} :
    child (.named kind token (v :: ns)) 0 = .ok v := rfl

theorem binding_eq {render : Node → Rendered} {kind : NodeKind} {name : Token}
    (follows : Follows render [v]) (h : Renders v (literalText v)) :
    renderBinding render (.named kind name [v]) = .ok (bindingText name v) := by
  have value : render v = .ok (literalText v) := follows v List.mem_cons_self _ h
  simp only [renderBinding, child_zero]
  show (render v >>= _) = _
  rw [value]
  rfl

theorem binding_oneLine {name : Token} (h : Binding ts name v) (lexed : ∀ t ∈ ts, t.OneLine) :
    Renders v (literalText v) ∧ name.value ≠ [] ∧ lineFeed ∉ name.value ∧
      lineFeed ∉ literalText v := by
  cases h with
  | @mk name equals ts v hn he hv =>
      have inside : ∀ t ∈ ts, t.OneLine := fun t ht => lexed t (by simp [ht])
      have named := lexed name (by simp) (by simp [hn])
      exact ⟨renders_value hv inside, named.1, named.2, literal_oneLine hv inside⟩

theorem bindingText_oneLine {name : Token} (h : Binding ts name v) (lexed : ∀ t ∈ ts, t.OneLine) :
    Renders v (literalText v) ∧ bindingText name v ≠ [] ∧ lineFeed ∉ bindingText name v := by
  obtain ⟨value, ne, named, oneLine⟩ := binding_oneLine h lexed
  have mark : lineFeed ∉ ascii " = " := by decide
  exact ⟨value, by simp [bindingText, ne], by simp [bindingText, named, oneLine, mark]⟩

/-- The parameter is written by the sheet as it is printed, and on one line. -/
structure WritesParam (n : Node) : Prop where
  renders : Renders n (paramText n)
  ne_nil : paramText n ≠ []
  oneLine : lineFeed ∉ paramText n

theorem writesParam (h : Param ts n) (lexed : ∀ t ∈ ts, t.OneLine) : WritesParam n := by
  cases h with
  | @bare name hn =>
      have named := lexed name (by simp) (by simp [hn])
      exact ⟨renders_of_rule rfl named.1 fun _ _ => rfl, named.1, named.2⟩
  | @withDefault ts name v hb =>
      obtain ⟨value, ne, named, oneLine⟩ := binding_oneLine hb lexed
      have text : paramText (.named .param name [v]) =
          name.value ++ ascii "=" ++ literalText v := rfl
      have mark : lineFeed ∉ ascii "=" := by decide
      refine ⟨renders_of_rule rfl ?_ fun render follows => ?_, ?_, ?_⟩
      · simp [text, ne]
      · show (render v >>= _) = _
        rw [follows v List.mem_cons_self _ value]
        rfl
      · simp [text, ne]
      · simp [text, named, oneLine, mark]

theorem Syntax.MoreParams.writes {ns : List Node} (h : MoreParams ts ns)
    (lexed : ∀ t ∈ ts, t.OneLine) : ∀ n ∈ ns, WritesParam n := by
  induction h with
  | none => simp
  | @next comma ts n us ns hc hp hm ih =>
      refine List.forall_mem_cons.mpr ⟨writesParam hp ?_, ih ?_⟩
      · exact fun t ht => lexed t (by simp [ht])
      · exact fun t ht => lexed t (by simp [ht])

theorem Syntax.Args.writes {a : Node} (h : Args ts a) (lexed : ∀ t ∈ ts, t.OneLine) :
    ∃ ns, a = .plain .args ns ∧ ∀ n ∈ ns, WritesParam n := by
  cases h with
  | none => exact ⟨[], rfl, by simp⟩
  | @some opening ts n us ns closing ho hp hm hc =>
      refine ⟨n :: ns, rfl, List.forall_mem_cons.mpr ⟨writesParam hp ?_, hm.writes ?_⟩⟩
      · exact fun t ht => lexed t (by simp [ht])
      · exact fun t ht => lexed t (by simp [ht])

theorem mapM_eq_ok {render : Node → Rendered} {f : Node → List UInt8} {ns : List Node}
    (h : ∀ n ∈ ns, render n = .ok (f n)) : ns.mapM render = .ok (ns.map f) :=
  (Outcome.mapM_congr h).trans List.mapM_pure

theorem renders_args {ns : List Node} (ne : ns ≠ []) (h : ∀ n ∈ ns, WritesParam n) :
    Renders (.plain .args ns) ((ascii ", ").intercalate (ns.map paramText)) := by
  refine renders_of_rule rfl ?_ fun render follows => ?_
  · cases ns with
    | nil => exact absurd rfl ne
    | cons n ns =>
        have first := (h n List.mem_cons_self).ne_nil
        cases ns with
        | nil => simpa using first
        | cons m ns => simp [List.intercalate_cons_cons, first]
  · show ((ascii ", ").intercalate ·) <$> ns.mapM render = _
    have parts : ns.mapM render = .ok (ns.map paramText) :=
      mapM_eq_ok fun n hn => follows n hn _ (h n hn).renders
    rw [parts]
    rfl

theorem receiver_function {name : Token} {children : List Node} {a : Node} :
    receiver (.named .funcDeclaration name children) a = [] := rfl

theorem receiver_method {name : Token} {children ns : List Node} :
    receiver (.named .method name children) (.plain .args ns) ++
      (ascii ", ").intercalate (ns.map paramText) =
        (ascii ", ").intercalate (ascii "self" :: ns.map paramText) := by
  cases ns with
  | nil => rfl
  | cons n ns =>
      have self : ascii "self, " = ascii "self" ++ ascii ", " := by decide
      rw [List.intercalate_cons_of_ne_nil (by simp), ← self]
      rfl

/-- The header, where the receiver and the parameters make up the list `params`. -/
theorem signature_eq {render : Node → Rendered} {kind : NodeKind} {name : Token} {ns : List Node}
    {body : Node} {params : List (List UInt8)}
    (follows : Follows render [.plain .args ns, body])
    (written : ∀ n ∈ ns, WritesParam n)
    (whole : receiver (.named kind name [.plain .args ns, body]) (.plain .args ns) ++
      (ascii ", ").intercalate (ns.map paramText) = (ascii ", ").intercalate params) :
    renderSignature render (.named kind name [.plain .args ns, body]) =
      .ok (signature name params ++ [lineFeed]) := by
  have written : renderParams render (.plain .args ns) =
      .ok ((ascii ", ").intercalate (ns.map paramText)) := by
    cases ns with
    | nil => rfl
    | cons n ns => exact follows _ List.mem_cons_self _ (renders_args (by simp) written)
  simp only [renderSignature, child_zero]
  show (renderParams render (.plain .args ns) >>= _) = _
  rw [written]
  have ending : ascii "):\n" = ascii "):" ++ [lineFeed] := by decide
  show Except.ok (ascii "def " ++ name.value ++ ascii "(" ++ _ ++ _ ++ ascii "):\n") = _
  rw [signature, ← whole, ending]
  simp only [List.append_assoc]

theorem params_oneLine {ps : List Node} (h : ∀ p ∈ ps, WritesParam p) :
    ∀ text ∈ ps.map paramText, lineFeed ∉ text := by
  intro text mem
  obtain ⟨p, hp, rfl⟩ := List.mem_map.mp mem
  exact (h p hp).oneLine

theorem intercalate_oneLine {params : List (List UInt8)} (h : ∀ p ∈ params, lineFeed ∉ p) :
    lineFeed ∉ (ascii ", ").intercalate params := by
  induction params with
  | nil => simp
  | cons p params ih =>
      have hp := h p List.mem_cons_self
      have rest := ih fun q hq => h q (List.mem_cons_of_mem _ hq)
      by_cases ne : params = []
      · subst ne
        simpa using hp
      · have comma : lineFeed ∉ ascii ", " := by decide
        rw [List.intercalate_cons_of_ne_nil ne]
        simp [hp, comma, rest]

theorem signature_oneLine {name : Token} {params : List (List UInt8)}
    (named : lineFeed ∉ name.value) (h : ∀ p ∈ params, lineFeed ∉ p) :
    lineFeed ∉ signature name params := by
  have words : lineFeed ∉ ascii "def " ∧ lineFeed ∉ ascii "(" ∧ lineFeed ∉ ascii "):" := by decide
  simp [signature, named, words, intercalate_oneLine h]

end LittleLang.Decl
