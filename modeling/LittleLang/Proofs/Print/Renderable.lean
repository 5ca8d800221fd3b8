import LittleLang.Proofs.Print.Indentation
import LittleLang.Render.Lemmas.Layers

/-!
# The trees that can be written

The stylesheet is asked for trees of any shape, not only for those that are read from texts. Which of
them it writes can be told from their shape, kind by kind: a node needs the children that its rules
ask for, the others do not matter, and it must not come to nothing.
-/

namespace LittleLang.Decl

open Outcome Stylesheet

/-- The trees that the stylesheet writes. Children that no rule asks for do not matter, and the
parameters of a function are not asked for if there are none, whatever their node is. -/
inductive Renderable : Node → Prop
  | number {token? ns} : (Node.node .numberLiteral token? ns).value ≠ [] →
      Renderable (.node .numberLiteral token? ns)
  | string {token? ns} : Renderable (.node .stringLiteral token? ns)
  | boolean {token? ns} : (Node.node .boolLiteral token? ns).value = ascii "true" ∨
      (Node.node .boolLiteral token? ns).value = ascii "false" →
      Renderable (.node .boolLiteral token? ns)
  | list {kind token? ns} : kind = .root ∨ kind = .args → ns ≠ [] → (∀ n ∈ ns, Renderable n) →
      Renderable (.node kind token? ns)
  | suite {kind token? ns} : kind = .block ∨ kind = .classDeclaration → (∀ n ∈ ns, Renderable n) →
      Renderable (.node kind token? ns)
  | binding {kind token? ns v} : kind = .varDeclaration ∨ kind = .privateField →
      ns[0]? = some v → Renderable v → Renderable (.node kind token? ns)
  | callable {kind token? ns args body} : kind = .funcDeclaration ∨ kind = .method →
      ns[0]? = some args → (args.children ≠ [] → Renderable args) →
      ns[1]? = some body → Renderable body → Renderable (.node kind token? ns)
  | param {token? v ns} : Renderable v → Renderable (.node .param token? (v :: ns))
  | bareParam {token?} : (Node.node .param token? []).value ≠ [] →
      Renderable (.node .param token? [])

/-! ## Rules -/

section

variable {render : Node → Rendered} {n : Node} {ns : List Node}

theorem child_eq_ok_iff {c : Node} {index : Nat} :
    child n index = .ok c ↔ n.children[index]? = some c := by
  unfold child
  split
  · rename_i found
    simp [found]
  · rename_i missing
    simp [missing, Outcome.fault]

theorem writes_root_iff : Writes (renderRoot render n) ↔
    n.children ≠ [] ∧ ∀ c ∈ n.children, Succeeds (render c) := by
  rw [← succeeds_mapM_iff, renderRoot, writes_bind_iff]
  constructor
  · rintro ⟨lines, written, some⟩
    refine ⟨fun none => ?_, lines, written⟩
    rw [none] at written
    cases written
    exact writes_ok_iff.mp some rfl
  · rintro ⟨ne, lines, written⟩
    refine ⟨lines, written, writes_ok_iff.mpr ?_⟩
    obtain ⟨c, cs, children⟩ := List.exists_cons_of_ne_nil ne
    rw [children] at written
    obtain ⟨line, later, -, -, rfl⟩ := mapM_cons_eq_ok_iff.mp written
    simp

theorem succeeds_binding_iff : Succeeds (renderBinding render n) ↔
    ∃ v, n.children[0]? = some v ∧ Succeeds (render v) := by
  simp only [renderBinding, succeeds_bind_iff, child_eq_ok_iff, succeeds_pure, and_true]
  rfl

theorem writes_binding_iff : Writes (renderBinding render n) ↔
    ∃ v, n.children[0]? = some v ∧ Succeeds (render v) := by
  have ne : ∀ value, n.value ++ ascii " = " ++ value ≠ [] := by simp [ascii]
  simp only [renderBinding, writes_bind_iff (o := child n 0), child_eq_ok_iff,
    writes_bind_pure_iff ne]

theorem writes_privateField_iff : Writes (renderPrivateField render n) ↔
    ∃ v, n.children[0]? = some v ∧ Succeeds (render v) := by
  have ne : ∀ text, ascii "__" ++ text ≠ [] := by simp [ascii]
  rw [renderPrivateField, writes_bind_pure_iff ne, succeeds_binding_iff]

theorem succeeds_params_iff {args : Node} : Succeeds (renderParams render args) ↔
    (args.children ≠ [] → Succeeds (render args)) := by
  cases none : args.children with
  | nil =>
      rw [renderParams, none]
      exact iff_of_true ⟨[], rfl⟩ nofun
  | cons c cs =>
      rw [renderParams, none]
      exact ⟨fun h _ => h, fun h => h nofun⟩

theorem succeeds_signature_iff : Succeeds (renderSignature render n) ↔
    ∃ args, n.children[0]? = some args ∧ (args.children ≠ [] → Succeeds (render args)) := by
  simp only [renderSignature, succeeds_bind_iff, child_eq_ok_iff, succeeds_pure, and_true,
    ← succeeds_params_iff]
  rfl

theorem signature_ne_nil {out : List UInt8} (h : renderSignature render n = .ok out) :
    out ≠ [] := by
  simp only [renderSignature, bind_eq_ok_iff] at h
  obtain ⟨args, -, params, -, ⟨⟩⟩ := h
  simp [ascii]

theorem succeeds_body_iff : Succeeds (renderBody render n) ↔
    ∃ body, n.children[1]? = some body ∧ Succeeds (render body) := by
  simp only [renderBody, succeeds_bind_iff, child_eq_ok_iff]

theorem header_ne_nil {out : List UInt8} (h : renderClassHeader n = .ok out) : out ≠ [] := by
  cases h
  simp [ascii]

theorem writes_param_iff {token? : Option Token} {v : Node} :
    Writes (renderParam render (.node .param token? (v :: ns))) ↔ Succeeds (render v) := by
  have ne : ∀ text, (Node.node .param token? (v :: ns)).value ++ ascii "=" ++ text ≠ [] := by
    simp [ascii]
  exact writes_bind_pure_iff ne

theorem writes_bool_iff : Writes (renderBool n) ↔
    n.value = ascii "true" ∨ n.value = ascii "false" := by
  unfold renderBool
  split
  · rename_i h
    exact iff_of_true (writes_ok_iff.mpr (by decide)) (.inl h)
  · rename_i not_true
    split
    · rename_i h
      exact iff_of_true (writes_ok_iff.mpr (by decide)) (.inr h)
    · rename_i not_false
      refine iff_of_false ?_ (not_or.mpr ⟨not_true, not_false⟩)
      rintro ⟨_, ⟨⟩, _⟩

theorem succeeds_suite_iff : Succeeds (suite render ns) ↔ ∀ c ∈ ns, Succeeds (render c) := by
  cases ns with
  | nil => exact iff_of_true ⟨_, rfl⟩ (by simp)
  | cons c cs =>
      show Succeeds (indent <$> joined render [lineFeed] (c :: cs)) ↔ _
      rw [succeeds_map_iff, joined, succeeds_map_iff, succeeds_mapM_iff]

end

/-! ## Rules that can come to nothing -/

theorem intercalate_ne_nil {separator line : List UInt8} {lines : List (List UInt8)}
    (ne : line ≠ []) : separator.intercalate (line :: lines) ≠ [] := by
  cases lines with
  | nil => simpa using ne
  | cons next lines => simp [List.intercalate_cons_cons, ne]

theorem indent_ne_nil_iff {body : List UInt8} : indent body ≠ [] ↔ body ≠ [] :=
  indent_injective.ne_iff' rfl

section

variable {render : Node → Rendered} {ns : List Node} {separator : List UInt8}
  (render_ne : ∀ {n out}, render n = .ok out → out ≠ [])
include render_ne

theorem writes_joined_iff : Writes (joined render separator ns) ↔
    ns ≠ [] ∧ ∀ c ∈ ns, Succeeds (render c) := by
  rw [← succeeds_mapM_iff]
  simp only [Writes, Succeeds, joined, map_eq_ok_iff]
  constructor
  · rintro ⟨out, ⟨lines, written, rfl⟩, ne⟩
    refine ⟨?_, lines, written⟩
    rintro rfl
    cases written
    exact ne rfl
  · rintro ⟨ne, lines, written⟩
    obtain ⟨c, cs, rfl⟩ := List.exists_cons_of_ne_nil ne
    obtain ⟨line, later, first, -, rfl⟩ := mapM_cons_eq_ok_iff.mp written
    exact ⟨_, ⟨_, written, rfl⟩, intercalate_ne_nil (render_ne first)⟩

theorem writes_suite_iff : Writes (suite render ns) ↔ ∀ c ∈ ns, Succeeds (render c) := by
  cases ns with
  | nil => exact iff_of_true ⟨_, rfl, indent_ne_nil_iff.mpr (by decide)⟩ (by simp)
  | cons c cs =>
      show Writes (indent <$> joined render [lineFeed] (c :: cs)) ↔ _
      rw [writes_map_iff indent_ne_nil_iff, writes_joined_iff render_ne]
      exact and_iff_right (List.cons_ne_nil c cs)

end

/-! ## Nodes -/

section

variable {kind : NodeKind} {token? : Option Token} {ns : List Node} {depth : Nat}

theorem succeeds_list_node_iff (h : kind = .root ∨ kind = .args) :
    Succeeds (stylesheet.renderWithin (depth + 1) (.node kind token? ns)) ↔
      ns ≠ [] ∧ ∀ c ∈ ns, Succeeds (stylesheet.renderWithin depth c) := by
  rcases h with rfl | rfl
  · exact (succeeds_of_rule rfl).trans writes_root_iff
  · exact (succeeds_of_rule rfl).trans (writes_joined_iff renderWithin_ne_nil)

theorem succeeds_suite_node_iff (h : kind = .block ∨ kind = .classDeclaration) :
    Succeeds (stylesheet.renderWithin (depth + 1) (.node kind token? ns)) ↔
      ∀ c ∈ ns, Succeeds (stylesheet.renderWithin depth c) := by
  rcases h with rfl | rfl
  · exact (succeeds_of_rule rfl).trans (writes_suite_iff renderWithin_ne_nil)
  · refine (succeeds_of_rules rfl fun _ => header_ne_nil).trans ?_
    exact (and_iff_right ⟨_, rfl⟩).trans succeeds_suite_iff

theorem succeeds_binding_node_iff (h : kind = .varDeclaration ∨ kind = .privateField) :
    Succeeds (stylesheet.renderWithin (depth + 1) (.node kind token? ns)) ↔
      ∃ v, ns[0]? = some v ∧ Succeeds (stylesheet.renderWithin depth v) := by
  rcases h with rfl | rfl
  · exact (succeeds_of_rule rfl).trans writes_binding_iff
  · exact (succeeds_of_rule rfl).trans writes_privateField_iff

theorem succeeds_callable_node_iff (h : kind = .funcDeclaration ∨ kind = .method) :
    Succeeds (stylesheet.renderWithin (depth + 1) (.node kind token? ns)) ↔
      (∃ args, ns[0]? = some args ∧
        (args.children ≠ [] → Succeeds (stylesheet.renderWithin depth args))) ∧
      ∃ body, ns[1]? = some body ∧ Succeeds (stylesheet.renderWithin depth body) := by
  rcases h with rfl | rfl
  · refine (succeeds_of_rules rfl fun _ => signature_ne_nil).trans ?_
    exact and_congr succeeds_signature_iff succeeds_body_iff
  · refine (succeeds_of_rules rfl fun _ => signature_ne_nil).trans ?_
    exact and_congr succeeds_signature_iff succeeds_body_iff

end

/-! ## Whole trees -/

variable {n : Node} {depth : Nat}

theorem renderable_of_succeeds (h : Succeeds (stylesheet.renderWithin depth n)) :
    Renderable n := by
  induction depth generalizing n with
  | zero =>
      obtain ⟨out, none⟩ := h
      cases none
  | succ depth ih =>
      rcases n with ⟨kind, token?, ns⟩
      cases kind with
      | root | args =>
          obtain ⟨ne, all⟩ := (succeeds_list_node_iff (by simp)).mp h
          exact .list (by simp) ne fun c mem => ih (all c mem)
      | block | classDeclaration =>
          have all := (succeeds_suite_node_iff (by simp)).mp h
          exact .suite (by simp) fun c mem => ih (all c mem)
      | varDeclaration | privateField =>
          obtain ⟨v, first, hv⟩ := (succeeds_binding_node_iff (by simp)).mp h
          exact .binding (by simp) first (ih hv)
      | funcDeclaration | method =>
          obtain ⟨⟨args, first, params⟩, body, second, hb⟩ :=
            (succeeds_callable_node_iff (by simp)).mp h
          exact .callable (by simp) first (fun some => ih (params some)) second (ih hb)
      | param =>
          have written := (succeeds_of_rule rfl).mp h
          cases ns with
          | nil => exact .bareParam (writes_ok_iff.mp written)
          | cons v ns => exact .param (ih (writes_param_iff.mp written))
      | numberLiteral => exact .number (writes_ok_iff.mp ((succeeds_of_rule rfl).mp h))
      | stringLiteral => exact .string
      | boolLiteral => exact .boolean (writes_bool_iff.mp ((succeeds_of_rule rfl).mp h))

/-- What the sheet asks for the node at one level less it finds at the children. -/
theorem succeeds_of_children (lt : n.size < depth)
    (h : ∀ depth, (∀ c ∈ n.children, c.size < depth) →
      Succeeds (stylesheet.renderWithin (depth + 1) n)) :
    Succeeds (stylesheet.renderWithin depth n) := by
  cases depth with
  | zero => exact absurd lt (Nat.not_lt_zero _)
  | succ depth =>
      refine h depth fun c mem => ?_
      exact Nat.lt_of_lt_of_le (Node.size_lt_of_mem_children mem) (Nat.le_of_lt_succ lt)

theorem Renderable.succeeds (h : Renderable n) (lt : n.size < depth) :
    Succeeds (stylesheet.renderWithin depth n) := by
  induction h generalizing depth with
  | number ne =>
      exact succeeds_of_children lt fun _ _ => (succeeds_of_rule rfl).mpr (writes_ok_iff.mpr ne)
  | string =>
      exact succeeds_of_children lt fun _ _ =>
        (succeeds_of_rule rfl).mpr (writes_ok_iff.mpr (by simp [quotedBytes, ascii]))
  | boolean spelled =>
      exact succeeds_of_children lt fun _ _ =>
        (succeeds_of_rule rfl).mpr (writes_bool_iff.mpr spelled)
  | list hk ne _ ih =>
      refine succeeds_of_children lt fun depth below => ?_
      exact (succeeds_list_node_iff hk).mpr ⟨ne, fun c mem => ih c mem (below c mem)⟩
  | suite hk _ ih =>
      refine succeeds_of_children lt fun depth below => ?_
      exact (succeeds_suite_node_iff hk).mpr fun c mem => ih c mem (below c mem)
  | binding hk first _ ih =>
      refine succeeds_of_children lt fun depth below => ?_
      exact (succeeds_binding_node_iff hk).mpr
        ⟨_, first, ih (below _ (List.mem_of_getElem? first))⟩
  | callable hk first _ second _ params body =>
      refine succeeds_of_children lt fun depth below => ?_
      refine (succeeds_callable_node_iff hk).mpr ⟨⟨_, first, fun some => ?_⟩, _, second, ?_⟩
      · exact params some (below _ (List.mem_of_getElem? first))
      · exact body (below _ (List.mem_of_getElem? second))
  | param _ ih =>
      refine succeeds_of_children lt fun depth below => ?_
      exact (succeeds_of_rule rfl).mpr (writes_param_iff.mpr (ih (below _ List.mem_cons_self)))
  | bareParam ne =>
      exact succeeds_of_children lt fun _ _ => (succeeds_of_rule rfl).mpr (writes_ok_iff.mpr ne)

/-- The stylesheet writes exactly the renderable trees, and none of them as nothing. -/
theorem render_succeeds_iff (n : Node) :
    ((∃ out, stylesheet.render n = .ok out) ↔ Renderable n) ∧
      ∀ out, stylesheet.render n = .ok out → out ≠ [] :=
  ⟨⟨renderable_of_succeeds, fun h => h.succeeds (Nat.lt_succ_self _)⟩,
    fun _ => renderWithin_ne_nil⟩

end LittleLang.Decl
