import LittleLang.Byte.Class
import LittleLang.Proofs.Render.Descendants
import Mathlib.Data.List.Forall2
import Mathlib.Order.Filter.AtTopBot.Basic
import Mathlib.Order.Filter.Finite

/-!
# Layers and lists of nodes

A node comes to the layers that the rules of the sheet write, one behind the other, and a list of nodes
to what they come to, with separators between. In both the first failure is that of the whole.
-/

namespace LittleLang

namespace Outcome

variable {ε α β : Type} {f : α → Outcome ε β} {failure : Failure ε} {a : α} {as before after : List α}
  {bs : List β}

theorem mapM_of_failure (first : ∀ b ∈ before, Succeeds (f b)) (fails : f a = .error failure) :
    (before ++ a :: after).mapM f = .error failure := by
  induction before with
  | nil =>
      rw [List.nil_append, List.mapM_cons, fails]
      rfl
  | cons b before ih =>
      obtain ⟨c, run⟩ := first b List.mem_cons_self
      rw [List.cons_append, List.mapM_cons, run,
        ih fun d mem => first d (List.mem_cons_of_mem _ mem)]
      rfl

theorem mapM_of_forall₂ (h : List.Forall₂ (fun a b => f a = .ok b) as bs) : as.mapM f = .ok bs := by
  induction h with
  | nil => rfl
  | cons first _ ih => exact mapM_cons_eq_ok_iff.mpr ⟨_, _, first, ih, rfl⟩

theorem ne_nil_of_mapM (ne : as ≠ []) (h : as.mapM f = .ok bs) : bs ≠ [] := by
  cases as with
  | nil => exact absurd rfl ne
  | cons a as =>
      obtain ⟨b, later, -, -, rfl⟩ := mapM_cons_eq_ok_iff.mp h
      exact List.cons_ne_nil b later

end Outcome

open Outcome

variable {ν : Type}

/-! ## The layers of a node -/

namespace Stylesheet

/-- What the node comes to, `whole`, follows from what the rules of the sheet come to on it, `comes`: it
is the failure of the first rule that fails, and otherwise what the rules write, which must not be
nothing. -/
structure Layered (sheet : Stylesheet ν) (n : ν) (comes : RenderRule ν → Rendered → Prop)
    (whole : Rendered → Prop) : Prop where
  fails : ∀ before rule after failure,
    sheet.rules.filter (·.applies n) = before ++ rule :: after →
    (∀ earlier ∈ before, ∃ bytes, comes earlier (.ok bytes)) →
    comes rule (.error failure) → whole (.error failure)
  writes : ∀ layers,
    List.Forall₂ (fun rule layer => comes rule (.ok layer)) (sheet.rules.filter (·.applies n))
      layers →
    whole (if layers.flatten = [] then Outcome.fault .emptyOutput else .ok layers.flatten)
  unmatched : (∀ rule ∈ sheet.rules, rule.applies n = false) → whole (Outcome.fault .emptyOutput)

theorem nonempty_eq (bytes : List UInt8) :
    nonempty bytes = if bytes = [] then Outcome.fault .emptyOutput else .ok bytes := by
  cases bytes with
  | nil => rfl
  | cons b bytes => rfl

theorem layered_renderOnce (sheet : Stylesheet ν) (handle : ν → Rendered) (n : ν) :
    sheet.Layered n (fun rule o => rule.render handle n = o)
      (fun o => sheet.renderOnce handle n = o) where
  fails before rule after failure cut first fails := by
    rw [renderOnce, cut, mapM_of_failure first fails]
    rfl
  writes layers written := by
    rw [renderOnce, mapM_of_forall₂ written]
    exact nonempty_eq layers.flatten
  unmatched none := by
    rw [renderOnce, List.filter_eq_nil_iff.mpr (by simpa using none)]
    rfl

/-! ## Enough depth -/

/-- With enough depth for the nodes that it asks for, the rule comes to `o` on the node. -/
def RuleReturns (sheet : Stylesheet ν) (n : ν) (rule : RenderRule ν) (o : Rendered) : Prop :=
  ∀ᶠ depth in Filter.atTop, rule.render (sheet.renderWithin depth) n = o

/-- With enough depth the sheet comes to `o` on the node. -/
def Returns (sheet : Stylesheet ν) (n : ν) (o : Rendered) : Prop :=
  ∀ᶠ depth in Filter.atTop, sheet.renderWithin depth n = o

theorem returns_of_eventually {sheet : Stylesheet ν} {n : ν} {o : Rendered}
    (h : ∀ᶠ depth in Filter.atTop, sheet.renderWithin (depth + 1) n = o) : sheet.Returns n o := by
  rw [Returns, ← Filter.map_add_atTop_eq_nat 1]
  exact Filter.eventually_map.mpr h

theorem eventually_forall₂ {α β : Type} {P : α → β → Nat → Prop} {as : List α} {bs : List β}
    (h : List.Forall₂ (fun a b => ∀ᶠ depth in Filter.atTop, P a b depth) as bs) :
    ∀ᶠ depth in Filter.atTop, List.Forall₂ (P · · depth) as bs := by
  induction h with
  | nil => exact .of_forall fun _ => .nil
  | cons first _ ih =>
      filter_upwards [first, ih] with depth here there
      exact .cons here there

/-- If the rules return, so does the sheet. -/
theorem layered_returns (sheet : Stylesheet ν) (n : ν) :
    sheet.Layered n (sheet.RuleReturns n) (sheet.Returns n) where
  fails before rule after failure cut first fails := by
    have earlier : ∀ᶠ depth in Filter.atTop, ∀ earlier ∈ before, ∃ bytes,
        earlier.render (sheet.renderWithin depth) n = .ok bytes := by
      refine (Filter.eventually_all_finite before.finite_toSet).mpr fun rule mem => ?_
      obtain ⟨bytes, returns⟩ := first rule mem
      exact returns.mono fun _ written => ⟨bytes, written⟩
    refine returns_of_eventually ?_
    filter_upwards [earlier, fails] with depth first fails
    exact (sheet.layered_renderOnce _ n).fails before rule after failure cut first fails
  writes layers written := by
    refine returns_of_eventually ?_
    filter_upwards [eventually_forall₂ written] with depth written
    exact (sheet.layered_renderOnce _ n).writes layers written
  unmatched none := by
    refine returns_of_eventually (.of_forall fun depth => ?_)
    exact (sheet.layered_renderOnce _ n).unmatched none

end Stylesheet

/-! ## Lists of nodes -/

/-- With `render` for the nodes and the separator between them, `join` writes lists of nodes: the first
failure is that of the list, one node is written as it is, and of two parts the second comes behind
the first and a separator. -/
structure Joins (render : ν → Rendered) (separator : List UInt8) (join : List ν → Rendered) :
    Prop where
  fails : ∀ before n after failure, (∀ earlier ∈ before, Succeeds (render earlier)) →
    render n = .error failure → join (before ++ n :: after) = .error failure
  nil : join [] = .ok []
  singleton : ∀ n, join [n] = render n
  append : ∀ ns ms, ns ≠ [] → ms ≠ [] →
    join (ns ++ ms) = do return (← join ns) ++ separator ++ (← join ms)

theorem intercalate_append {separator : List UInt8} {xs ys : List (List UInt8)} (hx : xs ≠ [])
    (hy : ys ≠ []) : separator.intercalate (xs ++ ys) =
      separator.intercalate xs ++ separator ++ separator.intercalate ys := by
  induction xs with
  | nil => exact absurd rfl hx
  | cons x xs ih =>
      cases xs with
      | nil =>
          obtain ⟨y, ys, rfl⟩ := List.exists_cons_of_ne_nil hy
          simp [List.intercalate_cons_cons]
      | cons x' xs => simpa [List.intercalate_cons_cons] using ih (List.cons_ne_nil x' xs)

theorem joined_append {render : ν → Rendered} {separator : List UInt8} {ns ms : List ν}
    (hn : ns ≠ []) (hm : ms ≠ []) : joined render separator (ns ++ ms) =
      do return (← joined render separator ns) ++ separator ++ (← joined render separator ms) := by
  rw [joined, joined, joined, List.mapM_append]
  cases front : ns.mapM render with
  | error failure => rfl
  | ok xs =>
      cases back : ms.mapM render with
      | error failure => rfl
      | ok ys =>
          exact congrArg Except.ok
            (intercalate_append (ne_nil_of_mapM hn front) (ne_nil_of_mapM hm back))

theorem joins_joined (render : ν → Rendered) (separator : List UInt8) :
    Joins render separator (joined render separator) where
  fails before n after failure first fails := by
    rw [joined, mapM_of_failure first fails]
    rfl
  nil := rfl
  singleton n := by
    rw [joined, List.mapM_cons]
    cases render n with
    | error failure => rfl
    | ok bytes => exact congrArg Except.ok (by simp)
  append _ _ hn hm := joined_append hn hm

/-- A node on which the rules return comes to the layers that they write. That is so however deep the
uses of the sheet inside one another may go, and if the rules ask for nothing but what lies below their
nodes, the depth that is allowed is always enough. Lists of nodes come to what their nodes come to,
with separators between. -/
theorem layered_and_joins (sheet : Stylesheet ν) :
    (∀ n, sheet.Layered n (sheet.RuleReturns n) (sheet.Returns n)) ∧
    (∀ depth n, sheet.Layered n (fun rule o => rule.render (sheet.renderWithin depth) n = o)
      (fun o => sheet.renderWithin (depth + 1) n = o)) ∧
    (∀ depth separator,
      Joins (sheet.renderWithin depth) separator (joined (sheet.renderWithin depth) separator)) ∧
    ∀ [Branching ν],
      (sheet.LooksBelow → ∀ n, sheet.Layered n (fun rule o => rule.render sheet.render n = o)
        (fun o => sheet.render n = o)) ∧
      ∀ separator, Joins sheet.render separator (sheet.renderJoined separator) := by
  refine ⟨sheet.layered_returns, fun depth n => ?_, fun depth separator => joins_joined _ separator,
    fun looks n => ?_, fun separator => joins_joined _ separator⟩
  · exact sheet.layered_renderOnce (sheet.renderWithin depth) n
  · rw [looks.render_eq]
    exact sheet.layered_renderOnce sheet.render n

/-- A leaf in brackets is written in three layers. Where two of the layers fail, the first of these
failures is reported and the layer before them is lost. -/
theorem layered_and_joins_of_leaves :
    let sheet := Script.stylesheet
      [(.any, [.lit (ascii "(")]), (.leaf, [.label]), (.any, [.lit (ascii ")")])]
    let failing := Script.stylesheet
      [(.any, [.lit (ascii "(")]), (.any, [.fail (.saying "boom")]), (.leaf, [.child 0])]
    let a := Script.Tree.leaf (ascii "a")
    let b := Script.Tree.leaf (ascii "b")
    sheet.LooksBelow ∧ failing.LooksBelow ∧ sheet.render a = .ok (ascii "(a)") ∧
      failing.render a = Outcome.fault (.saying "boom") ∧
      sheet.renderJoined (ascii "+") ([a] ++ [b]) = .ok (ascii "(a)+(b)") := by
  intro sheet failing a b
  have looks : sheet.LooksBelow := Script.stylesheet_looksBelow _
  have looks' : failing.LooksBelow := Script.stylesheet_looksBelow _
  obtain ⟨-, -, -, nodes⟩ := layered_and_joins sheet
  obtain ⟨-, -, -, nodes'⟩ := layered_and_joins failing
  have written (label : List UInt8) :
      sheet.render (.leaf label) = .ok ([ascii "(", label, ascii ")"].flatten) :=
    (nodes.1 looks (.leaf label)).writes [ascii "(", label, ascii ")"]
      (.cons rfl (.cons (congrArg Except.ok (List.append_nil label)) (.cons rfl .nil)))
  refine ⟨looks, looks', written _, ?_, ?_⟩
  · exact (nodes'.1 looks' a).fails [_] _ [_] _ rfl (List.forall_mem_singleton.mpr ⟨_, rfl⟩) rfl
  · have joins := nodes.2 (ascii "+")
    rw [joins.append [a] [b] (List.cons_ne_nil _ _) (List.cons_ne_nil _ _), joins.singleton,
      joins.singleton, written, written]
    rfl

end LittleLang
