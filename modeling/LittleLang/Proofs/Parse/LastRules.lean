import LittleLang.Parse.Grammar
import LittleLang.Script.Parse
import Mathlib.Data.List.Sort

/-!
# Only the last rule of a name counts

A table of names is known by what it has under each name, and that is what was put there last. So a
grammar depends neither on the order in which different names are registered nor on rules that were
replaced.
-/

namespace LittleLang

namespace NameTable

variable {α : Type} {table t u : NameTable α} {entries : List (String × α)} {entry : String × α}
  {name key : String} {value : α}

/-! ## Tables by their names -/

theorem find?_place (name key : String) (value : α) (entries : List (String × α)) :
    (place name value entries).find? (·.1 = key) =
      if name = key then some (name, value) else entries.find? (·.1 = key) := by
  induction entries with
  | nil => by_cases same : name = key <;> simp [place, same]
  | cons first rest ih =>
      rw [place]
      split
      · by_cases same : name = key <;> simp [same]
      · split
        · rename_i replaced
          by_cases same : name = key
          · simp [same]
          · have other : first.1 ≠ key := replaced ▸ same
            simp [same, other]
        · rename_i different
          rw [List.find?_cons, List.find?_cons, ih]
          by_cases same : name = key
          · have other : first.1 ≠ key := fun h => different (same.trans h.symm)
            simp [same, other]
          · simp [same]

theorem get?_insert (table : NameTable α) (name key : String) (value : α) :
    (table.insert name value).get? key = if name = key then some value else table.get? key := by
  rw [get?, insert, find?_place]
  split
  · rfl
  · rfl

theorem find?_of_mem (ordered : entries.Pairwise fun a b => a.1 < b.1) (mem : entry ∈ entries) :
    entries.find? (·.1 = entry.1) = some entry := by
  induction entries with
  | nil => cases mem
  | cons first rest ih =>
      obtain ⟨above, later⟩ := List.pairwise_cons.mp ordered
      rcases List.mem_cons.mp mem with rfl | mem
      · simp
      · have other : first.1 ≠ entry.1 := String.ne_of_lt (above entry mem)
        rw [List.find?_cons_of_neg (by simpa using other)]
        exact ih later mem

theorem mem_entries_iff : entry ∈ table.entries ↔ table.get? entry.1 = some entry.2 := by
  constructor
  · intro mem
    rw [get?, find?_of_mem table.ordered mem]
    rfl
  · exact mem_of_get?

/-- The entries are in order, so they can be told from what is found under the names. -/
theorem eq_of_get? (same : ∀ name, t.get? name = u.get? name) : t = u := by
  have mem_iff : ∀ entry, entry ∈ t.entries ↔ entry ∈ u.entries := by
    intro entry
    rw [mem_entries_iff, mem_entries_iff, same]
  have : Std.Irrefl fun a b : String × α => a.1 < b.1 := ⟨fun a => String.lt_irrefl a.1⟩
  have : Std.Antisymm fun a b : String × α => a.1 < b.1 :=
    ⟨fun a b lt gt => absurd gt (String.lt_asymm lt)⟩
  have entries_eq := t.ordered.eq_of_mem_iff u.ordered mem_iff
  cases t
  cases u
  cases entries_eq
  rfl

/-! ## Tables by what was put into them -/

/-- What the last of the entries with that name holds. -/
def lastOf? (entries : List (String × α)) (name : String) : Option α :=
  (entries.findRev? (·.1 = name)).map (·.2)

theorem lastOf?_cons : lastOf? (entry :: entries) name =
    (lastOf? entries name).or (if entry.1 = name then some entry.2 else none) := by
  rw [lastOf?, lastOf?, List.findRev?]
  cases entries.findRev? (·.1 = name) with
  | some later => rfl
  | none => by_cases same : entry.1 = name <;> simp [same]

theorem get?_foldl_insert (entries : List (String × α)) (table : NameTable α) (name : String) :
    (entries.foldl (fun table entry => table.insert entry.1 entry.2) table).get? name =
      (lastOf? entries name).or (table.get? name) := by
  induction entries generalizing table with
  | nil => rfl
  | cons entry entries ih =>
      rw [List.foldl_cons, ih, get?_insert, lastOf?_cons, Option.or_assoc]
      split <;> rfl

theorem get?_ofList (entries : List (String × α)) (name : String) :
    (ofList entries).get? name = lastOf? entries name :=
  (get?_foldl_insert entries empty name).trans (Option.or_none)

theorem ordered_names (table : NameTable α) : table.names.Pairwise (· < ·) :=
  List.pairwise_map.mpr table.ordered

theorem mem_names_iff : name ∈ table.names ↔ table.contains name = true := by
  rw [names, List.mem_map, contains, Option.isSome_iff_exists]
  constructor
  · rintro ⟨entry, mem, rfl⟩
    exact ⟨entry.2, mem_entries_iff.mp mem⟩
  · rintro ⟨value, found⟩
    exact ⟨(name, value), mem_of_get? found, rfl⟩

theorem isSome_lastOf?_iff : (lastOf? entries name).isSome = true ↔ name ∈ entries.map (·.1) := by
  induction entries with
  | nil => simp [lastOf?]
  | cons entry entries ih =>
      rw [lastOf?_cons, List.map_cons, List.mem_cons, Option.isSome_or, Bool.or_eq_true, ih, or_comm]
      refine or_congr_left ?_
      by_cases same : entry.1 = name
      · simp [same]
      · simp [same, Ne.symm same]

end NameTable

/-! ## Grammars by what was registered -/

namespace Grammar

open NameTable (lastOf?)

variable {τ ν : Type} {root : String} {rules others : List (String × GrammarRule τ ν)}

/-- The grammar with that root after the rules have been put into it, one after another. -/
def registered (root : String) (rules : List (String × GrammarRule τ ν)) : Grammar τ ν :=
  rules.foldl (fun g entry => g.withRule entry.1 entry.2) (.ofRules root [])

theorem foldl_withRule (g : Grammar τ ν) (rules : List (String × GrammarRule τ ν)) :
    rules.foldl (fun g entry => g.withRule entry.1 entry.2) g =
      ⟨g.root, rules.foldl (fun table entry => table.insert entry.1 entry.2) g.rules⟩ := by
  induction rules generalizing g with
  | nil => rfl
  | cons entry rules ih => exact ih (g.withRule entry.1 entry.2)

theorem registered_eq_ofRules : registered root rules = .ofRules root rules :=
  foldl_withRule (.ofRules root []) rules

theorem hasRule_registered (name : String) :
    (registered root rules).hasRule name = (lastOf? rules name).isSome := by
  rw [registered_eq_ofRules, hasRule, NameTable.contains, ofRules, NameTable.get?_ofList]

theorem registered_eq_iff :
    registered root rules = registered root others ↔
      ∀ name, lastOf? rules name = lastOf? others name := by
  rw [registered_eq_ofRules, registered_eq_ofRules]
  constructor
  · intro same name
    rw [← NameTable.get?_ofList, ← NameTable.get?_ofList]
    exact congrArg (fun g : Grammar τ ν => g.rules.get? name) same
  · intro same
    refine congrArg (Grammar.mk root) (NameTable.eq_of_get? fun name => ?_)
    rw [NameTable.get?_ofList, NameTable.get?_ofList, same]

theorem mem_names_registered (name : String) :
    name ∈ (registered root rules).rules.names ↔ name ∈ rules.map (·.1) := by
  rw [NameTable.mem_names_iff, ← NameTable.isSome_lastOf?_iff]
  exact iff_of_eq (congrArg (· = true) (hasRule_registered name))

/-- Two grammars with one root are alike if every name was given the same rule last. The names that
they show are those that were registered, each once and in their order. -/
theorem last_rules_decide (root : String) (rules others : List (String × GrammarRule τ ν))
    (same : ∀ name, lastOf? rules name = lastOf? others name) :
    (∀ s, (registered root rules).parse s = (registered root others).parse s) ∧
      (∀ depth s,
        (registered root rules).parseWithin depth s = (registered root others).parseWithin depth s) ∧
      (∀ depth name s,
        (registered root rules).call depth name s = (registered root others).call depth name s) ∧
      (∀ name, (registered root rules).hasRule name = (registered root others).hasRule name) ∧
      (∀ onLines, (inspect (registered root rules)).toText onLines =
        (inspect (registered root others)).toText onLines) ∧
      (registered root rules).rules.names.Pairwise (· < ·) ∧
      ∀ name, name ∈ (registered root rules).rules.names ↔ name ∈ rules.map (·.1) := by
  have whole : registered root rules = registered root others := registered_eq_iff.mpr same
  refine ⟨?_, ?_, ?_, ?_, ?_, NameTable.ordered_names _, mem_names_registered⟩
  · exact fun s => congrArg (parse · s) whole
  · exact fun depth s => congrArg (parseWithin · depth s) whole
  · exact fun depth name s => congrArg (call · depth name s) whole
  · exact fun name => congrArg (hasRule · name) whole
  · exact fun onLines => congrArg (fun g => (inspect g).toText onLines) whole

/-- The rule for lists calls one that was registered before it. A draft of it is replaced in one of the
grammars and was never registered in the other. -/
theorem last_rules_decide_after_draft :
    let draft := Script.rule "list" [.fail .invalidSyntax]
    let list := Script.rule "list" [.take, .call "end"]
    let ending := Script.rule "end" [.take]
    let rules := [("list", draft), ("end", ending), ("list", list)]
    let others := [("list", list), ("end", ending)]
    (∀ name, lastOf? rules name = lastOf? others name) ∧
      (∀ s, (registered "list" rules).parse s = (registered "list" others).parse s) ∧
      (registered "list" others).tree [⟨0, ascii "a", ⟨1, 1, 0⟩⟩, ⟨0, ascii "b", ⟨1, 2, 1⟩⟩] =
        .ok (.node (utf8 "list") [.leaf (ascii "a"), .node (utf8 "end") [.leaf (ascii "b")]]) ∧
      (∀ onLines, (inspect (registered "list" rules)).toText onLines =
        (inspect (registered "list" others)).toText onLines) ∧
      (registered "list" rules).rules.names = ["end", "list"] := by
  intro draft list ending rules others
  have same : ∀ name, lastOf? rules name = lastOf? others name := by
    intro name
    by_cases atEnd : "end" = name
    · subst atEnd
      rfl
    · by_cases atList : "list" = name
      · subst atList
        rfl
      · simp [rules, others, NameTable.lastOf?_cons, atEnd, atList]
  obtain ⟨parses, -, -, -, shown, -⟩ := last_rules_decide "list" rules others same
  refine ⟨same, parses, ?_, shown, by decide⟩
  simp only [others, list, ending]
  rfl

end Grammar

end LittleLang
