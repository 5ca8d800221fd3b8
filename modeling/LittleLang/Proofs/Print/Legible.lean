import LittleLang.Proofs.Spelling.Layout
import LittleLang.Proofs.Syntax.Derivation
import LittleLang.Proofs.Syntax.Relabelling

/-!
# Legible trees

The trees of texts without a backslash in their strings, and trees without the places of tokens.
-/

namespace LittleLang.Decl

open Syntax

/-! ## Trees without places -/

/-- The token without its place. -/
def Token.unplaced (t : Token) : Token := { t with line := 0, column := 0 }

/-- The tree without the places of its tokens. -/
def Node.unplaced (n : Node) : Node := n.relabel Token.unplaced

theorem keepsText_unplaced : KeepsText Token.unplaced := fun _ => ⟨rfl, rfl⟩

theorem Token.unplaced_eq {t u : Token} (kind : t.kind = u.kind) (value : t.value = u.value) :
    t.unplaced = u.unplaced := by
  rw [Token.unplaced, Token.unplaced, kind, value]

@[simp] theorem Node.unplaced_named (kind : NodeKind) (t : Token) (ns : List Node) :
    (named kind t ns).unplaced = named kind t.unplaced (ns.map unplaced) :=
  relabel_named Token.unplaced kind t ns

@[simp] theorem Node.unplaced_plain (kind : NodeKind) (ns : List Node) :
    (plain kind ns).unplaced = plain kind (ns.map unplaced) :=
  relabel_plain Token.unplaced kind ns

/-! ## Legible tokens -/

/-- A run of letters, underscores and digits. -/
def IsRun (bs : List UInt8) : Prop := bs ≠ [] ∧ ∀ b ∈ bs, ByteClass.alphanumeric.contains b = true

theorem isRun_of_all {bs : List UInt8} (ne : bs ≠ [])
    (h : bs.all ByteClass.alphanumeric.contains = true) : IsRun bs := ⟨ne, List.all_eq_true.mp h⟩

/-- The token is a word as it is spelled. -/
def Token.IsName (t : Token) : Prop := t.kind = .word ∧ IsRun t.value

/-- What is known of the token of a text, where a string has no backslash. -/
structure Token.Legible (t : Token) : Prop where
  number : t.kind = .num → t.value ≠ [] ∧ ∀ b ∈ t.value, ByteClass.digits.contains b = true
  name : t.kind = .word → t.IsName
  string : t.kind = .str → 0x22 ∉ t.value ∧ 0x5C ∉ t.value

theorem Spelling.legible {t : Token} {bytes rest : List UInt8}
    (h : Spelling t.kind t.value bytes rest) (plain : t.kind = .str → 0x5C ∉ t.value) :
    t.Legible := by
  rcases t with ⟨kind, value, line, column⟩
  cases h with
  | num ne digits => exact ⟨fun _ => ⟨ne, digits⟩, nofun, nofun⟩
  | @word b bs _ hb more =>
      have all : ∀ c ∈ b :: bs, ByteClass.alphanumeric.contains c = true :=
        List.forall_mem_cons.mpr ⟨letters_subset hb, more⟩
      exact ⟨nofun, fun _ => ⟨rfl, List.cons_ne_nil b bs, all⟩, nofun⟩
  | mark hm => cases kind <;> cases hm <;> exact ⟨nofun, nofun, nofun⟩
  | closed free => exact ⟨nofun, nofun, fun _ => ⟨free, plain rfl⟩⟩
  | unclosed free => exact ⟨nofun, nofun, fun _ => ⟨free, plain rfl⟩⟩

theorem Layout.legible {before text : List UInt8} {ts : List Token} (h : Layout before text ts)
    (plain : ∀ t ∈ ts, t.kind = .str → 0x5C ∉ t.value) : ∀ t ∈ ts, t.Legible := by
  induction h with
  | gap => simp
  | token hg hs line column later ih =>
      obtain ⟨first, others⟩ := List.forall_mem_cons.mp plain
      exact List.forall_mem_cons.mpr ⟨hs.legible first, ih others⟩

/-! ## Legible trees -/

inductive LegibleValue : Node → Prop
  | number {t} : t.kind = .num → t.value ≠ [] →
      (∀ b ∈ t.value, ByteClass.digits.contains b = true) → LegibleValue (.named .numberLiteral t [])
  | string {t} : t.kind = .str → 0x22 ∉ t.value → 0x5C ∉ t.value →
      LegibleValue (.named .stringLiteral t [])
  | boolean {t} : t.Spells "true" ∨ t.Spells "false" → LegibleValue (.named .boolLiteral t [])

inductive LegibleParam : Node → Prop
  | bare {name} : name.IsName → LegibleParam (.named .param name [])
  | withDefault {name v} : name.IsName → LegibleValue v → LegibleParam (.named .param name [v])

/-- The trees that the grammar derives from a phrase, where the tokens are legible. -/
inductive Legible : Phrase → Node → Prop
  | varDeclaration {name v} : name.IsName → LegibleValue v →
      Legible .declaration (.named .varDeclaration name [v])
  | funcDeclaration {name ps b} : name.IsName → (∀ p ∈ ps, LegibleParam p) → Legible .block b →
      Legible .declaration (.named .funcDeclaration name [.plain .args ps, b])
  | classDeclaration {name ns} : name.IsName → (∀ n ∈ ns, Legible .member n) →
      Legible .declaration (.named .classDeclaration name ns)
  | privateField {name v} : name.IsName → LegibleValue v →
      Legible .member (.named .privateField name [v])
  | method {name ps b} : name.IsName → (∀ p ∈ ps, LegibleParam p) → Legible .block b →
      Legible .member (.named .method name [.plain .args ps, b])
  | block {ns} : (∀ n ∈ ns, Legible .declaration n) → Legible .block (.plain .block ns)

variable {ts us : List Token} {n v : Node} {ns : List Node}

theorem Syntax.Value.legible (h : Value ts v) (legible : ∀ t ∈ ts, t.Legible) : LegibleValue v := by
  cases h with
  | @number t ht =>
      obtain ⟨ne, digits⟩ := (legible t (by simp)).number ht
      exact .number ht ne digits
  | @string t ht =>
      obtain ⟨free, plain⟩ := (legible t (by simp)).string ht
      exact .string ht free plain
  | boolean ht => exact .boolean ht

theorem Syntax.Binding.legible {name : Token} (h : Binding ts name v)
    (legible : ∀ t ∈ ts, t.Legible) : name.IsName ∧ LegibleValue v := by
  cases h with
  | @mk name equals ts v hn he hv =>
      exact ⟨(legible name (by simp)).name hn, hv.legible fun t ht => legible t (by simp [ht])⟩

theorem Syntax.Param.legible (h : Param ts n) (legible : ∀ t ∈ ts, t.Legible) : LegibleParam n := by
  cases h with
  | @bare name hn => exact .bare ((legible name (by simp)).name hn)
  | withDefault hb =>
      obtain ⟨named, value⟩ := hb.legible legible
      exact .withDefault named value

theorem Syntax.MoreParams.legible (h : MoreParams ts ns) (legible : ∀ t ∈ ts, t.Legible) :
    ∀ n ∈ ns, LegibleParam n := by
  induction h with
  | none => simp
  | @next comma ts n us ns hc hp hm ih =>
      refine List.forall_mem_cons.mpr ⟨hp.legible ?_, ih ?_⟩
      · exact fun t ht => legible t (by simp [ht])
      · exact fun t ht => legible t (by simp [ht])

theorem Syntax.Args.legible (h : Args ts n) (legible : ∀ t ∈ ts, t.Legible) :
    ∃ ps, n = .plain .args ps ∧ ∀ p ∈ ps, LegibleParam p := by
  cases h with
  | none => exact ⟨[], rfl, by simp⟩
  | @some opening ts n us ns closing ho hp hm hc =>
      refine ⟨n :: ns, rfl, List.forall_mem_cons.mpr ⟨hp.legible ?_, hm.legible ?_⟩⟩
      · exact fun t ht => legible t (by simp [ht])
      · exact fun t ht => legible t (by simp [ht])

theorem legible_parts {phrase : Phrase} {parts : List Part}
    (h : ∀ p ∈ parts, Legible phrase p.tree) : ∀ n ∈ parts.map Part.tree, Legible phrase n := by
  intro n mem
  obtain ⟨p, hp, rfl⟩ := List.mem_map.mp mem
  exact h p hp

theorem Syntax.Derives.legible {phrase : Phrase} (h : Derives phrase ts n) :
    (∀ t ∈ ts, t.Legible) → Legible phrase n := by
  induction h with
  | varDeclaration hk hb =>
      intro legible
      obtain ⟨named, value⟩ := hb.legible fun t ht => legible t (by simp [ht])
      exact .varDeclaration named value
  | privateField hm hb =>
      intro legible
      obtain ⟨named, value⟩ := hb.legible fun t ht => legible t (by simp [ht])
      exact .privateField named value
  | @funcDeclaration keyword name ts a us b hk hn ha hb ih =>
      intro legible
      obtain ⟨ps, rfl, params⟩ := ha.legible fun t ht => legible t (by simp [ht])
      have body := ih fun t ht => legible t (by simp [ht])
      exact .funcDeclaration ((legible name (by simp)).name hn) params body
  | @method name ts a us b hn ha hb ih =>
      intro legible
      obtain ⟨ps, rfl, params⟩ := ha.legible fun t ht => legible t (by simp [ht])
      have body := ih fun t ht => legible t (by simp [ht])
      exact .method ((legible name (by simp)).name hn) params body
  | @classDeclaration keyword name opening closing parts hk hn ho hm hc ih =>
      intro legible
      refine .classDeclaration ((legible name (by simp)).name hn) (legible_parts fun p hp => ?_)
      exact ih p hp fun t ht => legible t (by simp [List.mem_flatMap.mpr ⟨p, hp, ht⟩])
  | @block opening closing parts ho hd hc ih =>
      intro legible
      refine .block (legible_parts fun p hp => ?_)
      exact ih p hp fun t ht => legible t (by simp [List.mem_flatMap.mpr ⟨p, hp, ht⟩])

theorem Syntax.Root.legible (h : Root ts n) (legible : ∀ t ∈ ts, t.Legible) :
    ∃ ns, n = .plain .root ns ∧ ∀ m ∈ ns, Legible .declaration m := by
  cases h with
  | @mk parts ne hd =>
      refine ⟨_, rfl, legible_parts fun p hp => ?_⟩
      exact (hd p hp).legible fun t ht => legible t (List.mem_flatMap.mpr ⟨p, hp, ht⟩)

end LittleLang.Decl
