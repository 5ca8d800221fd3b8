import LittleLang.Proofs.Print.Lemmas.FirstLines

/-!
# The tree is told from its lines

A suite goes on as long as the lines stand as deep as its first one, so a printed text tells the tree
that it was printed from.
-/

namespace LittleLang.Decl

open Printer Syntax

variable {phrase : Phrase} {depth : Nat} {n m : Node} {ns ms : List Node} {r s : List UInt8}

/-! ## Indentation -/

/-- No line comes next that stands at least so deep. -/
def Ends (depth : Nat) (r : List UInt8) : Prop :=
  ∀ x, r = List.replicate (4 * depth) 0x20 ++ x → x = []

theorem ends_nil : Ends depth [] := by
  intro x h
  exact (List.append_eq_nil_iff.mp h.symm).2

theorem Ends.succ (h : Ends depth r) : Ends (depth + 1) r := by
  rintro x rfl
  have deeper : 4 * (depth + 1) = 4 * depth + 4 := by omega
  rw [deeper, ← List.replicate_append_replicate, List.append_assoc] at h
  cases h _ rfl

/-- A line that stands at one depth does not stand at the next. -/
theorem ends_line {b : UInt8} (hb : b ≠ 0x20) (bs : List UInt8) :
    Ends (depth + 1) (List.replicate (4 * depth) 0x20 ++ b :: bs) := by
  intro x h
  have deeper : 4 * (depth + 1) = 4 * depth + 4 := by omega
  rw [deeper, ← List.replicate_append_replicate, List.append_assoc] at h
  cases List.append_cancel_left h
  exact absurd rfl hb

theorem line_append (depth : Nat) (text r : List UInt8) :
    line depth text ++ r = List.replicate (4 * depth) 0x20 ++ (text ++ 0x0A :: r) := by
  simp [line]

theorem line_cancel {text text' : List UInt8} (same : line depth text ++ r = line depth text' ++ s) :
    text ++ 0x0A :: r = text' ++ 0x0A :: s := by
  rw [line_append, line_append] at same
  exact List.append_cancel_left same

/-! ## First lines -/

/-- What the first line of a declaration or member is. -/
def NodeKind.lineKind : NodeKind → LineKind
  | varDeclaration => .binding
  | privateField => .binding
  | classDeclaration => .classHeader
  | _ => .callable

/-- The text begins at its depth with a line of that kind. -/
def BeginsWith (depth : Nat) (kind : LineKind) (text : List UInt8) : Prop :=
  ∃ b bs, text = List.replicate (4 * depth) 0x20 ++ b :: bs ∧ b ≠ 0x20 ∧ lineKind (b :: bs) = kind

theorem line_beginsWith {text run : List UInt8} {kind : LineKind} (h : IsRun run)
    (spelled : text ++ 0x0A :: s = run ++ r) (known : lineKind (run ++ r) = kind) (depth : Nat) :
    BeginsWith depth kind (line depth text ++ s) := by
  obtain ⟨ne, all⟩ := h
  obtain ⟨b, bs, rfl⟩ := List.exists_cons_of_ne_nil ne
  refine ⟨b, bs ++ r, ?_, ?_, known⟩
  · rw [line_append, spelled, List.cons_append]
  · rintro rfl
    cases all 0x20 List.mem_cons_self

theorem BeginsWith.ends {kind : LineKind} (h : BeginsWith depth kind r) : Ends (depth + 1) r := by
  obtain ⟨b, bs, rfl, hb, -⟩ := h
  exact ends_line hb bs

theorem BeginsWith.not_ends {kind : LineKind} (h : BeginsWith depth kind r) : ¬ Ends depth r := by
  obtain ⟨b, bs, rfl, -, -⟩ := h
  intro ends
  cases ends _ rfl

theorem BeginsWith.kind_eq {kind kind' : LineKind} (h : BeginsWith depth kind r)
    (h' : BeginsWith depth kind' r) : kind = kind' := by
  obtain ⟨b, bs, rfl, -, rfl⟩ := h
  obtain ⟨c, cs, same, -, rfl⟩ := h'
  rw [List.append_cancel_left same]

theorem pass_beginsWith (depth : Nat) (r : List UInt8) :
    BeginsWith depth .other (line depth (ascii "pass") ++ r) :=
  line_beginsWith (@isRun_of_all (ascii "pass") (by decide) (by decide)) rfl rfl depth

theorem Legible.beginsWith (h : Legible phrase n) (single : phrase ≠ .block) (depth : Nat)
    (r : List UInt8) : BeginsWith depth n.kind.lineKind (print depth n ++ r) := by
  have function : IsRun (ascii "def") := isRun_of_all (by decide) (by decide)
  have klass : IsRun (ascii "class") := isRun_of_all (by decide) (by decide)
  cases h with
  | @varDeclaration name v hn hv =>
      exact line_beginsWith hn.2 (bindingText_append name v _) (lineKind_binding hn.2.2 _) depth
  | @privateField name v hn hv =>
      have all : ∀ b ∈ ascii "__" ++ name.value, ByteClass.alphanumeric.contains b = true :=
        List.forall_mem_append.mpr ⟨List.all_eq_true.mp (by decide), hn.2.2⟩
      have spelled : ascii "__" ++ bindingText name v ++ 0x0A :: r =
          (ascii "__" ++ name.value) ++ 0x20 :: 0x3D :: 0x20 :: (literalText v ++ 0x0A :: r) := by
        rw [List.append_assoc, bindingText_append, List.append_assoc]
      exact line_beginsWith ⟨by simp [hn.2.1], all⟩ spelled (lineKind_binding all _) depth
  | @funcDeclaration name ps b hn hp hb =>
      show BeginsWith depth .callable (line depth (signature name _) ++ print (depth + 1) b ++ r)
      rw [List.append_assoc]
      exact line_beginsWith function (signature_append name _ _)
        (lineKind_header function.2 hn _) depth
  | @method name ps b hn hp hb =>
      show BeginsWith depth .callable (line depth (signature name _) ++ print (depth + 1) b ++ r)
      rw [List.append_assoc]
      exact line_beginsWith function (signature_append name _ _)
        (lineKind_header function.2 hn _) depth
  | @classDeclaration name ns hn hm =>
      show BeginsWith depth .classHeader
        (line depth (classHeader name) ++ printSuite (depth + 1) ns ++ r)
      rw [List.append_assoc]
      exact line_beginsWith klass (classHeader_append name _) (lineKind_header klass.2 hn _) depth
  | block => exact absurd rfl single

theorem Legible.lineKind_eq (h : Legible phrase n) (h' : Legible phrase m)
    (single : phrase ≠ .block) (same : print depth n ++ r = print depth m ++ s) :
    n.kind.lineKind = m.kind.lineKind := by
  have begins := h.beginsWith single depth r
  rw [same] at begins
  exact begins.kind_eq (h'.beginsWith single depth s)

/-! ## Suites -/

/-- How deep the lines stand that a phrase ends with, if they are those of a suite. -/
def Syntax.Phrase.suiteDepth : Phrase → Nat → Nat
  | .block, depth => depth
  | _, depth => depth + 1

theorem suiteDepth_eq (single : phrase ≠ .block) (depth : Nat) :
    phrase.suiteDepth depth = depth + 1 := by
  cases phrase with
  | declaration => rfl
  | member => rfl
  | block => exact absurd rfl single

/-- The tree and what comes after its text are known from the text, where the last suite ends. -/
def Told (phrase : Phrase) (n : Node) : Prop :=
  ∀ {m depth r s}, Legible phrase m → Ends (phrase.suiteDepth depth) r →
    Ends (phrase.suiteDepth depth) s → print depth n ++ r = print depth m ++ s →
      n.unplaced = m.unplaced ∧ r = s

theorem ends_printAll (single : phrase ≠ .block) (legible : ∀ n ∈ ns, Legible phrase n)
    (er : Ends depth r) : Ends (depth + 1) (printAll depth ns ++ r) := by
  cases ns with
  | nil => exact er.succ
  | cons n ns =>
      have begins := (legible n (by simp)).beginsWith single depth (printAll depth ns ++ r)
      rw [← List.append_assoc] at begins
      exact begins.ends

/-- Nodes have a text, and it does not end their suite. -/
theorem printAll_ne (single : phrase ≠ .block) (legible : Legible phrase n) (er : Ends depth r) :
    printAll depth (n :: ns) ++ s ≠ r := by
  rintro rfl
  have begins := legible.beginsWith single depth (printAll depth ns ++ s)
  rw [← List.append_assoc] at begins
  exact begins.not_ends er

theorem printAll_cancel (single : phrase ≠ .block) (told : ∀ n ∈ ns, Told phrase n)
    (hn : ∀ n ∈ ns, Legible phrase n) (hm : ∀ m ∈ ms, Legible phrase m) (er : Ends depth r)
    (es : Ends depth s) (same : printAll depth ns ++ r = printAll depth ms ++ s) :
    ns.map Node.unplaced = ms.map Node.unplaced ∧ r = s := by
  -- A node on one side alone would be a line as deep as the suite behind its end.
  induction ns generalizing ms with
  | nil =>
      cases ms with
      | nil => exact ⟨rfl, same⟩
      | cons m ms => exact absurd same.symm (printAll_ne single (hm m (by simp)) er)
  | cons n ns ih =>
      cases ms with
      | nil => exact absurd same (printAll_ne single (hn n (by simp)) es)
      | cons m ms =>
          obtain ⟨first, others⟩ := List.forall_mem_cons.mp hn
          obtain ⟨first', others'⟩ := List.forall_mem_cons.mp hm
          obtain ⟨toldFirst, toldOthers⟩ := List.forall_mem_cons.mp told
          rw [printAll, printAll, List.append_assoc, List.append_assoc] at same
          have ends := ends_printAll single others er
          have ends' := ends_printAll single others' es
          rw [← suiteDepth_eq single depth] at ends ends'
          obtain ⟨tree, rest⟩ := toldFirst first' ends ends' same
          obtain ⟨trees, rest⟩ := ih toldOthers others others' rest
          exact ⟨by rw [List.map_cons, List.map_cons, tree, trees], rest⟩

theorem pass_ne_printAll (single : phrase ≠ .block) (legible : Legible phrase n) :
    line depth (ascii "pass") ++ r ≠ printAll depth (n :: ns) ++ s := by
  intro same
  have begins := legible.beginsWith single depth (printAll depth ns ++ s)
  rw [← List.append_assoc] at begins
  have pass := pass_beginsWith depth r
  rw [same] at pass
  have kinds := pass.kind_eq begins
  cases legible with
  | block => exact absurd rfl single
  | _ => cases kinds

theorem printSuite_cancel (single : phrase ≠ .block) (told : ∀ n ∈ ns, Told phrase n)
    (hn : ∀ n ∈ ns, Legible phrase n) (hm : ∀ m ∈ ms, Legible phrase m) (er : Ends depth r)
    (es : Ends depth s) (same : printSuite depth ns ++ r = printSuite depth ms ++ s) :
    ns.map Node.unplaced = ms.map Node.unplaced ∧ r = s := by
  cases ns with
  | nil =>
      cases ms with
      | nil => exact ⟨rfl, List.append_cancel_left same⟩
      | cons m ms => exact absurd same (pass_ne_printAll single (hm m (by simp)))
  | cons n ns =>
      cases ms with
      | nil => exact absurd same.symm (pass_ne_printAll single (hn n (by simp)))
      | cons m ms => exact printAll_cancel single told hn hm er es same

/-! ## Whole trees -/

theorem Legible.told (h : Legible phrase n) : Told phrase n := by
  -- The first line tells what the other tree is; then its parts are told one after another, and the
  -- suite below it ends where the whole does.
  induction h with
  | @varDeclaration name v hn hv =>
      intro m depth r s h' er es same
      have kinds := (Legible.varDeclaration hn hv).lineKind_eq h' (by simp) same
      cases h' with
      | @varDeclaration name' v' hn' hv' =>
          obtain ⟨named, value, rest⟩ := binding_cancel hn hn' hv hv' (line_cancel same)
          simp [named, value, rest]
      | funcDeclaration => cases kinds
      | classDeclaration => cases kinds
  | @funcDeclaration name ps b hn hp hb ih =>
      intro m depth r s h' er es same
      have kinds := (Legible.funcDeclaration hn hp hb).lineKind_eq h' (by simp) same
      cases h' with
      | varDeclaration => cases kinds
      | @funcDeclaration name' ps' b' hn' hp' hb' =>
          change line depth (signature name (ps.map paramText)) ++ print (depth + 1) b ++ r =
            line depth (signature name' (ps'.map paramText)) ++ print (depth + 1) b' ++ s at same
          rw [List.append_assoc, List.append_assoc] at same
          obtain ⟨named, params, rest⟩ := function_cancel hn hn' hp hp' (line_cancel same)
          obtain ⟨body, rest⟩ := ih hb' er es (List.tail_eq_of_cons_eq rest)
          simp [named, params, body, rest]
      | classDeclaration => cases kinds
  | @classDeclaration name ns hn hm ih =>
      intro m depth r s h' er es same
      have kinds := (Legible.classDeclaration hn hm).lineKind_eq h' (by simp) same
      cases h' with
      | varDeclaration => cases kinds
      | funcDeclaration => cases kinds
      | @classDeclaration name' ns' hn' hm' =>
          change line depth (classHeader name) ++ printSuite (depth + 1) ns ++ r =
            line depth (classHeader name') ++ printSuite (depth + 1) ns' ++ s at same
          rw [List.append_assoc, List.append_assoc] at same
          obtain ⟨named, rest⟩ := classHeader_cancel hn hn' (line_cancel same)
          obtain ⟨members, rest⟩ :=
            printSuite_cancel (by simp) ih hm hm' er es (List.tail_eq_of_cons_eq rest)
          simp [named, members, rest]
  | @privateField name v hn hv =>
      intro m depth r s h' er es same
      have kinds := (Legible.privateField hn hv).lineKind_eq h' (by simp) same
      cases h' with
      | @privateField name' v' hn' hv' =>
          have texts := line_cancel same
          rw [List.append_assoc, List.append_assoc] at texts
          obtain ⟨named, value, rest⟩ :=
            binding_cancel hn hn' hv hv' (List.append_cancel_left texts)
          simp [named, value, rest]
      | method => cases kinds
  | @method name ps b hn hp hb ih =>
      intro m depth r s h' er es same
      have kinds := (Legible.method hn hp hb).lineKind_eq h' (by simp) same
      cases h' with
      | privateField => cases kinds
      | @method name' ps' b' hn' hp' hb' =>
          change line depth (signature name (ascii "self" :: ps.map paramText)) ++
              print (depth + 1) b ++ r =
            line depth (signature name' (ascii "self" :: ps'.map paramText)) ++
              print (depth + 1) b' ++ s at same
          rw [List.append_assoc, List.append_assoc] at same
          obtain ⟨named, params, rest⟩ := method_cancel hn hn' hp hp' (line_cancel same)
          obtain ⟨body, rest⟩ := ih hb' er es (List.tail_eq_of_cons_eq rest)
          simp [named, params, body, rest]
  | @block ns hd ih =>
      intro m depth r s h' er es same
      cases h' with
      | @block ms hd' =>
          obtain ⟨trees, rest⟩ := printSuite_cancel (by simp) ih hd hd' er es same
          simp [trees, rest]

/-- Declarations that are printed alike are alike. -/
theorem printAll_inj (hn : ∀ n ∈ ns, Legible .declaration n)
    (hm : ∀ m ∈ ms, Legible .declaration m) (same : printAll 0 ns = printAll 0 ms) :
    ns.map Node.unplaced = ms.map Node.unplaced := by
  have told : ∀ n ∈ ns, Told .declaration n := fun n mem => (hn n mem).told
  rw [← List.append_nil (printAll 0 ns), ← List.append_nil (printAll 0 ms)] at same
  obtain ⟨trees, -⟩ := printAll_cancel (by simp) told hn hm ends_nil ends_nil same
  exact trees

end LittleLang.Decl
