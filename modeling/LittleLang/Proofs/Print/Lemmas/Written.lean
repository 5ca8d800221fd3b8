import LittleLang.Proofs.Print.Lemmas.Headers
import LittleLang.Proofs.Print.Lemmas.Lines

/-!
# The stylesheet writes the lines that are printed
-/

namespace LittleLang.Decl

open Printer Syntax

variable {n v : Node} {ns : List Node} {ls : List (List UInt8)} {ts : List Token}

/-! ## Declarations and members -/

/-- The tree is written as these lines, by the sheet and by the printer. -/
structure Written (n : Node) (ls : List (List UInt8)) : Prop where
  lines : Lines ls
  renders : Renders n (stacked ls)
  prints : ∀ depth, print depth n = ls.flatMap (line depth)

/-- The nodes are written as these lines one level deeper. -/
structure WrittenSuite (ns : List Node) (ls : List (List UInt8)) : Prop where
  lines : Lines ls
  suite : ∀ render, Follows render ns → suite render ns = .ok (stacked (moved ls))
  prints : ∀ depth, printSuite depth ns = ls.flatMap (line depth)

theorem writtenSuite_nil : WrittenSuite [] [ascii "pass"] := by
  have lines : Lines [ascii "pass"] := lines_singleton (by decide)
  refine ⟨lines, fun render _ => ?_, fun depth => ?_⟩
  · rw [← indent_stacked lines]
    rfl
  · simp [printSuite]

theorem exists_lines (h : ∀ n ∈ ns, ∃ ls, Written n ls) :
    ∃ f : Node → List (List UInt8), ∀ n ∈ ns, Written n (f n) := by
  have each : ∀ n, ∃ ls, n ∈ ns → Written n ls := by
    intro n
    by_cases hn : n ∈ ns
    · obtain ⟨ls, hw⟩ := h n hn
      exact ⟨ls, fun _ => hw⟩
    · exact ⟨[], fun mem => absurd mem hn⟩
  exact Classical.axiomOfChoice each

theorem printAll_eq {f : Node → List (List UInt8)} (h : ∀ n ∈ ns, Written n (f n)) (depth : Nat) :
    printAll depth ns = (ns.flatMap f).flatMap (line depth) := by
  rw [printAll_eq_flatMap, List.flatMap_assoc]
  rw [List.flatMap_def, List.flatMap_def, List.map_congr_left fun n hn => (h n hn).prints depth]

theorem mapM_eq {render : Node → Rendered} {f : Node → List (List UInt8)}
    (h : ∀ n ∈ ns, Written n (f n)) (follows : Follows render ns) :
    ns.mapM render = .ok (ns.map fun n => stacked (f n)) :=
  mapM_eq_ok fun n hn => follows n hn _ (h n hn).renders

theorem writtenSuite_of_ne_nil (ne : ns ≠ []) {f : Node → List (List UInt8)}
    (h : ∀ n ∈ ns, Written n (f n)) : WrittenSuite ns (ns.flatMap f) := by
  have each : ∀ ls ∈ ns.map f, Lines ls := by
    intro ls mem
    obtain ⟨n, hn, rfl⟩ := List.mem_map.mp mem
    exact (h n hn).lines
  have lines : Lines (ns.flatMap f) := lines_flatten (by simpa using ne) each
  refine ⟨lines, fun render follows => ?_, fun depth => ?_⟩
  · have below : stacked (ns.map fun n => stacked (f n)) = stacked (ns.flatMap f) := by
      have := stacked_flatten each
      rwa [List.map_map] at this
    rw [suite, if_neg (by simpa using ne), joined, mapM_eq h follows, ← indent_stacked lines,
      ← below]
    rfl
  · rw [printSuite_eq_printAll ne, printAll_eq h]

theorem exists_writtenSuite (h : ∀ n ∈ ns, ∃ ls, Written n ls) : ∃ ls, WrittenSuite ns ls := by
  obtain ⟨f, hf⟩ := exists_lines h
  by_cases ne : ns = []
  · subst ne
    exact ⟨_, writtenSuite_nil⟩
  · exact ⟨_, writtenSuite_of_ne_nil ne hf⟩

theorem renders_block (h : WrittenSuite ns ls) :
    Renders (.plain .block ns) (stacked (moved ls)) :=
  renders_of_rule rfl h.lines.moved.stacked_ne_nil h.suite

/-- A tree that is written on one line. -/
theorem written_line {rule : RenderRule Node} {text : List UInt8}
    (rules : stylesheet.rules.filter (·.applies n) = [rule]) (ht : text ≠ [] ∧ lineFeed ∉ text)
    (h : ∀ render, Follows render n.children → rule.render render n = .ok text)
    (prints : ∀ depth, print depth n = line depth text) : Written n [text] := by
  refine ⟨lines_singleton ht, ?_, fun depth => ?_⟩
  · rw [stacked_singleton]
    exact renders_of_rule rules ht.1 h
  · rw [prints, List.flatMap_singleton]

theorem written_var {name : Token} (h : Binding ts name v) (lexed : ∀ t ∈ ts, t.OneLine) :
    Written (.named .varDeclaration name [v]) [bindingText name v] := by
  obtain ⟨value, text⟩ := bindingText_oneLine h lexed
  exact written_line rfl text (fun render follows => binding_eq follows value) fun _ => rfl

theorem written_field {name : Token} (h : Binding ts name v) (lexed : ∀ t ∈ ts, t.OneLine) :
    Written (.named .privateField name [v]) [ascii "__" ++ bindingText name v] := by
  obtain ⟨value, ne, oneLine⟩ := bindingText_oneLine h lexed
  have mangled : lineFeed ∉ ascii "__" := by decide
  refine written_line rfl ⟨by simp [ne], by simp [mangled, oneLine]⟩ ?_ fun _ => rfl
  intro render follows
  show (renderBinding render _ >>= _) = _
  rw [binding_eq follows value]
  rfl

/-- A header with the lines of a suite below it. -/
theorem written_header {first second : RenderRule Node} {head : List UInt8}
    (rules : stylesheet.rules.filter (·.applies n) = [first, second])
    (hh : head ≠ [] ∧ lineFeed ∉ head) (hs : WrittenSuite ns ls)
    (upper : ∀ render, Follows render n.children → first.render render n = .ok (head ++ [lineFeed]))
    (lower : ∀ render, Follows render n.children →
      second.render render n = .ok (stacked (moved ls)))
    (prints : ∀ depth, print depth n = line depth head ++ printSuite (depth + 1) ns) :
    Written n (head :: moved ls) := by
  refine ⟨hs.lines.moved.cons hh, ?_, fun depth => ?_⟩
  · rw [stacked_cons hs.lines.moved.ne_nil, List.append_cons]
    exact renders_of_rules rules (by simp) upper lower
  · rw [prints, hs.prints, List.flatMap_cons, flatMap_line_moved]

theorem written_class {name : Token} (named : lineFeed ∉ name.value) (hs : WrittenSuite ns ls) :
    Written (.named .classDeclaration name ns) (classHeader name :: moved ls) := by
  have words : lineFeed ∉ ascii "class " ∧ lineFeed ∉ ascii ":" := by decide
  have ending : ascii ":\n" = ascii ":" ++ [lineFeed] := by decide
  refine written_header rfl ⟨by simp [classHeader, ascii], ?_⟩ hs (fun _ _ => ?_) hs.suite
    fun _ => rfl
  · simp [classHeader, named, words]
  · show Except.ok (ascii "class " ++ name.value ++ ascii ":\n") = _
    rw [ending, classHeader, List.append_assoc, List.append_assoc, List.append_assoc]

/-- A function or a method, which differ in what stands before the parameters. -/
theorem written_callable {kind : NodeKind} {name : Token} {ps : List Node}
    {params : List (List UInt8)} (callable : kind = .funcDeclaration ∨ kind = .method)
    (named : lineFeed ∉ name.value) (hp : ∀ p ∈ ps, WritesParam p)
    (oneLine : ∀ text ∈ params, lineFeed ∉ text)
    (whole : receiver (.named kind name [.plain .args ps, .plain .block ns]) (.plain .args ps) ++
      (ascii ", ").intercalate (ps.map paramText) = (ascii ", ").intercalate params)
    (hs : WrittenSuite ns ls)
    (prints : ∀ depth, print depth (.named kind name [.plain .args ps, .plain .block ns]) =
      line depth (signature name params) ++ printSuite (depth + 1) ns) :
    Written (.named kind name [.plain .args ps, .plain .block ns])
      (signature name params :: moved ls) := by
  have rules : stylesheet.rules.filter
      (·.applies (.named kind name [.plain .args ps, .plain .block ns])) =
        [onCallable renderSignature, onCallable renderBody] := by
    rcases callable with rfl | rfl <;> rfl
  refine written_header rules ⟨by simp [signature, ascii], ?_⟩ hs ?_ ?_ prints
  · exact signature_oneLine named oneLine
  · exact fun render follows => signature_eq follows hp whole
  · intro render follows
    show render (.plain .block ns) = _
    exact follows _ (by simp [Node.named, Node.children]) _ (renders_block hs)

theorem written_function {name : Token} {ps : List Node} (named : lineFeed ∉ name.value)
    (hp : ∀ p ∈ ps, WritesParam p) (hs : WrittenSuite ns ls) :
    Written (.named .funcDeclaration name [.plain .args ps, .plain .block ns])
      (signature name (ps.map paramText) :: moved ls) := by
  have whole : receiver (.named .funcDeclaration name [.plain .args ps, .plain .block ns])
      (.plain .args ps) ++ (ascii ", ").intercalate (ps.map paramText) =
        (ascii ", ").intercalate (ps.map paramText) := by
    rw [receiver_function, List.nil_append]
  exact written_callable (.inl rfl) named hp (params_oneLine hp) whole hs fun _ => rfl

theorem written_method {name : Token} {ps : List Node} (named : lineFeed ∉ name.value)
    (hp : ∀ p ∈ ps, WritesParam p) (hs : WrittenSuite ns ls) :
    Written (.named .method name [.plain .args ps, .plain .block ns])
      (signature name (ascii "self" :: ps.map paramText) :: moved ls) := by
  have oneLine : ∀ text ∈ ascii "self" :: ps.map paramText, lineFeed ∉ text :=
    List.forall_mem_cons.mpr ⟨by decide, params_oneLine hp⟩
  exact written_callable (.inr rfl) named hp oneLine receiver_method hs fun _ => rfl

/-! ## Whole texts -/

/-- A block has no line of its own: what it is written as stands one level deeper. -/
def WrittenAs : Phrase → Node → Prop
  | .block, n => ∃ ns ls, n = .plain .block ns ∧ WrittenSuite ns ls
  | _, n => ∃ ls, Written n ls

theorem mem_parts {parts : List Part} {p : Part} {t : Token} (hp : p ∈ parts) (ht : t ∈ p.tokens) :
    t ∈ parts.flatMap Part.tokens := List.mem_flatMap.mpr ⟨p, hp, ht⟩

theorem parts_written {parts : List Part} (h : ∀ p ∈ parts, ∃ ls, Written p.tree ls) :
    ∃ ls, WrittenSuite (parts.map Part.tree) ls := by
  refine exists_writtenSuite fun n mem => ?_
  obtain ⟨p, hp, rfl⟩ := List.mem_map.mp mem
  exact h p hp

theorem Syntax.Derives.written {phrase : Phrase} (h : Derives phrase ts n) :
    (∀ t ∈ ts, t.OneLine) → WrittenAs phrase n := by
  induction h with
  | varDeclaration hk hb =>
      intro lexed
      exact ⟨_, written_var hb fun t ht => lexed t (by simp [ht])⟩
  | privateField hm hb =>
      intro lexed
      exact ⟨_, written_field hb fun t ht => lexed t (by simp [ht])⟩
  | @funcDeclaration keyword name ts a us b hk hn ha hb ih =>
      intro lexed
      obtain ⟨ps, rfl, hp⟩ := ha.writes fun t ht => lexed t (by simp [ht])
      obtain ⟨ns, ls, rfl, hs⟩ := ih fun t ht => lexed t (by simp [ht])
      exact ⟨_, written_function (lexed name (by simp) (by simp [hn])).2 hp hs⟩
  | @method name ts a us b hn ha hb ih =>
      intro lexed
      obtain ⟨ps, rfl, hp⟩ := ha.writes fun t ht => lexed t (by simp [ht])
      obtain ⟨ns, ls, rfl, hs⟩ := ih fun t ht => lexed t (by simp [ht])
      exact ⟨_, written_method (lexed name (by simp) (by simp [hn])).2 hp hs⟩
  | @classDeclaration keyword name opening closing parts hk hn ho hm hc ih =>
      intro lexed
      obtain ⟨ls, hs⟩ := parts_written fun p hp =>
        ih p hp fun t ht => lexed t (by simp [mem_parts hp ht])
      exact ⟨_, written_class (lexed name (by simp) (by simp [hn])).2 hs⟩
  | @block opening closing parts ho hd hc ih =>
      intro lexed
      obtain ⟨ls, hs⟩ := parts_written fun p hp =>
        ih p hp fun t ht => lexed t (by simp [mem_parts hp ht])
      exact ⟨_, ls, rfl, hs⟩

/-- The root is written as its declarations are printed, one after another. -/
theorem Syntax.Root.renders (h : Root ts n) (lexed : ∀ t ∈ ts, t.OneLine) :
    Renders n (n.children.flatMap (print 0)) := by
  cases h with
  | @mk parts ne hd =>
      have each : ∀ m ∈ parts.map Part.tree, ∃ ls, Written m ls := by
        intro m mem
        obtain ⟨p, hp, rfl⟩ := List.mem_map.mp mem
        exact (hd p hp).written fun t ht => lexed t (mem_parts hp ht)
      obtain ⟨f, hf⟩ := exists_lines each
      have printed : ∀ m ∈ parts.map Part.tree, stacked (f m) ++ [lineFeed] = print 0 m := by
        intro m mem
        rw [stacked_lineFeed (hf m mem).lines.ne_nil, (hf m mem).prints]
      refine renders_of_rule rfl ?_ fun render follows => ?_
      · obtain ⟨p, parts, rfl⟩ := List.exists_cons_of_ne_nil ne
        have first := printed p.tree (by simp)
        simp [Node.plain, Node.children, ← first]
      · show ((parts.map Part.tree).mapM render >>= _) = _
        rw [mapM_eq hf follows]
        show Except.ok ((((parts.map Part.tree).map fun m => stacked (f m)).map
          (· ++ [lineFeed])).flatten) = Except.ok ((parts.map Part.tree).flatMap (print 0))
        rw [List.map_map, List.flatMap_def, ← List.map_congr_left printed]
        rfl

end LittleLang.Decl
