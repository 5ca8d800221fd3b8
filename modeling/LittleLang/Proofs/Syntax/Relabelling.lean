import LittleLang.Proofs.Parse.Mirroring
import LittleLang.Proofs.Syntax.Lemmas.Whole

/-!
# Reading does not depend on the places of tokens

If a map of tokens leaves their kinds and values as they are, then the mapped tokens are read as the
tokens themselves are, up to the tokens in the tree.
-/

namespace LittleLang.Decl

open ParseM

/-- The map changes no more than the places of tokens. -/
def KeepsText (f : Token → Token) : Prop := ∀ t, (f t).kind = t.kind ∧ (f t).value = t.value

mutual
/-- The tree with every token mapped. -/
def Node.relabel (f : Token → Token) : Node → Node
  | .node kind token? children => .node kind (token?.map f) (relabelAll f children)

/-- The trees with every token mapped. -/
def Node.relabelAll (f : Token → Token) : List Node → List Node
  | [] => []
  | n :: ns => n.relabel f :: relabelAll f ns
end

namespace Node

variable (f : Token → Token)

theorem relabelAll_eq_map (ns : List Node) : relabelAll f ns = ns.map (relabel f) := by
  induction ns with
  | nil => rfl
  | cons n ns ih => rw [relabelAll, ih, List.map_cons]

@[simp] theorem relabel_named (kind : NodeKind) (t : Token) (ns : List Node) :
    (named kind t ns).relabel f = named kind (f t) (ns.map (relabel f)) := by
  rw [named, relabel, relabelAll_eq_map]
  rfl

@[simp] theorem relabel_plain (kind : NodeKind) (ns : List Node) :
    (plain kind ns).relabel f = plain kind (ns.map (relabel f)) := by
  rw [plain, relabel, relabelAll_eq_map]
  rfl

@[simp] theorem kind_relabel (n : Node) : (n.relabel f).kind = n.kind := by
  cases n
  rfl

@[simp] theorem children_relabel (n : Node) : (n.relabel f).children = n.children.map (relabel f) := by
  cases n
  exact relabelAll_eq_map f _

mutual
theorem size_relabel (n : Node) : (n.relabel f).size = n.size := by
  cases n with
  | node kind token? children => rw [relabel, size, size, sizeAll_relabelAll children]

theorem sizeAll_relabelAll (ns : List Node) : sizeAll (relabelAll f ns) = sizeAll ns := by
  cases ns with
  | nil => rfl
  | cons n ns => rw [relabelAll, sizeAll, sizeAll, size_relabel n, sizeAll_relabelAll ns]
end

theorem value_relabel {f : Token → Token} (hf : KeepsText f) (n : Node) :
    (n.relabel f).value = n.value := by
  rcases n with ⟨kind, _ | t, children⟩
  · rfl
  · exact (hf t).2

end Node

variable {f : Token → Token} {call : RuleCall Token Node}

/-! ## Tokens -/

theorem KeepsText.isWord (hf : KeepsText f) (t : Token) (spelling : List UInt8) :
    (f t).isWord spelling = t.isWord spelling := by
  rw [Token.isWord, Token.isWord, (hf t).1, (hf t).2]

theorem KeepsText.isBindingWord (hf : KeepsText f) (t : Token) :
    isBindingWord (f t) = isBindingWord t := by
  simp only [Decl.isBindingWord, hf.isWord]

theorem KeepsText.literalKind? (hf : KeepsText f) (t : Token) :
    literalKind? (f t) = literalKind? t := by
  rw [Decl.literalKind?, Decl.literalKind?, (hf t).1, (hf t).2]

theorem KeepsText.standsAt (hf : KeepsText f) (kind : TokenKind) (s : TokenStream Token) :
    standsAt kind (s.map f) = standsAt kind s := by
  rw [Decl.standsAt, Decl.standsAt, TokenStream.token?_map]
  cases s.token? with
  | none => rfl
  | some t => simp [(hf t).1]

theorem mirrors_current (f : Token → Token) : Mirrors f f current current := by
  refine (mirrors_look (TokenStream.token?_map f)).bind fun t => ?_
  cases t with
  | none => exact mirrors_raise _
  | some t => exact mirrors_pure t

theorem mirrors_expect (hf : KeepsText f) (kind : TokenKind) :
    Mirrors f f (expect kind) (expect kind) := by
  refine (mirrors_current f).bind fun t => ?_
  rw [(hf t).1]
  split
  · exact mirrors_advance.bind fun _ => mirrors_pure t
  · exact mirrors_raise _

theorem mirrors_standsAt (hf : KeepsText f) (kind : TokenKind) :
    Mirrors f id (look (standsAt kind)) (look (standsAt kind)) :=
  mirrors_look (hf.standsAt kind)

theorem mirrors_untilBrace (hf : KeepsText f) {body : Parse Node}
    (hb : Mirrors f (Node.relabel f) body body) :
    Mirrors f (List.map (Node.relabel f)) (untilBrace body) (untilBrace body) := by
  refine mirrors_collectWhile (fun s => ?_) hb
  rw [TokenStream.hasTokens_map, hf.standsAt]

/-! ## Rules -/

theorem mirrors_named (kind : NodeKind) (t : Token) (ns : List Node) :
    Mirrors f (Node.relabel f) (pure (.named kind t ns))
      (pure (.named kind (f t) (ns.map (Node.relabel f)))) := by
  rw [← Node.relabel_named]
  exact mirrors_pure _

theorem mirrors_plain (kind : NodeKind) (ns : List Node) :
    Mirrors f (Node.relabel f) (pure (.plain kind ns))
      (pure (.plain kind (ns.map (Node.relabel f)))) := by
  rw [← Node.relabel_plain]
  exact mirrors_pure _

/-- Every rule that is called does the same on mapped tokens. -/
def CallsMirror (f : Token → Token) (call : RuleCall Token Node) : Prop :=
  ∀ rule ∈ calledRules, Mirrors f (Node.relabel f) (call rule.1) (call rule.1)

theorem mirrors_binding (hf : KeepsText f) (hc : CallsMirror f call) (kind : NodeKind) :
    Mirrors f (Node.relabel f) (binding kind call) (binding kind call) := by
  refine (mirrors_expect hf .word).bind fun name => ?_
  refine (mirrors_expect hf .eql).bind fun _ => ?_
  refine (hc ("value", value) (by simp [calledRules])).bind fun v => ?_
  exact mirrors_named kind name [v]

theorem mirrors_callable (hc : CallsMirror f call) (kind : NodeKind) (name : Token) :
    Mirrors f (Node.relabel f) (callable kind name call) (callable kind (f name) call) := by
  refine (hc ("args", args) (by simp [calledRules])).bind fun a => ?_
  refine (hc ("block", block) (by simp [calledRules])).bind fun b => ?_
  exact mirrors_named kind name [a, b]

theorem mirrors_root (hf : KeepsText f) (hc : CallsMirror f call) :
    Mirrors f (Node.relabel f) (root call) (root call) := by
  refine Mirrors.bind (g := List.map (Node.relabel f)) ?_ fun ns => ?_
  · refine mirrors_collectWhile (TokenStream.hasTokens_map f) ?_
    refine (mirrors_standsAt hf .word).bind fun stands => ?_
    cases stands with
    | true => exact hc ("declaration", declaration) (by simp [calledRules])
    | false => exact mirrors_raise _
  · exact mirrors_plain .root ns

theorem mirrors_declaration (hf : KeepsText f) (hc : CallsMirror f call) :
    Mirrors f (Node.relabel f) (declaration call) (declaration call) := by
  refine (mirrors_current f).bind fun keyword => ?_
  rw [hf.isBindingWord, hf.isWord, hf.isWord]
  split
  · exact mirrors_advance.bind fun _ => mirrors_binding hf hc _
  · split
    · refine mirrors_advance.bind fun _ => ?_
      exact (mirrors_expect hf .word).bind fun name => mirrors_callable hc _ name
    · split
      · refine mirrors_advance.bind fun _ => ?_
        refine (mirrors_expect hf .word).bind fun name => ?_
        refine (mirrors_expect hf .leftBrace).bind fun _ => ?_
        have members := mirrors_untilBrace hf (hc ("member", member) (by simp [calledRules]))
        refine members.bind fun ns => ?_
        refine (mirrors_expect hf .rightBrace).bind fun _ => ?_
        exact mirrors_named .classDeclaration name ns
      · exact mirrors_raise _

theorem mirrors_member (hf : KeepsText f) (hc : CallsMirror f call) :
    Mirrors f (Node.relabel f) (member call) (member call) := by
  refine (mirrors_current f).bind fun t => ?_
  rw [(hf t).1]
  split
  · exact mirrors_advance.bind fun _ => mirrors_binding hf hc _
  · exact mirrors_advance.bind fun _ => mirrors_callable hc _ t
  · exact mirrors_raise _

theorem mirrors_param (hf : KeepsText f) (hc : CallsMirror f call) :
    Mirrors f (Node.relabel f) (param call) (param call) := by
  refine (mirrors_expect hf .word).bind fun name => ?_
  refine (mirrors_standsAt hf .eql).bind fun stands => ?_
  cases stands with
  | true =>
      refine mirrors_advance.bind fun _ => ?_
      refine (hc ("value", value) (by simp [calledRules])).bind fun v => ?_
      exact mirrors_named .param name [v]
  | false =>
      exact mirrors_named .param name []

theorem mirrors_nextParam (hf : KeepsText f) (hc : CallsMirror f call) :
    Mirrors f (Option.map (Node.relabel f)) (nextParam call) (nextParam call) := by
  refine (mirrors_current f).bind fun t => ?_
  rw [(hf t).1]
  split
  · refine mirrors_advance.bind fun _ => ?_
    exact (mirrors_param hf hc).bind fun p => mirrors_pure (some p)
  · exact mirrors_advance.bind fun _ => mirrors_pure none
  · exact mirrors_raise _

theorem mirrors_args (hf : KeepsText f) (hc : CallsMirror f call) :
    Mirrors f (Node.relabel f) (args call) (args call) := by
  refine (mirrors_expect hf .leftPrt).bind fun _ => ?_
  refine (mirrors_standsAt hf .rightPrt).bind fun stands => ?_
  cases stands with
  | true =>
      refine mirrors_advance.bind fun _ => ?_
      exact mirrors_plain .args []
  | false =>
      refine (mirrors_param hf hc).bind fun first => ?_
      refine (mirrors_collect (mirrors_nextParam hf hc)).bind fun others => ?_
      exact mirrors_plain .args (first :: others)

theorem mirrors_block (hf : KeepsText f) (hc : CallsMirror f call) :
    Mirrors f (Node.relabel f) (block call) (block call) := by
  refine (mirrors_expect hf .leftBrace).bind fun _ => ?_
  have declarations :=
    mirrors_untilBrace hf (hc ("declaration", declaration) (by simp [calledRules]))
  refine declarations.bind fun ns => ?_
  refine (mirrors_expect hf .rightBrace).bind fun _ => ?_
  exact mirrors_plain .block ns

theorem mirrors_value (hf : KeepsText f) (call : RuleCall Token Node) :
    Mirrors f (Node.relabel f) (value call) (value call) := by
  refine (mirrors_current f).bind fun t => ?_
  rw [hf.literalKind?]
  split
  · rename_i kind _
    refine mirrors_advance.bind fun _ => ?_
    exact mirrors_named kind t []
  · exact mirrors_raise _

/-! ## Whole lists of tokens -/

theorem callsMirror (hf : KeepsText f) (depth : Nat) : CallsMirror f (grammar.call depth) := by
  induction depth with
  | zero => exact fun _ _ => mirrors_fail _
  | succ depth ih =>
      intro rule mem
      simp only [Grammar.call, get?_calledRules rule mem]
      simp only [calledRules, List.mem_cons, List.not_mem_nil, or_false] at mem
      rcases mem with rfl | rfl | rfl | rfl | rfl
      · exact mirrors_declaration hf ih
      · exact mirrors_member hf ih
      · exact mirrors_args hf ih
      · exact mirrors_block hf ih
      · exact mirrors_value hf (grammar.call depth)

theorem mirrors_parseWithin (hf : KeepsText f) (depth : Nat) :
    Mirrors f (Node.relabel f) (grammar.parseWithin depth) (grammar.parseWithin depth) := by
  have hasTokens : Mirrors f id (look TokenStream.hasTokens) (look TokenStream.hasTokens) :=
    mirrors_look (TokenStream.hasTokens_map f)
  simp only [Grammar.parseWithin, show grammar.rules.get? grammar.root = some root from get?_root]
  refine mirrors_advance.bind fun _ => hasTokens.bind fun has => ?_
  cases has with
  | false => exact mirrors_raise _
  | true =>
      refine (mirrors_root hf (callsMirror hf depth)).bind fun n => hasTokens.bind fun left => ?_
      cases left with
      | true => exact mirrors_raise _
      | false => exact mirrors_pure n

/-- The mapped tokens have the mapped tree, or are given up at the same place for the same
reason. -/
theorem parse_map (hf : KeepsText f) (tokens : List Token) :
    parse (tokens.map f) = Node.relabel f <$> parse tokens := by
  have bound : grammar.depthBound (.ofTokens (tokens.map f)) =
      grammar.depthBound (.ofTokens tokens) := by
    simp only [Grammar.depthBound, ← TokenStream.map_ofTokens, TokenStream.pending_map]
  have mirrored : grammar.parse (.ofTokens (tokens.map f)) =
      (Node.relabel f <$> (grammar.parse (.ofTokens tokens)).1,
        (grammar.parse (.ofTokens tokens)).2.map f) := by
    rw [Grammar.parse, bound]
    exact mirrors_parseWithin hf _ (.ofTokens tokens)
  rcases read : grammar.parse (.ofTokens tokens) with ⟨(e | _) | n, s⟩
  · rw [read] at mirrored
    rw [parse_of_fault read, parse_of_fault mirrored, TokenStream.position_map]
    rfl
  · exact absurd (congrArg Prod.fst read) (parse_ends _)
  · rw [read] at mirrored
    rw [parse_of_ok read, parse_of_ok mirrored]
    rfl

end LittleLang.Decl
