import LittleLang.NameTable
import LittleLang.Parse.Program

/-!
A grammar is a table of named rules and the name of the rule to start from. A rule reaches the
others only by their names, so rules may call each other in any order.
-/
namespace LittleLang

/-- How a rule calls another by its name. -/
abbrev RuleCall (τ ν : Type) := String → ParseM τ ν

/-- A rule builds a node from tokens and may call other rules. -/
abbrev GrammarRule (τ ν : Type) := RuleCall τ ν → ParseM τ ν

/-- A table of named rules with the name of the first. -/
structure Grammar (τ ν : Type) where
  root : String
  rules : NameTable (GrammarRule τ ν)

namespace Grammar

variable {τ ν : Type}

/-- The grammar with the listed rules; of two with one name the later counts. -/
def ofRules (root : String) (rules : List (String × GrammarRule τ ν)) : Grammar τ ν :=
  ⟨root, .ofList rules⟩

/-- Puts a rule under a name, in the place of an earlier rule of that name. -/
def withRule (g : Grammar τ ν) (name : String) (rule : GrammarRule τ ν) : Grammar τ ν :=
  { g with rules := g.rules.insert name rule }

/-- Whether there is a rule of that name. -/
def hasRule (g : Grammar τ ν) (name : String) : Bool := g.rules.contains name

/-- Runs the rule of the given name, with at most `depth` calls inside one another. -/
def call (g : Grammar τ ν) : Nat → RuleCall τ ν
  | 0, _ => ParseM.fail .endless
  | depth + 1, name =>
    match g.rules.get? name with
    | some rule => rule (g.call depth)
    | none => ParseM.raise (.ruleNotFound name)

/-- Reads all tokens as one tree, with at most `depth` calls inside one another. -/
def parseWithin (g : Grammar τ ν) (depth : Nat) : ParseM τ ν :=
  match g.rules.get? g.root with
  | none => ParseM.raise (.rootRuleMissing g.root)
  | some rule => do
    ParseM.advance
    if ← ParseM.look TokenStream.hasTokens then
      let node ← rule (g.call depth)
      if ← ParseM.look TokenStream.hasTokens then ParseM.raise .unhandledToken else return node
    else
      ParseM.raise .nothingToParse

/-- A depth of calls that only rules which call each other for ever exceed: beyond it some rule
would have been called twice at the same place. -/
def depthBound (g : Grammar τ ν) (s : TokenStream τ) : Nat :=
  (s.pending + 1) * (g.rules.size + 1)

theorem rest_lt_depthBound (g : Grammar τ ν) (s : TokenStream τ) :
    s.rest.length < g.depthBound s := by
  have : s.rest.length + 1 ≤ (s.pending + 1) * (g.rules.size + 1) :=
    Nat.le_trans (Nat.succ_le_succ (Nat.le_add_right _ _))
      (Nat.le_mul_of_pos_right _ (Nat.succ_pos _))
  exact this

/-- Reads all tokens of a stream as one tree. -/
def parse (g : Grammar τ ν) (s : TokenStream τ) : Outcome ParseFault ν × TokenStream τ :=
  g.parseWithin (g.depthBound s) s

/-- Runs the rule of the given name on a stream. -/
def callOn (g : Grammar τ ν) (name : String) (s : TokenStream τ) :
    Outcome ParseFault ν × TokenStream τ :=
  g.call (g.depthBound s) name s

/-- The tree of a list of tokens. -/
def tree (g : Grammar τ ν) (tokens : List τ) : Outcome ParseFault ν :=
  (g.parse (.ofTokens tokens)).1

end Grammar

instance {τ ν : Type} : Inspect (Grammar τ ν) where
  inspect g := .record "Parser"
    [.field "root" (inspect g.root), .field "rules" (inspect g.rules.names)] true

end LittleLang
