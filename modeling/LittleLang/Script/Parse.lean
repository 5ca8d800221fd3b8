import LittleLang.Parse.Grammar
import LittleLang.Script.Scan
import LittleLang.Script.Tree

/-!
Grammars written as data: a rule is a list of statements that read tokens and gather trees.
-/
namespace LittleLang.Script

/-- A condition on the loaded token. Where no token is loaded, none holds. -/
inductive Matcher where
  | value (bytes : List UInt8)
  | rule (index : Nat)

/-- Whether the loaded token satisfies the condition. -/
def Matcher.holds (m : Matcher) (s : TokenStream Token) : Bool :=
  match s.token? with
  | none => false
  | some t =>
    match m with
    | .value bytes => t.value == bytes
    | .rule index => t.rule == index

/-- One statement of a rule. -/
inductive Statement where
  | advance
  /-- Reads a token and gathers it as a leaf. -/
  | take
  /-- Reads a token that satisfies the condition. -/
  | expect (m : Matcher)
  /-- Gathers a leaf that need not be in the tokens. -/
  | lit (bytes : List UInt8)
  | call (name : String)
  /-- Calls a rule and gathers the children of its tree. -/
  | splice (name : String)
  /-- Calls the first rule and, if that raises a fault, the second one where the first stopped. -/
  | either (first second : String)
  | choose (m : Matcher) (yes no : List Statement)
  | whileAt (m : Matcher) (body : List Statement)
  /-- Repeats the body while a token is loaded that does not satisfy the condition. -/
  | untilAt (m : Matcher) (body : List Statement)
  /-- Repeats the body while tokens lie ahead. -/
  | toEnd (body : List Statement)
  | fail (fault : ParseFault)

namespace Statement

mutual
/-- The trees that a statement gathers. -/
def run (call : RuleCall Token Tree) : Statement → ParseM Token (List Tree)
  | .advance => do
    ParseM.advance
    return []
  | .take => do
    match ← ParseM.look TokenStream.token? with
    | some t =>
      ParseM.advance
      return [.leaf t.value]
    | none => ParseM.raise .invalidSyntax
  | .expect m => do
    if ← ParseM.look m.holds then
      ParseM.advance
      return []
    else
      ParseM.raise .invalidSyntax
  | .lit bytes => return [.leaf bytes]
  | .call name => return [← call name]
  | .splice name => return (← call name).children
  | .either first second => return [← ParseM.orElse (call first) (call second)]
  | .choose m yes no => do
    if ← ParseM.look m.holds then runAll call yes else runAll call no
  | .whileAt m body => List.flatten <$> ParseM.collectWhile m.holds (runAll call body)
  | .untilAt m body =>
    List.flatten <$> ParseM.collectWhile (fun s => s.token?.isSome && !m.holds s) (runAll call body)
  | .toEnd body => List.flatten <$> ParseM.collectWhile TokenStream.hasTokens (runAll call body)
  | .fail fault => ParseM.raise fault

/-- The trees that statements gather one after another. -/
def runAll (call : RuleCall Token Tree) : List Statement → ParseM Token (List Tree)
  | [] => return []
  | statement :: rest => return (← statement.run call) ++ (← runAll call rest)
end

end Statement

/-- The rule of that name and body. Its trees are labelled with the name. -/
def rule (name : String) (body : List Statement) : GrammarRule Token Tree := fun call => do
  return .node (utf8 name) (← Statement.runAll call body)

/-- The grammar with the given bodies; of two with one name the later counts. -/
def grammar (root : String) (rules : List (String × List Statement)) : Grammar Token Tree :=
  .ofRules root (rules.map fun entry => (entry.1, rule entry.1 entry.2))

end LittleLang.Script
