import LittleLang.Text.Quoted

/-!
Values shown to a reader who wants to see their structure, on one line (`flat`) or with one field
or element a line (`indented`).
-/
namespace LittleLang

/-- The structure that a value shows. -/
inductive Shown where
  /-- A value without parts. -/
  | atom (text : String)
  /-- A field of a record. -/
  | field (label : String) (value : Shown)
  | list (items : List Shown)
  /-- A case with its arguments. -/
  | variant (name : String) (arguments : List Shown)
  /-- A record with at least one field; if it is not whole, some fields are left out. -/
  | record (name : String) (fields : List Shown) (whole : Bool)

namespace Shown

mutual
/-- The value on one line. -/
def flat : Shown → String
  | .atom text => text
  | .field label value => label ++ ": " ++ value.flat
  | .list items => "[" ++ flatAll items ++ "]"
  | .variant name arguments => name ++ "(" ++ flatAll arguments ++ ")"
  | .record name fields whole =>
    name ++ " \x7b " ++ flatAll fields ++ (if whole then "" else ", ..") ++ " \x7d"

/-- The values on one line, with commas between them. -/
def flatAll : List Shown → String
  | [] => ""
  | [value] => value.flat
  | value :: rest => value.flat ++ ", " ++ flatAll rest
end

/-- One more level of indentation. -/
def deeper (margin : String) : String := margin ++ "    "

mutual
/-- The value with its parts on lines of their own, one level right of `margin`. The first line
follows what stands before it. -/
def indented (margin : String) : Shown → String
  | .atom text => text
  | .field label value => label ++ ": " ++ value.indented margin
  | .list [] => "[]"
  | .list (item :: items) => "[\n" ++ indentedAll (deeper margin) (item :: items) ++ margin ++ "]"
  | .variant name arguments =>
    name ++ "(\n" ++ indentedAll (deeper margin) arguments ++ margin ++ ")"
  | .record name fields whole =>
    name ++ " \x7b\n" ++ indentedAll (deeper margin) fields
      ++ (if whole then "" else deeper margin ++ "..\n") ++ margin ++ "\x7d"

/-- The values on lines of their own, each with a comma after it. -/
def indentedAll (margin : String) : List Shown → String
  | [] => ""
  | value :: rest => margin ++ value.indented margin ++ ",\n" ++ indentedAll margin rest
end

/-- The shown value as text, on one line or on several. -/
def toText (onLines : Bool) (value : Shown) : String :=
  if onLines then value.indented "" else value.flat

end Shown

/-- Types whose values show their structure. -/
class Inspect (α : Type) where
  inspect : α → Shown

export Inspect (inspect)

instance : Inspect Nat := ⟨fun n => .atom (toString n)⟩

instance : Inspect UInt8 := ⟨fun b => .atom (toString b.toNat)⟩

instance : Inspect Bool := ⟨fun b => .atom (if b then "true" else "false")⟩

instance : Inspect String := ⟨fun s => .atom (Text.quoted s.toList)⟩

instance {α : Type} [Inspect α] : Inspect (List α) := ⟨fun xs => .list (xs.map inspect)⟩

instance {α : Type} [Inspect α] : Inspect (Option α) where
  inspect
    | none => .atom "None"
    | some a => .variant "Some" [inspect a]

instance {ε α : Type} [Inspect ε] [Inspect α] : Inspect (Except ε α) where
  inspect
    | .ok a => .variant "Ok" [inspect a]
    | .error e => .variant "Err" [inspect e]

end LittleLang
