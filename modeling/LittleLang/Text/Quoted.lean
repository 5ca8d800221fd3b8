import LittleLang.Text.Combining
import LittleLang.Text.Unprintable

/-!
Text between double quotes, on one line and with every character visible.
-/
namespace LittleLang.Text

/-- The lower-case hexadecimal digits of a number, without leading zeros. -/
def hex (n : Nat) : String :=
  String.ofList (Nat.toDigits 16 n)

/-- The two hexadecimal digits of a byte. -/
def hexByte (b : UInt8) : String :=
  if b < 16 then "0" ++ hex b.toNat else hex b.toNat

/-- How a character is written between quotes: the quote and the backslash after a backslash, the
common controls by a letter, and a character that cannot be seen by itself by its number. -/
def escape (c : Char) : String :=
  if c = '\"' then "\\\""
  else if c = '\\' then "\\\\"
  else if c = '\n' then "\\n"
  else if c = '\r' then "\\r"
  else if c = '\t' then "\\t"
  else if c = '\x00' then "\\0"
  else if isCombining c || isUnprintable c then "\\u\x7b" ++ hex c.toNat ++ "\x7d"
  else c.toString

/-- The text between double quotes. -/
def quoted (text : List Char) : String :=
  "\"" ++ String.join (text.map escape) ++ "\""

end LittleLang.Text
