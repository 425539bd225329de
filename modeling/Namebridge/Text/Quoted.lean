import Namebridge.Text.Unprintable

/-!
# Quoted text in messages

Messages put the names they speak of between double quotes. Quotes, backslashes and characters that
do not print are escaped, so that a message stays on one line and shows every character of a name.
-/

namespace Namebridge.Text

/-- The digits of a number in base sixteen, in lower case. -/
def hexDigits (n : Nat) : String := String.ofList (Nat.toDigits 16 n)

/-- How a character stands between double quotes. -/
def escapeChar (c : Char) : String :=
  if c = '"' then "\\\""
  else if c = '\\' then "\\\\"
  else if c = '\n' then "\\n"
  else if c = '\r' then "\\r"
  else if c = '\t' then "\\t"
  else if c.toNat = 0 then "\\0"
  else if isPrintable c then c.toString
  else "\\u\x7b" ++ hexDigits c.toNat ++ "\x7d"

/-- The text between double quotes, with escapes. -/
def quoted (s : String) : String :=
  s.toList.foldl (fun out c => out ++ escapeChar c) "\"" ++ "\""

/-- The quoted texts in brackets. -/
def quotedList (texts : List String) : String :=
  "[" ++ ", ".intercalate (texts.map quoted) ++ "]"

/-- A quoted text, or the word for none. -/
def quotedOption : Option String → String
  | none => "None"
  | some s => s!"Some({quoted s})"

end Namebridge.Text
