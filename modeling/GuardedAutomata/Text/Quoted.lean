import GuardedAutomata.Text.Unprintable

/-!
# Quoted text

A string in double quotes on one line.  The quote and the backslash are escaped
by a backslash, four controls have a letter of their own, and every other
character that cannot stand for itself is written by its number in hexadecimal.
A single quote needs no escape.
-/

namespace GuardedAutomata
namespace Quoted

/-- A number in lower-case hexadecimal digits, without leading zeros. -/
def hexadecimal (n : Nat) : String := String.ofList (Nat.toDigits 16 n)

/-- One character as it stands in quoted text. -/
def escape (c : Char) : String :=
  match c with
  | '\u0000' => "\\0"
  | '\t' => "\\t"
  | '\n' => "\\n"
  | '\r' => "\\r"
  | '"' => "\\\""
  | '\\' => "\\\\"
  | c =>
      if Unprintable.isUnprintable c then "\\u\x7b" ++ hexadecimal c.toNat ++ "\x7d"
      else c.toString

/-- A string in quotes. -/
def quote (s : String) : String := "\"" ++ String.join (s.toList.map escape) ++ "\""

end Quoted
end GuardedAutomata
