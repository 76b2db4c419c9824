import Protowire.Text.Printable

/-!
Text between quotes. The quote, the backslash, four controls, and every character that would not
show are written as escapes.
-/

namespace Protowire.Text

/-- The hexadecimal digits of a number, lower case, with no leading zero. -/
def hexDigits (n : Nat) : String := String.ofList (Nat.toDigits 16 n)

def escapeChar : Char → String
  | '\x00' => "\\0"
  | '\t' => "\\t"
  | '\r' => "\\r"
  | '\n' => "\\n"
  | '"' => "\\\""
  | '\\' => "\\\\"
  | c => if isPrintable c then String.singleton c else "\\u\x7b" ++ hexDigits c.toNat ++ "\x7d"

def quoted (s : String) : String := "\"" ++ String.join (s.toList.map escapeChar) ++ "\""

end Protowire.Text
