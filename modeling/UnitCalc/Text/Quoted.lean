import UnitCalc.Text.Printable

namespace UnitCalc.Text

-- A number in lower-case hexadecimal digits.
def hex (n : Nat) : String :=
  String.ofList (Nat.toDigits 16 n)

-- A character inside double quotes.
def escaped (c : Char) : String :=
  match c with
  | '\x00' => "\\0"
  | '\t' => "\\t"
  | '\r' => "\\r"
  | '\n' => "\\n"
  | '"' => "\\\""
  | '\\' => "\\\\"
  | c => if isPrintable c then c.toString else "\\u\x7b" ++ hex c.toNat ++ "\x7d"

def quoted (s : String) : String :=
  "\"" ++ String.join (s.toList.map escaped) ++ "\""

-- Whether `start` is the first part of `word`.
def startsWith (word start : String) : Bool :=
  start.toList.isPrefixOf word.toList

end UnitCalc.Text
