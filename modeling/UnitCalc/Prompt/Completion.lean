import UnitCalc.Text.Blank
import UnitCalc.Text.Utf8
import UnitCalc.Token.Kind
import UnitCalc.Units.Registry

namespace UnitCalc.Prompt

def commands : List String :=
  [".help", ".units", ".lookup", ".load", ".rollback", ".exit"]

-- Characters of unit symbols: word characters, and all that are not ASCII and not blank.
def isSymbolChar (c : Char) : Bool :=
  c.isAlphanum || c == '_' || (128 ≤ c.toNat && !Text.isBlank c)

-- The longest end of a text that could be a symbol.
def lastWord (cs : List Char) : List Char :=
  (cs.reverse.takeWhile isSymbolChar).reverse

-- The part of a line before a byte offset, or the whole line when the offset is no boundary.
def beforeCaret (line : String) (caret : Nat) : List Char :=
  match Text.splitAt? (min caret line.utf8ByteSize) line.toList with
  | some (before, _) => before
  | none => line.toList

-- The names that a word can be the start of. Names with spaces are left out.
def candidates (r : Registry Float) (word : String) : List String :=
  let names := Keyword.all.map Keyword.word ++ r.symbols ++ r.aliases.keys
  sortNames (names.filter fun n => Text.startsWith n word && !n.toList.contains ' ')

-- Where the word at the caret starts, and what it can become. A line that starts with a point is a
-- command.
def complete (r : Registry Float) (line : String) (caret : Nat) : Nat × List String :=
  let before := beforeCaret line caret
  if before.head? = some '.' && !before.any Text.isBlank then
    (0, commands.filter fun c => Text.startsWith c (String.ofList before))
  else
    let word := lastWord before
    let start := Text.byteSize before - Text.byteSize word
    (start, if word.isEmpty then [] else candidates r (String.ofList word))

end UnitCalc.Prompt
