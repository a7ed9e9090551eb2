import UnitCalc.Line.Parser
import UnitCalc.Text.Blank

namespace UnitCalc.Prompt

-- A preview of the result while a line is typed. It is shown only with the caret at the end of the
-- line, for a line with one result.
def hint? (o : LexOptions) (r : Registry Float) (line : String) (caret : Nat) : Option String :=
  let entry := Text.trim line
  if caret < line.utf8ByteSize || entry.isEmpty || entry.toList.head? = some '.' then
    none
  else
    match evaluateLines o r entry with
    | .ok [e] => some ("  => " ++ e.display)
    | _ => none

end UnitCalc.Prompt
