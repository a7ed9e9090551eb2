import UnitCalc.Text.Blank
import UnitCalc.Token.Piece

namespace UnitCalc.Prompt

-- Where a character of an entry stands.
inductive Place where
  | code
  | lineComment
  | blockComment
  deriving DecidableEq, Repr

-- The place at the end of an entry, and how many more parentheses are opened than closed. The count
-- may go below zero, and starts from there. It is an integer of any size, where the line editor
-- counts in 32 bits: the two are the same for an entry of less than `2 ^ 31` bytes.
def openAtEnd (comments : Bool) : Place → Int → List Char → Place × Int
  | place, depth, [] => (place, depth)
  | .blockComment, depth, '*' :: '/' :: cs => openAtEnd comments .code depth cs
  | .blockComment, depth, _ :: cs => openAtEnd comments .blockComment depth cs
  | .lineComment, depth, c :: cs =>
      openAtEnd comments (if c == '\n' || c == '\r' then .code else .lineComment) depth cs
  | .code, depth, '/' :: '/' :: cs =>
      openAtEnd comments (if comments then .lineComment else .code) depth cs
  | .code, depth, '/' :: '*' :: cs =>
      openAtEnd comments (if comments then .blockComment else .code) depth cs
  | .code, depth, '(' :: cs => openAtEnd comments .code (depth + 1) cs
  | .code, depth, ')' :: cs => openAtEnd comments .code (depth - 1) cs
  | .code, depth, _ :: cs => openAtEnd comments .code depth cs

-- Whether an entry goes on to another line: while parentheses or, where there are comments, a block
-- comment are open, and after a backslash at the end.
def needsMore (o : LexOptions) (source : String) : Bool :=
  let (place, depth) := openAtEnd o.comments .code 0 source.toList
  place = .blockComment || depth > 0 ||
    (Text.trimEnd source.toList).getLast? = some '\\'

end UnitCalc.Prompt
