import UnitCalc.Terminal
import UnitCalc.Token.Reader
import UnitCalc.Units.Registry

namespace UnitCalc.Prompt

-- The styles of a token. A name is coloured when it is a known unit.
def styles (r : Registry Float) (t : Token) : List Style :=
  match t.kind with
  | .number => [.yellow]
  | .keyword _ => [.blue, .bold]
  | .operator _ => [.brightBlack]
  | .string => [.green]
  | .fault _ => [.red, .underline]
  | .identifier => if r.contains t.text then [.cyan] else []
  | _ => []

-- The pieces of a line from byte offset `last` on: its tokens, and as plain text what is between
-- them.
def paintTokens (r : Registry Float) (line : List Char) : Nat → List Token → List Painted
  | last, [] => [.plain (String.ofList (Text.slice last (Text.byteSize line) line))]
  | last, t :: ts =>
      .plain (String.ofList (Text.slice last t.start line)) :: ⟨t.text, styles r t⟩ ::
        paintTokens r line (max last t.span.stop) ts

-- A line that starts with a point is a command.
def paintLine (o : LexOptions) (r : Registry Float) (line : String) : List Painted :=
  if line.toList.head? = some '.' then
    [⟨line, [.brightBlue]⟩]
  else
    paintTokens r line.toList 0 (lex o line)

def highlightLine (o : LexOptions) (r : Registry Float) (line : String) : String :=
  String.join ((paintLine o r line).map Painted.render)

-- The two prompts are coloured up to their last space.
def highlightPrompt (text : String) : String :=
  if text == "> " then (Painted.mk ">" [.brightGreen, .bold]).render ++ " "
  else if text == "... " then (Painted.mk "..." [.yellow, .bold]).render ++ " "
  else text

def highlightHint (text : String) : String :=
  Style.brightBlack.paint text

end UnitCalc.Prompt
