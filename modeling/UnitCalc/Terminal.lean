namespace UnitCalc

inductive Style where
  | red
  | green
  | yellow
  | blue
  | cyan
  | brightBlack
  | brightGreen
  | brightBlue
  | brightCyan
  | brightWhite
  | bold
  | underline
  deriving DecidableEq, Repr

namespace Style

-- An escape sequence that sets one attribute of what follows.
def escape (code : String) : String :=
  "\x1b[" ++ code ++ "m"

def start (s : Style) : String :=
  escape (match s with
    | red => "31"
    | green => "32"
    | yellow => "33"
    | blue => "34"
    | cyan => "36"
    | brightBlack => "90"
    | brightGreen => "92"
    | brightBlue => "94"
    | brightCyan => "96"
    | brightWhite => "97"
    | bold => "1"
    | underline => "4")

-- Colours go back to the default colour, and the other styles to plain text.
def stop (s : Style) : String :=
  escape (match s with
    | bold => "0"
    | underline => "0"
    | _ => "39")

-- A text in one style, also when it is empty.
def paint (s : Style) (text : String) : String :=
  s.start ++ text ++ s.stop

end Style

-- A text with the styles around it, the innermost first.
structure Painted where
  text : String
  styles : List Style
  deriving DecidableEq, Repr

namespace Painted

def plain (text : String) : Painted := ⟨text, []⟩

def render (p : Painted) : String :=
  p.styles.foldl (fun text s => s.paint text) p.text

end Painted

-- A text followed by as many spaces as it is short of a width.
def padRight (width : Nat) (text : String) : String :=
  text ++ String.ofList (List.replicate (width - text.length) ' ')

end UnitCalc
