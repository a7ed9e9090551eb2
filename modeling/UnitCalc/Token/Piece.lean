import UnitCalc.Text.Glyph
import UnitCalc.Token.Kind

namespace UnitCalc

-- The optional parts of the token grammar. All are off by default.
structure LexOptions where
  -- `"` and `'` open string literals.
  quotedStrings : Bool := false
  -- A backslash starts an escape inside a string literal.
  escapes : Bool := false
  -- `//` and `/* */` comments are skipped.
  comments : Bool := false
  deriving DecidableEq, Repr

-- The shape of the next token: which glyphs ahead are skipped, which are its lexeme, and which
-- close it. Positions play no part here.
structure Piece where
  -- Blanks, comments and an opening quote.
  skipped : List Glyph
  kind : TokenKind
  lexeme : List Glyph
  -- The closing quote of a string literal.
  closing : List Glyph
  deriving DecidableEq, Repr

namespace Piece

-- All the glyphs that a piece takes up.
def glyphs (p : Piece) : List Glyph :=
  p.skipped ++ p.lexeme ++ p.closing

def isIdentifierStart (c : Char) : Bool :=
  c.isAlpha || c == '_'

def isIdentifierPart (c : Char) : Bool :=
  c.isAlphanum || c == '_'

def isQuote (c : Char) : Bool :=
  c == '"' || c == '\''

def digits (gs : List Glyph) : List Glyph :=
  gs.takeWhile (Glyph.is Char.isDigit)

-- Digits with at most one point among them or at either end.
def mantissa (gs : List Glyph) : List Glyph :=
  match gs with
  | .char '.' :: r => .char '.' :: digits r
  | _ =>
      let whole := digits gs
      match gs.drop whole.length with
      | .char '.' :: r => whole ++ .char '.' :: digits r
      | _ => whole

-- An exponent mark counts only with a digit after it and its sign.
def exponent : List Glyph → List Glyph
  | .char e :: .char s :: r =>
      if e == 'e' || e == 'E' then
        if s == '+' || s == '-' then
          if (digits r).isEmpty then [] else .char e :: .char s :: digits r
        else if s.isDigit then
          .char e :: .char s :: digits r
        else
          []
      else
        []
  | _ => []

def number (gs : List Glyph) : List Glyph :=
  mantissa gs ++ exponent (gs.drop (mantissa gs).length)

-- A word, which is a keyword or an identifier.
def word (gs : List Glyph) : Piece :=
  let lexeme := gs.takeWhile (Glyph.is isIdentifierPart)
  let kind := match Keyword.ofWord? (Glyph.text lexeme) with
    | some k => .keyword k
    | none => .identifier
  ⟨[], kind, lexeme, []⟩

-- The content of a string literal without escapes ends at its quote or at the end of the line.
def plainContent (quote : Char) (gs : List Glyph) : List Glyph × TokenKind :=
  let content := gs.takeWhile (Glyph.is (· != quote))
  if (gs.drop content.length).head? = some (.char quote) then
    (content, .string)
  else
    (content, .fault .unterminatedString)

def isEscapable (c : Char) : Bool :=
  c == 'n' || c == 'r' || c == 't' || c == '\\' || c == '"' || c == '\'' || c == 'x' || c == 'u'

-- The content of a string literal with escapes may run over lines. What follows `\x` and `\u` is
-- not looked at.
def escapedContent (quote : Char) : List Glyph → List Glyph × TokenKind
  | [] => ([], .fault .unterminatedString)
  | .char '\\' :: [] => ([.char '\\'], .fault .unterminatedString)
  | .char '\\' :: g :: gs =>
      if g.is isEscapable then
        let (content, kind) := escapedContent quote gs
        (.char '\\' :: g :: content, kind)
      else
        ([.char '\\', g], .fault .invalidEscape)
  | g :: gs =>
      if g = .char quote then
        ([], .string)
      else
        let (content, kind) := escapedContent quote gs
        (g :: content, kind)

-- The string literal after an opening quote.
def literal (escapes : Bool) (quote : Char) (gs : List Glyph) : Piece :=
  let (content, kind) := if escapes then escapedContent quote gs else plainContent quote gs
  ⟨[.char quote], kind, content, if kind = .string then [.char quote] else []⟩

-- A single mark, or a pair of marks that make one operator.
def mark (c : Char) (next : Option Glyph) : TokenKind × Nat :=
  let pair (second : Char) (double : Operator) (single : TokenKind) : TokenKind × Nat :=
    if next = some (.char second) then (.operator double, 2) else (single, 1)
  match c with
  | '(' => (.opening .round, 1)
  | ')' => (.closing .round, 1)
  | '[' => (.opening .square, 1)
  | ']' => (.closing .square, 1)
  | '{' => (.opening .curly, 1)
  | '}' => (.closing .curly, 1)
  | '+' => (.operator .plus, 1)
  | '-' => (.operator .minus, 1)
  | '*' => (.operator .times, 1)
  | '/' => (.operator .divide, 1)
  | '^' => (.operator .power, 1)
  | '=' => pair '=' .equal (.operator .assign)
  | '!' => pair '=' .notEqual (.operator .negate)
  | '<' => pair '=' .lessEqual (.operator .less)
  | '>' => pair '=' .greaterEqual (.operator .greater)
  | '|' => pair '|' .either .undefined
  | '&' => pair '&' .both .undefined
  | _ => (.undefined, 1)

-- The rest of a block comment, through the first `*/`.
def blockComment? : List Glyph → Option (List Glyph)
  | .char '*' :: .char '/' :: _ => some [.char '*', .char '/']
  | g :: gs => (blockComment? gs).map (g :: ·)
  | [] => none

-- The rest of a line comment, up to the end of the line.
def lineComment (gs : List Glyph) : List Glyph :=
  gs.takeWhile fun g => !g.isLineEnd

-- Spaces and whole comments ahead. Tabs are tokens.
def trivia (comments : Bool) (gs : List Glyph) : List Glyph :=
  match gs with
  | .char ' ' :: r => .char ' ' :: trivia comments r
  | .char '/' :: .char '/' :: r =>
      if comments then
        .char '/' :: .char '/' :: lineComment r ++ trivia comments (r.drop (lineComment r).length)
      else
        []
  | .char '/' :: .char '*' :: r =>
      if comments then
        match blockComment? r with
        | some inside =>
            .char '/' :: .char '*' :: inside ++ trivia comments (r.drop inside.length)
        | none => []
      else
        []
  | _ => []
termination_by gs.length
decreasing_by all_goals simp only [List.length_cons, List.length_drop]; omega

def startsNumber (c : Char) (next : Option Glyph) : Bool :=
  c.isDigit || c == '.' && next.any (Glyph.is Char.isDigit)

-- The token at the first glyph ahead that is not skipped.
def atGlyph (o : LexOptions) (gs : List Glyph) : Piece :=
  match gs with
  | [] => ⟨[], .endOfFile, [], []⟩
  | .lineEnd e :: _ => ⟨[], .lineBreak, [.lineEnd e], []⟩
  | .char c :: r =>
      if o.comments && c == '/' && r.head? = some (.char '*') then
        ⟨[], .fault .unterminatedComment, gs, []⟩
      else if c == '\t' then
        ⟨[], .tab, [.char c], []⟩
      else if o.quotedStrings && isQuote c then
        literal o.escapes c r
      else if isIdentifierStart c then
        word gs
      else if startsNumber c r.head? then
        ⟨[], .number, number gs, []⟩
      else
        let (kind, length) := mark c r.head?
        ⟨[], kind, gs.take length, []⟩

-- The next piece of a text. Trivia stops at a comment only when it is never closed, so a comment
-- that opens where a token is looked for takes up the rest of the text.
def ofGlyphs (o : LexOptions) (gs : List Glyph) : Piece :=
  let skipped := trivia o.comments gs
  let piece := atGlyph o (gs.drop skipped.length)
  { piece with skipped := skipped ++ piece.skipped }

end Piece

end UnitCalc
