import UnitCalc.Line.Quantity
import UnitCalc.Number.Decimal
import UnitCalc.Token.Reader

namespace UnitCalc

inductive ParseError where
  | expectedNumber (found : String) (span : Span)
  | expectedUnit (found : String) (span : Span)
  | unexpected (found : String) (span : Span)
  | invalidNumber (text : String) (span : Span)
  | lexical (e : LexError)
  deriving DecidableEq, Repr

namespace ParseError

def report : ParseError → Report
  | expectedNumber found span =>
      parseReport ("expected a number, found '" ++ found ++ "'") "here" span
  | expectedUnit found span => parseReport ("expected a unit, found '" ++ found ++ "'") "here" span
  | unexpected found span => parseReport ("unexpected '" ++ found ++ "'") "not expected here" span
  | invalidNumber text span => parseReport ("'" ++ text ++ "' is not a valid number") "here" span
  | lexical e => e.report
where
  parseReport (message label : String) (span : Span) : Report :=
    { message := message
      code := some "unitscript::parse"
      labels := [⟨label, span.start, span.length⟩] }

end ParseError

namespace Token

-- A token as it is named in an error.
def found (t : Token) : String :=
  if t.isEnd then "end of input" else t.text

def isAscii (text : String) : Bool :=
  text.toList.all fun c => c.toNat < 128

-- Whether a token can be part of a name.
def isNamePiece (t : Token) : Bool :=
  match t.kind with
  | .identifier => true
  | .undefined => !isAscii t.text
  | _ => false

def isBackslash (t : Token) : Bool :=
  t.kind == .undefined && t.text == "\\"

-- Whether an atom can start here.
def startsAtom (t : Token) : Bool :=
  t.kind == .opening .round || t.isNamePiece

-- Whether a line can end here.
def endsLine (t : Token) : Bool :=
  t.kind == .lineBreak || t.isEnd

def isOperator (t : Token) (o : Operator) : Bool :=
  t.kind == .operator o

-- The error for a token that nothing can be made of.
def unexpected (t : Token) : ParseError :=
  if t.kind == .undefined then
    .lexical ⟨.unknownCharacter, t.pos, t.span⟩
  else
    .unexpected t.found t.span

end Token

-- The tokens without each backslash that stands right before the end of a line, and without that
-- end.
def joinLines : List Token → List Token
  | a :: b :: ts =>
      if a.isBackslash && b.kind == .lineBreak then joinLines ts else a :: joinLines (b :: ts)
  | ts => ts

-- How a term joins what stands to the left of it.
inductive Joint where
  | mul
  | div
  deriving DecidableEq, Repr

-- What stands to the left of a term inside its parentheses.
abbrev LeftSide := Option (UnitExpr × Joint)

namespace LeftSide

def join : LeftSide → UnitExpr → UnitExpr
  | none, e => e
  | some (l, .mul), e => .mul l e
  | some (l, .div), e => .div l e

end LeftSide

-- The unit being read.
structure Context where
  value : Float
  -- The unit of the line, when its target is being read.
  unit : Option UnitExpr
  isTarget : Bool
  left : LeftSide
  -- What stands to the left of each open parenthesis, the innermost first.
  outer : List LeftSide
  deriving DecidableEq

namespace Context

def ofUnit (value : Float) : Context :=
  ⟨value, none, false, none, []⟩

def ofTarget (value : Float) (unit : Option UnitExpr) : Context :=
  ⟨value, unit, true, none, []⟩

def opened (c : Context) : Context :=
  { c with left := none, outer := c.left :: c.outer }

def joined (c : Context) (e : UnitExpr) (j : Joint) : Context :=
  { c with left := some (e, j) }

end Context

-- What has been read of a line so far. Open parentheses are a list in its context.
inductive Stage where
  -- Between lines.
  | blank
  -- After the minus sign of a value.
  | sign
  -- After a value.
  | value (v : Float)
  -- Where a term must start.
  | operand (c : Context)
  -- In a name, which may go on.
  | name (c : Context) (symbol : String) (span : Span)
  -- After an atom, which may be raised to a power.
  | atom (c : Context) (e : UnitExpr)
  -- After `^`, and maybe a minus sign.
  | exponent (c : Context) (base : UnitExpr) (negative : Bool)
  -- After a power.
  | term (c : Context) (e : UnitExpr)
  deriving DecidableEq

namespace Stage

-- How many parentheses are open.
def depth : Stage → Nat
  | blank | sign | value _ => 0
  | operand c | name c _ _ | atom c _ | exponent c _ _ | term c _ => c.outer.length

-- Tabs are blanks everywhere, and line ends are between parentheses.
def skips (s : Stage) (t : Token) : Bool :=
  t.kind == .tab || t.kind == .lineBreak && s.depth != 0

-- What follows a token, with the line that it ended.
abbrev Next := Except ParseError (Stage × Option Quantity)

-- A number, which must be the next token.
def number (t : Token) (negative : Bool) : Except ParseError Float :=
  if t.kind == .number then
    match Number.read? t.text with
    | some v => .ok (if negative then -v else v)
    | none => .error (.invalidNumber t.text t.span)
  else
    .error (.expectedNumber t.found t.span)

-- The largest exponent of a unit.
def maxExponent : Nat := 2147483647

-- An exponent, which must be an integer.
def exponent? (x : Float) : Option Int :=
  match Number.toInt? x with
  | some n => if n.natAbs ≤ maxExponent then some n else none
  | none => none

-- The first token of an atom.
def startAtom (c : Context) (t : Token) : Next :=
  if t.kind == .opening .round then
    .ok (operand c.opened, none)
  else if t.isNamePiece then
    .ok (name c t.text t.span, none)
  else if t.kind == .undefined then
    .error t.unexpected
  else
    .error (.expectedUnit t.found t.span)

-- The token after a line's last unit, which must be the end of the line.
def endLine (q : Quantity) (t : Token) : Next :=
  if t.endsLine then .ok (blank, some q) else .error t.unexpected

-- The token after a line's value and unit.
def afterUnit (v : Float) (unit : Option UnitExpr) (t : Token) : Next :=
  if t.kind == .keyword .asWord then
    .ok (operand (.ofTarget v unit), none)
  else
    endLine ⟨v, unit, none⟩ t

-- The token after a term, which together with what is to the left of it is `e`.
def afterTerm (c : Context) (e : UnitExpr) (t : Token) : Next :=
  if t.isOperator .times then
    .ok (operand (c.joined e .mul), none)
  else if t.isOperator .divide then
    .ok (operand (c.joined e .div), none)
  else if t.startsAtom then
    startAtom (c.joined e .mul) t
  else
    match c.outer with
    | left :: outer =>
        if t.kind == .closing .round then
          .ok (atom { c with left := left, outer := outer } (.group e), none)
        else
          .error t.unexpected
    | [] =>
        if c.isTarget then endLine ⟨c.value, c.unit, some e⟩ t else afterUnit c.value (some e) t

-- The token after an atom.
def afterAtom (c : Context) (e : UnitExpr) (t : Token) : Next :=
  if t.isOperator .power then
    .ok (exponent c e false, none)
  else
    afterTerm c (c.left.join e) t

-- A token that counts.
def step (s : Stage) (t : Token) : Next :=
  match s with
  | blank =>
      if t.endsLine then
        .ok (blank, none)
      else if t.isOperator .minus then
        .ok (sign, none)
      else do
        return (value (← number t false), none)
  | sign => do
      return (value (← number t true), none)
  | value v => if t.startsAtom then startAtom (.ofUnit v) t else afterUnit v none t
  | operand c => startAtom c t
  | name c symbol span =>
      if t.isNamePiece && t.start == span.stop then
        .ok (name c (symbol ++ t.text) ⟨span.start, t.span.stop - span.start⟩, none)
      else
        afterAtom c (.name symbol span) t
  | atom c e => afterAtom c e t
  | exponent c base negative =>
      if !negative && t.isOperator .minus then
        .ok (exponent c base true, none)
      else do
        let x ← number t negative
        match exponent? x with
        | some n => return (term c (.pow base n), none)
        | none => .error (.invalidNumber (Number.display x) t.span)
  | term c e => afterTerm c (c.left.join e) t

-- Any token.
def next (s : Stage) (t : Token) : Next :=
  if s.skips t then
    .ok (s, none)
  else
    match LexError.ofToken? t with
    | some e => .error (.lexical e)
    | none => s.step t

-- The lines that some tokens make up from a stage on.
def run : Stage → List Token → Except ParseError (List Quantity)
  | _, [] => .ok []
  | s, t :: ts => do
      let (s, line) ← s.next t
      let lines ← run s ts
      return line.toList ++ lines

end Stage

-- The lines of a text, blank ones left out:
--
--   line  := '-'? NUMBER unit? ('as' unit)?
--   unit  := term (('*' | '/')? term)*
--   term  := atom ('^' '-'? NUMBER)?
--   atom  := NAME | '(' unit ')'
--
-- Terms side by side multiply. A name is a run of touching words and unknown characters that are
-- not ASCII. A line goes on past its end while a parenthesis is open, or when a backslash stands
-- right before the end.
def parseLines (o : LexOptions) (source : String) : Except ParseError (List Quantity) :=
  Stage.blank.run (joinLines (lex o source))

inductive EvalError where
  | parse (e : ParseError)
  | unit (e : UnitError)
  deriving DecidableEq

namespace EvalError

def report : EvalError → Report
  | parse e => e.report
  | unit e => e.report

end EvalError

-- The values of the lines of a text. Nothing is evaluated before all is parsed.
def evaluateLines (o : LexOptions) (r : Registry Float) (source : String) :
    Except EvalError (List Evaluated) := do
  let lines ← (parseLines o source).mapError .parse
  (lines.mapM (Quantity.evaluate r)).mapError .unit

end UnitCalc
