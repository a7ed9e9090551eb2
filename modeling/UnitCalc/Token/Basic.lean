import UnitCalc.Text.Position
import UnitCalc.Text.Quoted
import UnitCalc.Text.Span
import UnitCalc.Token.Kind
import UnitCalc.Report

namespace UnitCalc

structure Token where
  kind : TokenKind
  pos : Position
  start : Nat
  text : String
  deriving DecidableEq, Repr

-- A request that a reader of tokens cannot meet.
inductive TokenError where
  | wrongKind (expected found : String)
  | lookaheadExceeded (requested capacity : Nat)
  | pastEnd (offset size : Nat)
  | insideGlyph (offset : Nat)
  | notAtIdentifier (offset : Nat)
  | notAtQuote (offset : Nat)
  deriving DecidableEq, Repr

namespace TokenError

def report : TokenError → Report
  | wrongKind expected found =>
      { message := "cannot decode a " ++ expected ++ " payload from a " ++ found ++ " token" }
  | lookaheadExceeded requested capacity =>
      { message := "lookahead " ++ toString requested ++ " exceeds the " ++ toString capacity ++
          "-token buffer"
        advice := some "the grammar must not look further ahead than the scanner buffers" }
  | pastEnd offset size =>
      { message := "cursor offset " ++ toString offset ++ " is past the end of the source (" ++
          toString size ++ " bytes)" }
  | insideGlyph offset =>
      { message := "cursor offset " ++ toString offset ++ " splits a character or line break"
        advice := some "reposition to the start of a character" }
  | notAtIdentifier offset =>
      { message := "no identifier starts at offset " ++ toString offset }
  | notAtQuote offset =>
      { message := "no quote starts at offset " ++ toString offset }

end TokenError

namespace Token

-- The bytes that the text of a token takes up.
def span (t : Token) : Span :=
  ⟨t.start, t.text.utf8ByteSize⟩

def isEnd (t : Token) : Bool :=
  t.kind == .endOfFile

def keyword (t : Token) : Except TokenError Keyword :=
  match t.kind.keyword? with
  | some k => .ok k
  | none => .error (.wrongKind "Keyword" t.kind.name)

def operator (t : Token) : Except TokenError Operator :=
  match t.kind.operator? with
  | some o => .ok o
  | none => .error (.wrongKind "Operator" t.kind.name)

def fault (t : Token) : Except TokenError Fault :=
  match t.kind.fault? with
  | some f => .ok f
  | none => .error (.wrongKind "Error" t.kind.name)

def describe (t : Token) : String :=
  t.pos.display ++ " '" ++ t.text ++ "' [" ++ t.kind.display ++ "]"

-- All that a token holds, field by field.
def inspect (t : Token) : String :=
  "Token \x7b kind: " ++ t.kind.display ++
    ", pos: SrcPos \x7b line: " ++ toString t.pos.line ++
    ", column: " ++ toString t.pos.column ++
    " \x7d, span: SrcSpan \x7b start: " ++ toString t.start ++
    ", len: " ++ toString t.span.length ++
    " \x7d, text: " ++ Text.quoted t.text ++ " \x7d"

end Token

-- A fault at its place in the source.
structure LexError where
  fault : Fault
  pos : Position
  span : Span
  deriving DecidableEq, Repr

namespace LexError

def ofToken? (t : Token) : Option LexError :=
  t.kind.fault?.map fun f => ⟨f, t.pos, t.span⟩

def report (e : LexError) : Report :=
  { message := e.fault.message ++ " at " ++ e.pos.display
    code := some "unitscript::lex"
    advice := e.fault.advice?
    labels := [⟨"here", e.span.start, e.span.length⟩] }

end LexError

end UnitCalc
