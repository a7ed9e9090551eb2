namespace UnitCalc

inductive Keyword where
  | trueWord
  | falseWord
  | letWord
  | asWord
  deriving DecidableEq, Repr

namespace Keyword

def all : List Keyword := [trueWord, falseWord, letWord, asWord]

def word : Keyword → String
  | trueWord => "true"
  | falseWord => "false"
  | letWord => "let"
  | asWord => "as"

def name : Keyword → String
  | trueWord => "True"
  | falseWord => "False"
  | letWord => "Let"
  | asWord => "As"

-- The keyword that a word is. Case counts.
def ofWord? (text : String) : Option Keyword :=
  all.find? fun k => k.word == text

theorem ofWord?_word (k : Keyword) : ofWord? k.word = some k := by
  cases k <;> decide

theorem word_of_ofWord? {text : String} {k : Keyword} (h : ofWord? text = some k) :
    k.word = text := by
  simpa using List.find?_some h

end Keyword

inductive Operator where
  | plus
  | minus
  | times
  | divide
  | power
  | assign
  | equal
  | notEqual
  | less
  | lessEqual
  | greater
  | greaterEqual
  | both
  | either
  | negate
  deriving DecidableEq, Repr

namespace Operator

def symbol : Operator → String
  | plus => "+"
  | minus => "-"
  | times => "*"
  | divide => "/"
  | power => "^"
  | assign => "="
  | equal => "=="
  | notEqual => "!="
  | less => "<"
  | lessEqual => "<="
  | greater => ">"
  | greaterEqual => ">="
  | both => "&&"
  | either => "||"
  | negate => "!"

def name : Operator → String
  | plus => "Plus"
  | minus => "Minus"
  | times => "Multiply"
  | divide => "Divide"
  | power => "Pow"
  | assign => "Assign"
  | equal => "Equal"
  | notEqual => "NotEqual"
  | less => "Less"
  | lessEqual => "LessEqual"
  | greater => "Greater"
  | greaterEqual => "GreaterEqual"
  | both => "And"
  | either => "Or"
  | negate => "Not"

end Operator

-- What can be wrong with a piece of text. A fault is part of the token stream, which goes on
-- after it.
inductive Fault where
  | unterminatedString
  | invalidEscape
  | unknownCharacter
  | unterminatedComment
  deriving DecidableEq, Repr

namespace Fault

def name : Fault → String
  | unterminatedString => "UnterminatedString"
  | invalidEscape => "InvalidEscape"
  | unknownCharacter => "UnknownCharacter"
  | unterminatedComment => "UnterminatedComment"

def message : Fault → String
  | unterminatedString => "unterminated string literal"
  | invalidEscape => "invalid escape sequence"
  | unknownCharacter => "unknown character"
  | unterminatedComment => "unterminated block comment"

def advice? : Fault → Option String
  | unterminatedString => some "add the closing quote"
  | invalidEscape => some "valid escapes are \\n \\r \\t \\\\ \\\" \\' \\xHH and \\uHHHH"
  | unknownCharacter => none
  | unterminatedComment => some "close the comment with */"

end Fault

inductive Bracket where
  | round
  | square
  | curly
  deriving DecidableEq, Repr

namespace Bracket

def name : Bracket → String
  | round => "Paren"
  | square => "Square"
  | curly => "Curly"

end Bracket

inductive TokenKind where
  | undefined
  | endOfFile
  | lineBreak
  | tab
  | fault (f : Fault)
  | keyword (k : Keyword)
  | operator (o : Operator)
  | number
  | identifier
  | string
  | opening (b : Bracket)
  | closing (b : Bracket)
  deriving DecidableEq, Repr

namespace TokenKind

-- The name of a kind without what it carries.
def name : TokenKind → String
  | undefined => "Undefined"
  | endOfFile => "EndOfFile"
  | lineBreak => "LineBreak"
  | tab => "TabBreak"
  | fault _ => "Error"
  | keyword _ => "Keyword"
  | operator _ => "Operator"
  | number => "LiteralNumeric"
  | identifier => "LiteralIdentifier"
  | string => "LiteralString"
  | opening b => "Open" ++ b.name
  | closing b => "Close" ++ b.name

def display : TokenKind → String
  | fault f => "Error(" ++ f.name ++ ")"
  | keyword k => "Keyword(" ++ k.name ++ ")"
  | operator o => "Operator(" ++ o.name ++ ")"
  | k => k.name

def fault? : TokenKind → Option Fault
  | fault f => some f
  | _ => none

def keyword? : TokenKind → Option Keyword
  | keyword k => some k
  | _ => none

def operator? : TokenKind → Option Operator
  | operator o => some o
  | _ => none

end TokenKind

end UnitCalc
