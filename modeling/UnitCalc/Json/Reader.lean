import UnitCalc.Json.Value

namespace UnitCalc

inductive JsonMark where
  | openObject
  | closeObject
  | openArray
  | closeArray
  | colon
  | comma
  | string (s : String)
  -- A run of other characters, which is to be a number or one of three names.
  | word (cs : List Char)
  deriving DecidableEq, Repr

namespace JsonMark

def isBlank (c : Char) : Bool :=
  c == ' ' || c == '\t' || c == '\n' || c == '\r'

def ofChar? : Char → Option JsonMark
  | '{' => some openObject
  | '}' => some closeObject
  | '[' => some openArray
  | ']' => some closeArray
  | ':' => some colon
  | ',' => some comma
  | _ => none

-- The character for a letter after a backslash.
def unescape? : Char → Option Char
  | '"' => some '"'
  | '\\' => some '\\'
  | '/' => some '/'
  | 'b' => some '\x08'
  | 'f' => some '\x0c'
  | 'n' => some '\n'
  | 'r' => some '\r'
  | 't' => some '\t'
  | _ => none

def hexValue? (c : Char) : Option Nat :=
  if c.isDigit then some (c.toNat - '0'.toNat)
  else if 'a' ≤ c && c ≤ 'f' then some (c.toNat - 'a'.toNat + 10)
  else if 'A' ≤ c && c ≤ 'F' then some (c.toNat - 'A'.toNat + 10)
  else none

-- What has been read of a mark. Characters of a string or word are kept last first.
inductive Stage where
  | between
  | word (cs : List Char)
  | string (cs : List Char)
  | escape (cs : List Char)
  -- In `\u`, with the value of the digits so far, how many are to come, and the first half of a
  -- character that takes two.
  | code (cs : List Char) (value missing : Nat) (lead : Option Nat)
  -- After the first half of a character, where `\u` must follow.
  | lead (cs : List Char) (value : Nat)
  | leadEscape (cs : List Char) (value : Nat)
  deriving DecidableEq, Repr

namespace Stage

-- The stage after the last digit of `\u`.
def afterCode (cs : List Char) (value : Nat) : Option Nat → Option Stage
  | none =>
      if 0xd800 ≤ value && value < 0xdc00 then some (lead cs value)
      else if 0xdc00 ≤ value && value < 0xe000 then none
      else some (string (Char.ofNat value :: cs))
  | some first =>
      if 0xdc00 ≤ value && value < 0xe000 then
        some (string (Char.ofNat (0x10000 + (first - 0xd800) * 0x400 + (value - 0xdc00)) :: cs))
      else
        none

-- A character between marks.
def start (c : Char) : Option (List JsonMark × Stage) :=
  if isBlank c then some ([], between)
  else if c == '"' then some ([], string [])
  else match ofChar? c with
    | some m => some ([m], between)
    | none => some ([], word [c])

-- The marks that a character ends or is, and the stage after it.
def next (s : Stage) (c : Char) : Option (List JsonMark × Stage) :=
  match s with
  | between => start c
  | word cs =>
      if isBlank c || c == '"' || (ofChar? c).isSome then
        (start c).map fun (ms, s) => (.word cs.reverse :: ms, s)
      else
        some ([], word (c :: cs))
  | string cs =>
      if c == '"' then some ([.string (String.ofList cs.reverse)], between)
      else if c == '\\' then some ([], escape cs)
      else if c.toNat < 0x20 then none
      else some ([], string (c :: cs))
  | escape cs =>
      if c == 'u' then some ([], code cs 0 4 none)
      else (unescape? c).map fun e => ([], string (e :: cs))
  | code cs value missing first =>
      match hexValue? c with
      | none => none
      | some d =>
          let value := 16 * value + d
          if missing ≤ 1 then (afterCode cs value first).map fun s => ([], s)
          else some ([], code cs value (missing - 1) first)
  | lead cs value => if c == '\\' then some ([], leadEscape cs value) else none
  | leadEscape cs value => if c == 'u' then some ([], code cs 0 4 (some value)) else none

-- The marks that end with the text.
def finish? : Stage → Option (List JsonMark)
  | between => some []
  | word cs => some [.word cs.reverse]
  | _ => none

end Stage

-- The marks of a text from a stage on.
def ofChars? (s : Stage) : List Char → Option (List JsonMark)
  | [] => s.finish?
  | c :: cs => do
      let (ms, s) ← s.next c
      let rest ← ofChars? s cs
      return ms ++ rest

end JsonMark

namespace JsonValue

-- The value that a word is.
def ofWord? (cs : List Char) : Option JsonValue :=
  if cs = "null".toList then some null
  else if cs = "true".toList then some (bool true)
  else if cs = "false".toList then some (bool false)
  else (JsonNumber.read? cs).map number

-- An open array or object, its items last first.
inductive Frame where
  | array (items : List JsonValue)
  | object (entries : List (String × JsonValue)) (key : String)
  deriving Repr

-- What may come next.
inductive Stage where
  | value (frames : List Frame)
  | firstItem (outer : List Frame)
  | firstKey (outer : List Frame)
  | key (entries : List (String × JsonValue)) (outer : List Frame)
  | colon (entries : List (String × JsonValue)) (key : String) (outer : List Frame)
  | afterItem (items : List JsonValue) (outer : List Frame)
  | afterEntry (entries : List (String × JsonValue)) (outer : List Frame)
  | done (v : JsonValue)
  deriving Repr

namespace Stage

-- The stage after a whole value.
def place (v : JsonValue) : List Frame → Stage
  | [] => done v
  | .array items :: outer => afterItem (v :: items) outer
  | .object entries k :: outer => afterEntry ((k, v) :: entries) outer

-- The first mark of a value.
def startValue (frames : List Frame) : JsonMark → Option Stage
  | .openObject => some (firstKey frames)
  | .openArray => some (firstItem frames)
  | .string s => some (place (.string s) frames)
  | .word cs => (ofWord? cs).map fun v => place v frames
  | _ => none

def next (s : Stage) (m : JsonMark) : Option Stage :=
  match s with
  | value frames => startValue frames m
  | firstItem outer =>
      if m = .closeArray then some (place (.array []) outer) else startValue (.array [] :: outer) m
  | firstKey outer =>
      match m with
      | .closeObject => some (place (.object []) outer)
      | .string k => some (colon [] k outer)
      | _ => none
  | key entries outer =>
      match m with
      | .string k => some (colon entries k outer)
      | _ => none
  | colon entries k outer =>
      if m = .colon then some (value (.object entries k :: outer)) else none
  | afterItem items outer =>
      match m with
      | .comma => some (value (.array items :: outer))
      | .closeArray => some (place (.array items.reverse) outer)
      | _ => none
  | afterEntry entries outer =>
      match m with
      | .comma => some (key entries outer)
      | .closeObject => some (place (.object entries.reverse) outer)
      | _ => none
  | done _ => none

def finish? : Stage → Option JsonValue
  | done v => some v
  | _ => none

end Stage

-- The value that a text spells.
def read? (text : String) : Option JsonValue := do
  let marks ← JsonMark.ofChars? .between text.toList
  let stage ← marks.foldlM Stage.next (Stage.value [])
  stage.finish?

end JsonValue

end UnitCalc
