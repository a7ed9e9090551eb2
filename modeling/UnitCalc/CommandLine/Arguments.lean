import UnitCalc.Number.Decimal
import UnitCalc.Token.Piece

namespace UnitCalc.CommandLine

inductive Opt where
  | eval
  | tokens
  | strings
  | comments
  | units
  | verbose
  | version
  | standard
  deriving DecidableEq, Repr

namespace Opt

def long : Opt → String
  | eval => "eval"
  | tokens => "tokens"
  | strings => "strings"
  | comments => "comments"
  | units => "units"
  | verbose => "verbose"
  | version => "version"
  | standard => "standard"

def short? : Opt → Option Char
  | eval => some 'e'
  | verbose => some 'v'
  | version => some 'V'
  | _ => none

def takesValue : Opt → Bool
  | eval | units | standard => true
  | _ => false

end Opt

-- Why arguments are not carried out.
inductive Refusal where
  -- They ask for the version.
  | version
  | usage
  deriving DecidableEq, Repr

-- What may be given at one place of the command line.
structure Level where
  options : List Opt
  -- How many arguments there may be apart from options.
  arity : Nat
  -- Whether such an argument is the name of a file.
  takesFile : Bool
  -- Whether the first such argument may be a negative number.
  takesNumber : Bool
  deriving DecidableEq, Repr

structure Parsed where
  -- Options with their values; flags have an empty one.
  options : List (Opt × String)
  arguments : List String
  deriving DecidableEq, Repr

namespace Parsed

def empty : Parsed := ⟨[], []⟩

def value? (p : Parsed) (o : Opt) : Option String :=
  p.options.lookup o

def has (p : Parsed) (o : Opt) : Bool :=
  (p.value? o).isSome

-- Adds an option. None may be given twice, and a file must have a name.
def add (p : Parsed) (o : Opt) (value : String) : Except Refusal Parsed :=
  if o = .version then .error .version
  else if p.has o || o = .units && value.isEmpty then .error .usage
  else .ok { p with options := p.options ++ [(o, value)] }

def addArgument (p : Parsed) (l : Level) (argument : String) : Except Refusal Parsed :=
  if l.arity ≤ p.arguments.length || l.takesFile && argument.isEmpty then .error .usage
  else .ok { p with arguments := p.arguments ++ [argument] }

end Parsed

-- Whether a text has the form of a number without a sign: digits, a point that is not first and
-- comes before any exponent, and an exponent mark that is neither first nor last.
def isNumberForm (cs : List Char) : Bool :=
  let whole := cs.takeWhile Char.isDigit
  let rest := cs.drop whole.length
  let rest := match rest with
    | '.' :: r => if whole.isEmpty then rest else r.dropWhile Char.isDigit
    | _ => rest
  match rest with
  | [] => true
  | e :: r =>
      (e == 'e' || e == 'E') && rest.length < cs.length && !r.isEmpty && r.all Char.isDigit

-- Short options that are written together. The last may have its value attached, or wait for it.
def readShort (l : Level) : Parsed → List Char → Except Refusal (Parsed × Option Opt)
  | p, [] => .ok (p, none)
  | p, c :: cs =>
      match l.options.find? fun o => o.short? = some c with
      | none => .error .usage
      | some o =>
          if o.takesValue then
            match cs with
            | [] => .ok (p, some o)
            | '=' :: value => do return (← p.add o (String.ofList value), none)
            | value => do return (← p.add o (String.ofList value), none)
          else do
            readShort l (← p.add o "") cs

-- A long option, which may have its value attached or wait for it.
def readLong (l : Level) (p : Parsed) (cs : List Char) : Except Refusal (Parsed × Option Opt) :=
  let name := cs.takeWhile (· != '=')
  let value := (cs.drop name.length).tail?
  match l.options.find? fun o => o.long = String.ofList name with
  | none => .error .usage
  | some o =>
      match o.takesValue, value with
      | true, none => .ok (p, some o)
      | true, some value => do return (← p.add o (String.ofList value), none)
      | false, none => do return (← p.add o "", none)
      | false, some _ => .error .usage

-- What is read so far.
structure State where
  parsed : Parsed
  -- An option that waits for its value.
  waiting : Option Opt
  -- Whether `--` has been given, after which nothing is an option.
  onlyArguments : Bool
  deriving DecidableEq, Repr

namespace State

def empty : State := ⟨.empty, none, false⟩

-- Whether nothing has been given yet.
def isEmpty (s : State) : Bool :=
  s.parsed = .empty && s.waiting.isNone

-- Whether an argument has the form of an option.
def isOption (s : State) (l : Level) (cs : List Char) : Bool :=
  match cs with
  | ['-'] => false
  | '-' :: '-' :: _ => true
  | '-' :: r => !(l.takesNumber && s.parsed.arguments.isEmpty && isNumberForm r)
  | _ => false

-- Reads one argument.
def step (l : Level) (s : State) (argument : String) : Except Refusal State :=
  let cs := argument.toList
  if s.onlyArguments then do
    return { s with parsed := ← s.parsed.addArgument l argument }
  else if s.isOption l cs then
    if s.waiting.isSome then
      .error .usage
    else
      match cs with
      | ['-', '-'] => .ok { s with onlyArguments := true }
      | '-' :: '-' :: r => do
          let (parsed, waiting) ← readLong l s.parsed r
          return { s with parsed := parsed, waiting := waiting }
      | _ => do
          let (parsed, waiting) ← readShort l s.parsed (cs.drop 1)
          return { s with parsed := parsed, waiting := waiting }
  else
    match s.waiting with
    | some o => do return { s with parsed := ← s.parsed.add o argument, waiting := none }
    | none => do return { s with parsed := ← s.parsed.addArgument l argument }

-- No option may be left without its value.
def finish (s : State) : Except Refusal Parsed :=
  if s.waiting.isSome then .error .usage else .ok s.parsed

end State

def readLevel (l : Level) (arguments : List String) : Except Refusal Parsed := do
  let s ← arguments.foldlM (State.step l) State.empty
  s.finish

inductive Command where
  -- A script file and a script on the command line, which comes first. With neither, a session.
  | script (file eval : Option String) (tokens : Bool) (options : LexOptions)
  | lookup (symbol : String)
  | convert (value : Float) (source target : String)
  | units (standard : Option String)
  deriving DecidableEq

-- A command, with the file of definitions to apply before it.
structure Invocation where
  command : Command
  overrides : Option String
  deriving DecidableEq

def mainLevel : Level :=
  ⟨[.eval, .tokens, .strings, .comments, .units, .verbose, .version], 1, true, false⟩

-- The command of a given name, for the arguments after the name.
def subcommand? (name : String) : Option (List String → Except Refusal Invocation) :=
  match name with
  | "lookup" => some fun arguments => do
      let p ← readLevel ⟨[.units, .verbose], 1, false, false⟩ arguments
      match p.arguments with
      | [symbol] => return ⟨.lookup symbol, p.value? .units⟩
      | _ => .error .usage
  | "convert" => some fun arguments => do
      let p ← readLevel ⟨[.units, .verbose], 3, false, true⟩ arguments
      match p.arguments with
      | [value, source, target] =>
          match Number.read? value with
          | some x => return ⟨.convert x source target, p.value? .units⟩
          | none => .error .usage
      | _ => .error .usage
  | "units" => some fun arguments => do
      let p ← readLevel ⟨[.standard, .units, .verbose], 0, false, false⟩ arguments
      return ⟨.units (p.value? .standard), p.value? .units⟩
  | _ => none

def script (p : Parsed) : Invocation :=
  let strings := p.has .strings
  ⟨.script p.arguments.head? (p.value? .eval) (p.has .tokens)
    { quotedStrings := strings, escapes := strings, comments := p.has .comments },
    p.value? .units⟩

-- Reads the arguments of the main level. The name of a command counts only before all else.
def readMain : State → List String → Except Refusal Invocation
  | s, [] => do return script (← s.finish)
  | s, argument :: rest => do
      if s.isEmpty && !s.onlyArguments then
        if let some command := subcommand? argument then
          return ← command rest
      readMain (← s.step mainLevel argument) rest

def read (arguments : List String) : Except Refusal Invocation :=
  readMain .empty arguments

end UnitCalc.CommandLine
