import UnitCalc.CommandLine.Arguments
import UnitCalc.Diagnostics
import UnitCalc.Session
import UnitCalc.Units.Default

namespace UnitCalc.CommandLine

-- What the program prints to standard output, and its exit code.
structure Reply where
  code : Nat
  output : List String
  deriving DecidableEq, Repr

namespace Reply

-- The exit code after an abort.
def abortCode : Nat := 101

def done (output : List String) : Reply := ⟨0, output⟩

-- A command that failed, after what it had printed.
def failed (output : List String) : Reply := ⟨1, output⟩

-- A session, which cannot fail but for an abort.
def ofTranscript (t : Transcript) : Reply :=
  ⟨if t.aborted then abortCode else 0, Session.banner ++ t.output⟩

-- Arguments that make no sense.
def misused : Reply := ⟨2, []⟩

def ofRefusal : Refusal → Reply
  | .version => done [programName ++ " " ++ programVersion]
  | .usage => misused

def text (r : Reply) : String :=
  String.join (r.output.map fun line => line ++ "\n")

end Reply

-- One token of a listing.
def listToken (t : Token) : String :=
  let kind := t.kind.display
  let painted := match t.kind with
    | .fault _ => Style.red.paint kind
    | .keyword _ => Style.blue.paint kind
    | .number => Style.yellow.paint kind
    | _ => kind
  Style.brightBlack.paint "token" ++ " " ++ padRight 9 t.pos.display ++ " " ++
    Text.quoted t.text ++ " " ++ painted

-- The values of some quantities, up to the first that fails.
def evaluateAll (r : Registry Float) : List Quantity → Reply
  | [] => .done []
  | q :: qs =>
      match q.evaluate r with
      | .error _ => .failed []
      | .ok e =>
          let rest := evaluateAll r qs
          { rest with output := e.display :: rest.output }

-- Evaluates a script. Nothing is evaluated when a token is faulty or a line does not parse.
def runScript (o : LexOptions) (r : Registry Float) (source : String) : Reply :=
  if (Diagnostics.empty.reportFaults (lex o source)).hasErrors then
    .failed []
  else
    match parseLines o source with
    | .error _ => .failed []
    | .ok qs => evaluateAll r qs

def listTokens (o : LexOptions) (source : String) : List String :=
  (lex o source).map listToken

def lookup (r : Registry Float) (name : String) : Reply :=
  match r.find? name with
  | none => .failed []
  | some u =>
      let aliases := if u.aliases.isEmpty then [] else
        ["  " ++ Style.brightBlack.paint "aliases" ++ " " ++ ", ".intercalate u.aliases]
      .done ([u.display,
        "  " ++ Style.brightBlack.paint "standard" ++ " " ++ u.standard.display] ++ aliases)

def convert (r : Registry Float) (value : Float) (source target : String) : Reply :=
  match r.convert value source target with
  | .error _ => .failed []
  | .ok x => .done [Number.display x ++ " " ++ Style.brightCyan.paint target]

-- All symbols with the names of their units, or those of one standard.
def listUnits (r : Registry Float) (standard : Option Standard) : Reply :=
  .done (r.symbols.filterMap fun symbol => do
    let u ← r.find? symbol
    if standard.all (· = u.standard) then
      some (Style.brightCyan.paint (padRight 12 symbol) ++ " " ++ u.name)
    else
      none)

-- The script file that a command reads.
def Command.file? : Command → Option String
  | .script file none _ _ => file
  | _ => none

-- The session that a command opens, when it is neither a script nor another command.
def Command.session? (r : Registry Float) : Command → Option Session
  | .script none none _ o => some (Session.start o r)
  | _ => none

-- Carries out a command that opens no session. `content` is the content of its script file, if that
-- can be read.
def Command.run (content : Option String) (r : Registry Float) : Command → Reply
  | .lookup symbol => CommandLine.lookup r symbol
  | .convert value source target => CommandLine.convert r value source target
  | .units none => listUnits r none
  | .units (some name) =>
      match Standard.ofName? name with
      | some standard => listUnits r (some standard)
      | none => .misused
  | .script _ eval tokens o =>
      match eval.or content with
      | none => .failed []
      | some source =>
          let reply := runScript o r source
          if tokens then { reply with output := listTokens o source ++ reply.output } else reply

-- The registry for a command, unless its file of definitions cannot be read or applied. `content`
-- is the content of that file.
def Invocation.registry? (content : Option String) (i : Invocation) : Option (Registry Float) :=
  match i.overrides with
  | none => some .default
  | some _ =>
      match content.map Registry.default.loadOverrides with
      | some (.ok (_, r)) => some r
      | _ => none

def Invocation.run (files : String → Option Source) (input : Input) (i : Invocation) : Reply :=
  let overrides := input.readFile files i.overrides
  match i.registry? overrides.1 with
  | none => .failed []
  | some r =>
      match i.command.session? r with
      | some s => .ofTranscript (s.run files overrides.2)
      | none => i.command.run (overrides.2.readFile files i.command.file?).1 r

-- The whole program: its arguments, what the names of files stand for, and its standard input.
def run (arguments : List String) (files : String → Option Source) (input : Input) : Reply :=
  match read arguments with
  | .error refusal => .ofRefusal refusal
  | .ok i => i.run files input

end UnitCalc.CommandLine
