import UnitCalc.Line.Parser
import UnitCalc.Prompt.Backspace
import UnitCalc.Prompt.Continuation
import UnitCalc.Prompt.Input
import UnitCalc.Terminal
import UnitCalc.Units.Overrides

namespace UnitCalc

def programName : String := "unitscript"

def programVersion : String := "0.1.0"

inductive Entry where
  | blank
  | exit
  | help
  | units (start : String)
  | lookup (name : String)
  | load (file : String)
  | rollback
  | unknown (command : String)
  | quantities (text : String)
  deriving DecidableEq, Repr

namespace Entry

-- A command with its argument.
def ofCommand (command argument : String) : Entry :=
  match command with
  | ".exit" => exit
  | ".help" => help
  | ".units" => units argument
  | ".lookup" => lookup argument
  | ".load" => load argument
  | ".rollback" => rollback
  | other => unknown other

-- What a text says. Blanks around it do not count, and a point starts a command.
def ofText (text : String) : Entry :=
  let cs := (Text.trim text).toList
  match cs with
  | [] => blank
  | '.' :: _ =>
      let command := cs.takeWhile fun c => !Text.isBlank c
      ofCommand (String.ofList command)
        (Text.trim (String.ofList (cs.drop command.length)))
  | _ => quantities (String.ofList cs)

-- The file that an entry reads.
def file? : Entry → Option String
  | load file => some file
  | _ => none

end Entry

structure Session where
  registry : Registry Float
  options : LexOptions
  -- The lines of an entry that is not finished.
  pending : String

-- What a session prints to standard output for an entry, and the session after it unless it is
-- over. An entry that fails prints nothing there.
structure Turn where
  output : List String
  next : Option Session

-- What a session prints from its start to its end, and whether it was aborted.
structure Transcript where
  output : List String
  aborted : Bool
  deriving DecidableEq, Repr

namespace Session

def start (o : LexOptions) (r : Registry Float) : Session :=
  ⟨r, o, ""⟩

def banner : List String := [
  (Painted.mk programName [.brightCyan, .bold]).render ++ " " ++
    Style.brightBlack.paint programVersion,
  Style.brightBlack.paint "Type .help for REPL commands"]

def farewell : String := Style.brightBlack.paint "bye"

def helpText : List String :=
  [".help                show commands",
    ".units [prefix]      list unit symbols",
    ".lookup <symbol>     show a unit definition",
    ".load <file.json>    apply unit overrides",
    ".rollback            drop all overrides",
    ".exit                exit REPL"].map Style.brightBlue.paint ++
  [Style.brightBlack.paint "  e.g. 12 kN/m^2 as psi"]

-- The symbols with a given start, and how many they are.
def listUnits (r : Registry Float) (start : String) : List String :=
  let found := r.symbols.filter fun n => Text.startsWith n start
  [" ".intercalate found, Style.brightBlack.paint (toString found.length ++ " symbols")]

-- The results of an entry, unless one of its lines fails.
def results (s : Session) (text : String) : List String :=
  match evaluateLines s.options s.registry text with
  | .ok es => es.map fun e => Style.brightWhite.paint e.display
  | .error _ => []

-- Carries out an entry. `content` is the content of the file that it reads, if that can be read.
def enter (content : Option String) (s : Session) (e : Entry) : Turn :=
  match e with
  | .blank => ⟨[], some s⟩
  | .exit => ⟨[], none⟩
  | .help => ⟨helpText, some s⟩
  | .units start => ⟨listUnits s.registry start, some s⟩
  | .lookup name => ⟨((s.registry.find? name).map UnitDef.display).toList, some s⟩
  | .load _ =>
      match content with
      | none => ⟨[], some s⟩
      | some text =>
          let (answer, r) := (Edit.load text).outcome s.registry
          let output := match answer with
            | .ok n => [Style.green.paint (toString n ++ " overrides applied")]
            | .error _ => []
          ⟨output, some { s with registry := r }⟩
  | .rollback =>
      ⟨[Style.green.paint "overrides cleared"], some { s with registry := s.registry.rollback }⟩
  | .unknown _ => ⟨[], some s⟩
  | .quantities text => ⟨s.results text, some s⟩

-- The entry that a line finishes, if it does, and the session to carry it out in. Lines are joined
-- with what ended them, and their backspaces may reach into the lines before. There is no answer
-- when a backspace cannot be carried out.
def gather (s : Session) (line : InputLine) : Option (Option Entry × Session) :=
  (Prompt.applyBackspaces (s.pending ++ line.text)).map fun text =>
    if Prompt.needsMore s.options text then
      (none, { s with pending := text ++ line.ending })
    else
      (some (.ofText text), { s with pending := "" })

-- What a session prints for its input and at the end of it. An entry that is not finished is
-- dropped, and there is no farewell where the input breaks off.
def run (files : String → Option Source) (s : Session) (input : Input) : Transcript :=
  match h : input.line? with
  | none => ⟨if input.broken then [] else [farewell], false⟩
  | some (line, rest) =>
      have := Input.length_lt_of_line? h
      match s.gather line with
      | none => ⟨[], true⟩
      | some (none, s) => run files s rest
      | some (some e, s) =>
          let read := rest.readFile files e.file?
          have := rest.length_readFile_le files e.file?
          let turn := s.enter read.1 e
          match turn.next with
          | none => ⟨turn.output, false⟩
          | some s =>
              let transcript := run files s read.2
              { transcript with output := turn.output ++ transcript.output }
termination_by input.text.length

end Session

end UnitCalc
