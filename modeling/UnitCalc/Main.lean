import UnitCalc.CommandLine.Run

namespace UnitCalc.CommandLine

-- The content of a file, unless there is none or it cannot be read.
def contentOf (name : Option String) : IO (Option String) := do
  try
    name.mapM fun file => IO.FS.readFile file
  catch _ =>
    return none

def printAll (output : List String) : IO Unit :=
  output.forM fun line => IO.println line

-- The next line of standard input with its ending, empty at the end, unless it cannot be read.
def nextLine : IO (Option String) := do
  try
    return some (← (← IO.getStdin).getLine)
  catch _ =>
    return none

-- Takes lines of standard input until the session is over. The result is the exit code.
partial def converse (s : Session) : IO UInt32 := do
  match (← nextLine).map String.toList with
  | none => return 0
  | some [] =>
      IO.println Session.farewell
      return 0
  | some line =>
      match s.gather (.ofChars line) with
      | none => return Reply.abortCode.toUInt32
      | some (none, s) => converse s
      | some (some e, s) =>
          let turn := s.enter (← contentOf e.file?) e
          printAll turn.output
          match turn.next with
          | some s => converse s
          | none => return 0

-- Prints a reply. The result is the exit code.
def conclude (r : Reply) : IO UInt32 := do
  printAll r.output
  return r.code.toUInt32

end UnitCalc.CommandLine

open UnitCalc in
def main (arguments : List String) : IO UInt32 := do
  match CommandLine.read arguments with
  | .error refusal => CommandLine.conclude (.ofRefusal refusal)
  | .ok i =>
      match i.registry? (← CommandLine.contentOf i.overrides) with
      | none => CommandLine.conclude (.failed [])
      | some r =>
          match i.command.session? r with
          | some s =>
              CommandLine.printAll Session.banner
              CommandLine.converse s
          | none =>
              CommandLine.conclude (i.command.run (← CommandLine.contentOf i.command.file?) r)
