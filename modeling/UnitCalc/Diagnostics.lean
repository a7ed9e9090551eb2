import UnitCalc.Token.Basic

namespace UnitCalc

inductive Severity where
  | error
  | warning
  | info
  deriving DecidableEq, Repr

namespace Severity

def display : Severity → String
  | error => "error"
  | warning => "warning"
  | info => "info"

end Severity

structure Diagnostic where
  severity : Severity
  message : String
  pos : Position
  span : Span
  deriving DecidableEq, Repr

namespace Diagnostic

def display (d : Diagnostic) : String :=
  d.severity.display ++ ": " ++ d.message ++ " (" ++ d.pos.display ++ ")"

-- A message about a token.
def atToken (severity : Severity) (message : String) (t : Token) : Diagnostic :=
  ⟨severity, message, t.pos, t.span⟩

-- The error that a faulty token stands for.
def ofFault? (t : Token) : Option Diagnostic :=
  t.kind.fault?.map fun f => atToken .error f.message t

end Diagnostic

structure Diagnostics where
  items : List Diagnostic
  deriving DecidableEq, Repr

namespace Diagnostics

def empty : Diagnostics := ⟨[]⟩

def report (ds : Diagnostics) (d : Diagnostic) : Diagnostics :=
  ⟨ds.items ++ [d]⟩

-- Adds one error for each faulty token.
def reportFaults (ds : Diagnostics) (ts : List Token) : Diagnostics :=
  ⟨ds.items ++ ts.filterMap Diagnostic.ofFault?⟩

def errors (ds : Diagnostics) : List Diagnostic :=
  ds.items.filter (·.severity == .error)

def hasErrors (ds : Diagnostics) : Bool :=
  !ds.errors.isEmpty

end Diagnostics

end UnitCalc
