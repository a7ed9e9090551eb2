import UnitCalc.Json.Number

namespace UnitCalc

inductive JsonValue where
  | null
  | bool (b : Bool)
  | number (n : JsonNumber)
  | string (s : String)
  | array (items : List JsonValue)
  -- The entries in order, repeated keys included.
  | object (entries : List (String × JsonValue))
  deriving Repr

namespace JsonValue

def bool? : JsonValue → Option Bool
  | bool b => some b
  | _ => none

def string? : JsonValue → Option String
  | string s => some s
  | _ => none

def integer? : JsonValue → Option Int
  | number n => n.toInt?
  | _ => none

def float? : JsonValue → Option Float
  | number n => n.toFloat?
  | _ => none

-- A value that may be null.
def nullable? {α : Type} (read : JsonValue → Option α) : JsonValue → Option (Option α)
  | null => some none
  | v => (read v).map some

def list? {α : Type} (read : JsonValue → Option α) : JsonValue → Option (List α)
  | array items => items.mapM read
  | _ => none

-- The name of a case: the name itself, or an object with null under the name.
def case? : JsonValue → Option String
  | string s => some s
  | object [(name, null)] => some name
  | _ => none

-- The values of the named fields of a record. A record is an object without other or repeated keys,
-- or an array of the first fields in order.
def fields? (names : List String) : JsonValue → Option (List (Option JsonValue))
  | object entries =>
      let keys := entries.map Prod.fst
      if keys.all names.contains && keys.Nodup then
        some (names.map fun n => entries.lookup n)
      else
        none
  | array items =>
      if items.length ≤ names.length then
        some (items.map some ++ List.replicate (names.length - items.length) none)
      else
        none
  | _ => none

-- A field that has a value when it is missing.
def orElse {α : Type} (missing : α) (read : JsonValue → Option α) : Option JsonValue → Option α
  | none => some missing
  | some v => read v

end JsonValue

end UnitCalc
