import UnitCalc.Json.Reader
import UnitCalc.Text.Blank
import UnitCalc.Units.Registry

namespace UnitCalc

-- A definition as a file gives it, before it is checked.
structure UnitEntry where
  symbol : String
  name : Option String
  quantity : String
  standard : Standard
  behavior : Behavior
  dimension : Exponents
  scale : Float
  offset : Float
  aliases : List String
  deriving DecidableEq

-- A file of session definitions, which is JSON:
--
--   {
--     "units": [
--       { "symbol": "kip", "name": "kip", "quantity": "force", "standard": "US",
--         "dimension": { "length": 1, "mass": 1, "time": -2 },
--         "scale": 4448.2216152605, "aliases": ["kips"] }
--     ],
--     "aliases": { "klbf": "kip" }
--   }
structure OverrideFile where
  units : List UnitEntry
  aliases : Table String

open JsonValue in
def Exponents.ofJson? (v : JsonValue) : Option Exponents := do
  let fields ← v.fields?
    ["length", "mass", "time", "current", "temperature", "substance", "luminosity"]
  match ← fields.mapM (orElse 0 integer?) with
  | [length, mass, time, current, temperature, substance, luminosity] =>
      some ⟨length, mass, time, current, temperature, substance, luminosity⟩
  | _ => none

def Standard.ofJson? (v : JsonValue) : Option Standard := do
  match ← v.case? with
  | "SI" => some .si
  | "US" => some .us
  | "Imperial" => some .imperial
  | _ => none

def Behavior.ofJson? (v : JsonValue) : Option Behavior := do
  match ← v.case? with
  | "multiplicative" => some .multiplicative
  | "affine" => some .affine
  | _ => none

namespace UnitEntry

open JsonValue in
-- The symbol and the scale must be given.
def ofJson? (v : JsonValue) : Option UnitEntry := do
  let fields ← v.fields? ["symbol", "name", "quantity", "standard", "behavior", "dimension",
    "scale", "offset", "aliases"]
  match fields with
  | [symbol, name, quantity, standard, behavior, dimension, scale, offset, aliases] =>
      return {
        symbol := ← string? (← symbol)
        name := ← orElse none (nullable? string?) name
        quantity := ← orElse "" string? quantity
        standard := ← orElse .si Standard.ofJson? standard
        behavior := ← orElse .multiplicative Behavior.ofJson? behavior
        dimension := ← orElse .zero Exponents.ofJson? dimension
        scale := ← float? (← scale)
        offset := ← orElse 0.0 float? offset
        aliases := ← orElse [] (list? string?) aliases }
  | _ => none

-- What is wrong with an entry, apart from its dimension.
def fault? (e : UnitEntry) : Option DefinitionFault :=
  if e.symbol.toList.all Text.isBlank then some .blankSymbol
  else if !e.scale.isFinite || e.scale == 0.0 then some .badScale
  else if !e.offset.isFinite then some .badOffset
  else if e.offset != 0.0 && e.behavior = .multiplicative then some .offsetWithoutAffine
  else none

-- The unit that an entry defines. A unit without a name is named by its symbol.
def define (e : UnitEntry) : Except UnitError (UnitDef Float) :=
  match e.fault? with
  | some fault => .error (.invalidDefinition e.symbol fault)
  | none => do
      let dim ← UnitError.ofExponent (Dimension.ofExponents e.dimension)
      let name := e.name.getD e.symbol
      let u : UnitDef Float := match e.behavior with
        | .multiplicative => .multiplicative e.standard e.quantity name e.symbol dim e.scale
        | .affine => .affine e.standard e.quantity name e.symbol dim e.scale e.offset
      return u.withAliases e.aliases

end UnitEntry

namespace OverrideFile

-- Aliases by name; of two entries with one name the last counts.
def aliasesOfJson? : JsonValue → Option (Table String)
  | .object entries => entries.foldlM (fun t (name, v) => v.string?.map (t.insert name)) ∅
  | _ => none

open JsonValue in
def ofJson? (v : JsonValue) : Option OverrideFile := do
  match ← v.fields? ["units", "aliases"] with
  | [units, aliases] =>
      return {
        units := ← orElse [] (list? UnitEntry.ofJson?) units
        aliases := ← orElse ∅ aliasesOfJson? aliases }
  | _ => none

def read? (text : String) : Option OverrideFile :=
  JsonValue.read? text >>= ofJson?

end OverrideFile

-- A change to a registry in place. Where it fails, what it had done until then stays done.
abbrev Edit (β : Type) := ExceptT UnitError (StateM (Registry Float)) β

namespace Edit

variable {β : Type}

-- The answer of an edit, and the registry that it leaves.
def outcome (edit : Edit β) (r : Registry Float) : Except UnitError β × Registry Float :=
  edit.run r

-- Puts what becomes of the registry in its place, unless that fails.
def change (f : Registry Float → Except UnitError (Registry Float)) : Edit Unit := do
  set (← f (← get))

def define (u : UnitDef Float) (overwrite : Bool) : Edit Unit :=
  change fun r => r.define u overwrite

def defineAlias (name symbol : String) : Edit Unit :=
  change fun r => r.defineAlias name symbol

-- Makes an edit for each of some entries in order, and adds their number to `n`.
def each (edit : β → Edit Unit) (n : Nat) : List β → Edit Nat
  | [] => return n
  | b :: bs => do
      edit b
      each edit (n + 1) bs

-- Defines the units of a file in order, then its aliases in the order of their names, and counts
-- them.
def file (f : OverrideFile) : Edit Nat := do
  let n ← each (fun e => do define (← e.define) true) 0 f.units
  each (fun (name, symbol) => defineAlias name symbol) n f.aliases.toList

-- Applies the text of a file and gives the number of its entries. When one of them fails, the
-- session gets back what it held before.
def load (text : String) : Edit Nat := do
  match OverrideFile.read? text with
  | none => throw .malformedOverrides
  | some f =>
      let saved := (← get).session
      tryCatch (file f) fun e => do
        modify fun r => { r with session := saved }
        throw e

end Edit

namespace Registry

-- Applies the text of a file, with the number of its entries.
def loadOverrides (r : Registry Float) (text : String) : Except UnitError (Nat × Registry Float) :=
  match (Edit.load text).outcome r with
  | (.ok n, r) => .ok (n, r)
  | (.error e, _) => .error e

end Registry

end UnitCalc
