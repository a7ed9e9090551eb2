import Std.Data.ExtTreeMap
import Std.Data.ExtTreeSet
import UnitCalc.Text.Quoted
import UnitCalc.Units.Definition

namespace UnitCalc

-- Values by name. A table is determined by its entries, and lists them in the order of the names,
-- which is that of their code points.
abbrev Table (α : Type) := Std.ExtTreeMap String α

-- Names without repetition, in order.
def sortNames (names : List String) : List String :=
  (Std.ExtTreeSet.ofList names).toList

theorem mem_sortNames {names : List String} {name : String} :
    name ∈ sortNames names ↔ name ∈ names := by
  simp [sortNames, Std.ExtTreeSet.mem_ofList]

-- One layer: units by symbol, and symbols by alias.
structure Layer (α : Type) where
  units : Table (UnitDef α)
  aliases : Table String

namespace Layer

variable {α : Type}

def empty : Layer α := ⟨∅, ∅⟩

-- The symbol that a name stands for in this layer, which need not have a unit.
def canonical (l : Layer α) (name : String) : String :=
  l.aliases[name]?.getD name

def addAlias (l : Layer α) (name symbol : String) : Layer α :=
  { l with aliases := l.aliases.insert name symbol }

-- Adds a unit under its symbol and its aliases, in the place of what they stood for.
def add (l : Layer α) (u : UnitDef α) : Layer α :=
  let named := u.aliases.foldl (fun l name => l.addAlias name u.symbol) l
  { named with units := named.units.insert u.symbol u }

private theorem foldl_addAlias (symbol : String) (names : List String) (l : Layer α) :
    names.foldl (fun l name => l.addAlias name symbol) l =
      { l with aliases := names.foldl (fun t name => t.insert name symbol) l.aliases } := by
  induction names generalizing l with
  | nil => rfl
  | cons name names ih => rw [List.foldl_cons, ih]; rfl

theorem units_add (l : Layer α) (u : UnitDef α) : (l.add u).units = l.units.insert u.symbol u := by
  simp [add, foldl_addAlias]

theorem aliases_add (l : Layer α) (u : UnitDef α) :
    (l.add u).aliases = u.aliases.foldl (fun t name => t.insert name u.symbol) l.aliases := by
  simp [add, foldl_addAlias]

-- Adds a unit unless its symbol is already a symbol or an alias.
def addNew (l : Layer α) (u : UnitDef α) : Layer α :=
  if l.units.contains u.symbol || l.aliases.contains u.symbol then l else l.add u

-- Adds the decimal multiples of the units that take them.
def addMultiples [Mul α] (l : Layer α) (units : List (UnitDef α)) (multiples : List (Multiple α)) :
    Layer α :=
  let bases := units.filter fun u => u.takesMultiples && !u.isAffine
  let factors := multiples.filter fun p => !p.isIdentity
  bases.foldl (fun l u => factors.foldl (fun l p => l.addNew (u.scaled p)) l) l

-- Adds a catalog. Its units replace those of the same symbol; only SI has multiples.
def addCatalog [Mul α] (l : Layer α) (c : Catalog α) : Layer α :=
  let declared := c.units.foldl add l
  if c.standard = .si then declared.addMultiples c.units c.multiples else declared

-- The name in ASCII of a symbol that starts with the micro sign and goes on.
def asciiMicro? (symbol : String) : Option String :=
  match symbol.toList with
  | 'µ' :: c :: cs => some (String.ofList ('u' :: c :: cs))
  | _ => none

-- Adds an alias for a symbol in the micro sign, unless the alias is taken.
def addMicroAlias (l : Layer α) (symbol : String) : Layer α :=
  match asciiMicro? symbol with
  | some name => { l with aliases := l.aliases.insertIfNew name symbol }
  | none => l

-- The layer that some catalogs, in order, make up.
def ofCatalogs [Mul α] (catalogs : List (Catalog α)) : Layer α :=
  let declared := catalogs.foldl addCatalog empty
  declared.units.keys.foldl addMicroAlias declared

def isEmpty (l : Layer α) : Bool :=
  l.units.isEmpty && l.aliases.isEmpty

end Layer

-- A layer of defaults, built from catalogs, and a layer of the session's own definitions, which is
-- looked at first.
structure Registry (α : Type) where
  defaults : Layer α
  session : Layer α

namespace Registry

variable {α : Type}

def empty : Registry α := ⟨.empty, .empty⟩

-- Builds the defaults anew. The session keeps its own definitions.
def loadDefaults [Mul α] (r : Registry α) (catalogs : List (Catalog α)) : Registry α :=
  { r with defaults := .ofCatalogs catalogs }

def ofCatalogs [Mul α] (catalogs : List (Catalog α)) : Registry α :=
  empty.loadDefaults catalogs

-- The unit that a name stands for. An alias of the session may lead to a default unit.
def find? (r : Registry α) (name : String) : Option (UnitDef α) :=
  let symbol := r.session.canonical name
  match r.session.units[symbol]? with
  | some u => some u
  | none => r.defaults.units[r.defaults.canonical symbol]?

def find (r : Registry α) (name : String) : Except UnitError (UnitDef α) :=
  match r.find? name with
  | some u => .ok u
  | none => .error (.unknownSymbol name)

def contains (r : Registry α) (name : String) : Bool :=
  (r.find? name).isSome

-- Defines a unit for this session. A unit that the session has already defined is replaced only
-- when asked for.
def define (r : Registry α) (u : UnitDef α) (overwrite : Bool) : Except UnitError (Registry α) :=
  if !overwrite && r.session.units.contains u.symbol then
    .error (.overrideExists u.symbol)
  else
    .ok { r with session := r.session.add u }

-- Gives a unit of either layer another name for this session. The unit is named by its symbol.
def defineAlias (r : Registry α) (name symbol : String) : Except UnitError (Registry α) :=
  if r.session.units.contains symbol || r.defaults.units.contains symbol then
    .ok { r with session := r.session.addAlias name symbol }
  else
    .error (.unknownSymbol symbol)

-- Drops all that the session defined.
def rollback (r : Registry α) : Registry α :=
  { r with session := .empty }

def hasOverrides (r : Registry α) : Bool :=
  !r.session.isEmpty

-- The symbols of both layers, in order.
def symbols (r : Registry α) : List String :=
  sortNames (r.defaults.units.keys ++ r.session.units.keys)

-- How many symbols there are.
def size (r : Registry α) : Nat :=
  r.defaults.units.size +
    (r.session.units.keys.filter fun symbol => !r.defaults.units.contains symbol).length

def isEmpty (r : Registry α) : Bool :=
  r.defaults.units.isEmpty && r.session.units.isEmpty

-- The symbols that aliases stand for; those of the session come before the defaults.
def aliases (r : Registry α) : Table String :=
  r.session.aliases.foldl (fun t name symbol => t.insert name symbol) r.defaults.aliases

end Registry

end UnitCalc
