import Mathlib.Data.List.Destutter
import Mathlib.Data.List.Sort
import Mathlib.Data.String.Basic
import UnitCalc.Proofs.Units.Aliases

namespace UnitCalc

-- A walk over a table meets each of its entries once, in whatever order.
structure Walk {β : Type} (t : Table β) where
  entries : List (String × β)
  perm : entries.Perm t.toList

namespace Walk

variable {β : Type} {t : Table β} {name : String}

def names (w : Walk t) : List String :=
  w.entries.map Prod.fst

theorem names_perm (w : Walk t) : w.names.Perm t.keys := by
  rw [← Std.ExtTreeMap.map_fst_toList_eq_keys]
  exact w.perm.map Prod.fst

theorem mem_names (w : Walk t) : name ∈ w.names ↔ name ∈ t := by
  rw [w.names_perm.mem_iff, Std.ExtTreeMap.mem_keys]

-- The walk that meets the entries in the order of their names, and the opposite one.
def forwards (t : Table β) : Walk t :=
  ⟨t.toList, .refl _⟩

def backwards (t : Table β) : Walk t :=
  ⟨t.toList.reverse, List.reverse_perm _⟩

theorem names_backwards (t : Table β) : (backwards t).names = t.keys.reverse := by
  rw [names, backwards, List.map_reverse, Std.ExtTreeMap.map_fst_toList_eq_keys]

end Walk

section

variable {names names' : List String}

theorem pairwise_sortNames : (sortNames names).Pairwise (· < ·) :=
  pairwise_sortNames_lt.imp compare_lt_iff_lt.mp

-- Names in strict order are determined by which names they are.
theorem eq_sortNames (hlt : names.Pairwise (· < ·)) (h : ∀ name, name ∈ names ↔ name ∈ names') :
    names = sortNames names' :=
  hlt.sortedLT.eq_of_mem_iff pairwise_sortNames.sortedLT fun name => by rw [h, mem_sortNames]

theorem sortNames_congr (h : ∀ name, name ∈ names ↔ name ∈ names') :
    sortNames names = sortNames names' :=
  eq_sortNames pairwise_sortNames fun name => by rw [mem_sortNames, h]

end

-- Sorts names, and then leaves out each that is the same as the one before.
def sortUnique (names : List String) : List String :=
  (names.mergeSort fun a b => a ≤ b).destutter (· ≠ ·)

theorem sortUnique_eq (names : List String) : sortUnique names = sortNames names := by
  have hsorted : (names.mergeSort fun a b => a ≤ b).Pairwise (· ≤ ·) :=
    List.sortedLE_mergeSort.pairwise
  have hperm := List.mergeSort_perm names fun a b => a ≤ b
  have hunique := (hsorted.sublist (List.dedup_sublist _)).and (List.nodup_dedup _)
  rw [sortUnique, hsorted.destutter_eq_dedup]
  refine eq_sortNames (hunique.imp fun h => lt_of_le_of_ne h.1 h.2) fun name => ?_
  rw [List.mem_dedup, hperm.mem_iff]

namespace Layer

variable {α : Type}

-- Micro signs are all replaced by the same letter, so that two symbols do not want the same name.
theorem addMicroAlias_comm (l : Layer α) (m m' : String) :
    (l.addMicroAlias m).addMicroAlias m' = (l.addMicroAlias m').addMicroAlias m := by
  have hunits : ((l.addMicroAlias m).addMicroAlias m').units =
      ((l.addMicroAlias m').addMicroAlias m).units := by
    simp only [units_addMicroAlias]
  have haliases : ((l.addMicroAlias m).addMicroAlias m').aliases =
      ((l.addMicroAlias m').addMicroAlias m).aliases := by
    refine Std.ExtTreeMap.ext_getElem? fun name => ?_
    simp only [getElem?_aliases_addMicroAlias, Option.or_assoc]
    by_cases hm : asciiMicro? m = some name <;> by_cases hm' : asciiMicro? m' = some name
    · rw [eq_of_asciiMicro? hm hm']
    all_goals simp [hm, hm']
  exact congrArg₂ Layer.mk hunits haliases

-- The defaults made of some catalogs, where a walk over the units finds the symbols in the micro
-- sign.
def ofCatalogsBy [Mul α] (catalogs : List (Catalog α))
    (w : Walk (catalogs.foldl addCatalog empty).units) : Layer α :=
  w.names.foldl addMicroAlias (catalogs.foldl addCatalog empty)

theorem ofCatalogsBy_eq [Mul α] {catalogs : List (Catalog α)}
    (w : Walk (catalogs.foldl addCatalog empty).units) :
    ofCatalogsBy catalogs w = ofCatalogs catalogs :=
  w.names_perm.foldl_eq' (fun m _ m' _ l => addMicroAlias_comm l m m') _

end Layer

namespace Registry

section

variable {α : Type} {r : Registry α}

-- A walk over each table of a registry.
structure Walks (r : Registry α) where
  defaultUnits : Walk r.defaults.units
  defaultAliases : Walk r.defaults.aliases
  sessionUnits : Walk r.session.units
  sessionAliases : Walk r.session.aliases

namespace Walks

def forwards (r : Registry α) : Walks r :=
  ⟨.forwards _, .forwards _, .forwards _, .forwards _⟩

def backwards (r : Registry α) : Walks r :=
  ⟨.backwards _, .backwards _, .backwards _, .backwards _⟩

-- The symbols, listed from walks over the units of both layers.
def symbols (w : Walks r) : List String :=
  sortUnique (w.defaultUnits.names ++ w.sessionUnits.names)

-- How many symbols there are, where a walk over the units of the session counts the new ones.
def size (w : Walks r) : Nat :=
  r.defaults.units.size +
    (w.sessionUnits.names.filter fun symbol => !r.defaults.units.contains symbol).length

-- The aliases as walks meet them, those of the session first.
def aliases (w : Walks r) : List (String × String) :=
  w.sessionAliases.entries ++
    w.defaultAliases.entries.filter fun a => a.1 ∉ r.session.aliases

theorem symbols_eq (w : Walks r) : w.symbols = r.symbols := by
  rw [symbols, sortUnique_eq, Registry.symbols]
  refine sortNames_congr fun name => ?_
  simp only [List.mem_append, Walk.mem_names, Std.ExtTreeMap.mem_keys]

theorem size_eq (w : Walks r) : w.size = r.size :=
  congrArg (r.defaults.units.size + ·) (w.sessionUnits.names_perm.filter _).length_eq

theorem aliases_perm (w : Walks r) : w.aliases.Perm r.aliases.toList :=
  (w.sessionAliases.perm.append (w.defaultAliases.perm.filter _)).trans toList_aliases_perm.symm

end Walks

end

-- What some operations make of a registry, one after the other, where each load of catalogs walks
-- the units in an order of its own.
inductive Run : Registry Float → List Operation → Registry Float → Prop where
  | done (r : Registry Float) : Run r [] r
  | load {r r' : Registry Float} {catalogs : List (Catalog Float)} {ops : List Operation}
      (w : Walk (catalogs.foldl Layer.addCatalog .empty).units)
      (h : Run { r with defaults := .ofCatalogsBy catalogs w } ops r') :
      Run r (.loadDefaults catalogs :: ops) r'
  | edit {r r' : Registry Float} {op : Operation} {ops : List Operation}
      (hop : op.catalogs? = none) (h : Run (op.edit.outcome r).2 ops r') : Run r (op :: ops) r'

-- Whatever the orders, there is one registry that the operations lead to.
theorem run_iff {r r' : Registry Float} {ops : List Operation} :
    Run r ops r' ↔ r' = r.edited ops := by
  constructor
  · intro h
    induction h with
    | done r => rfl
    | load w h ih =>
        rw [Layer.ofCatalogsBy_eq] at ih
        exact ih
    | edit hop h ih => exact ih
  · rintro rfl
    induction ops generalizing r with
    | nil => exact .done r
    | cons op ops ih =>
        cases op with
        | loadDefaults catalogs =>
            refine .load (.forwards _) ?_
            rw [Layer.ofCatalogsBy_eq]
            exact ih
        | _ => exact .edit rfl ih

end Registry

end UnitCalc
