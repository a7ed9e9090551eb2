import Mathlib.Data.List.Induction
import UnitCalc.Proofs.Units.Edit
import UnitCalc.Units.Default

namespace UnitCalc.Registry

-- The catalogs that an operation loads, if it loads any.
def Operation.catalogs? : Operation → Option (List (Catalog Float))
  | .loadDefaults catalogs => some catalogs
  | _ => none

-- The catalogs that some operations load last.
def lastCatalogs? (ops : List Operation) : Option (List (Catalog Float)) :=
  (ops.filterMap Operation.catalogs?).getLast?

-- A new registry after a load of catalogs at most.
def built : Option (List (Catalog Float)) → Registry Float
  | none => .empty
  | some catalogs => .ofCatalogs catalogs

-- What some operations, in place, make of a registry. One that fails may have done something
-- before.
def edited (r : Registry Float) (ops : List Operation) : Registry Float :=
  ops.foldl (fun r op => (op.edit.outcome r).2) r

variable {r r' : Registry Float} {op : Operation} {ops : List Operation}

theorem defaults_perform (h : r.perform op = .ok r') :
    r'.defaults = (op.catalogs?.map Layer.ofCatalogs).getD r.defaults := by
  cases op with
  | loadDefaults catalogs =>
      cases h
      rfl
  | define u overwrite => exact Edit.defaults_define h
  | defineAlias name symbol => exact Edit.defaults_defineAlias h
  | loadOverrides text =>
      obtain ⟨f, -, happlied⟩ := appliedTo_of_loadOverrides h
      refine f.appliedTo_keeps (P := fun next => next.defaults = r.defaults) ?_ ?_ happlied rfl
      · intro u overwrite next next' hdefine hnext
        exact (Edit.defaults_define hdefine).trans hnext
      · intro name symbol next next' halias hnext
        exact (Edit.defaults_defineAlias halias).trans hnext
  | rollback =>
      cases h
      rfl

theorem defaults_outcome (op : Operation) (r : Registry Float) :
    (op.edit.outcome r).2.defaults = (op.catalogs?.map Layer.ofCatalogs).getD r.defaults := by
  rw [snd_outcome_edit, after]
  cases h : r.perform op with
  | ok r' => exact defaults_perform h
  | error e =>
      -- Catalogs can always be loaded.
      cases op <;> first | rfl | cases h

theorem defaults_edited (r : Registry Float) (ops : List Operation) :
    (r.edited ops).defaults = ((lastCatalogs? ops).map Layer.ofCatalogs).getD r.defaults := by
  induction ops using List.reverseRecOn with
  | nil => rfl
  | append_singleton ops op ih =>
      have hstep : r.edited (ops ++ [op]) = (op.edit.outcome (r.edited ops)).2 := by
        rw [edited, List.foldl_append]
        rfl
      rw [hstep, defaults_outcome, ih, lastCatalogs?, lastCatalogs?, List.filterMap_append,
        List.getLast?_append]
      cases hop : op.catalogs? <;> simp [hop]

-- What single operations keep is kept by any number of them.
theorem edited_keeps {P : Registry Float → Prop} {allowed : Operation → Prop}
    (hkept : ∀ r r' op, allowed op → r.perform op = .ok r' → P r → P r')
    (hops : ∀ op ∈ ops, allowed op) (hr : P r) : P (r.edited ops) := by
  refine List.foldlRecOn ops _ hr fun r hr op hop => ?_
  rw [snd_outcome_edit, after]
  cases h : r.perform op with
  | ok r' => exact hkept r r' op (hops op hop) h hr
  | error e => exact hr

theorem ne_loadDefaults (hop : op.catalogs? = none) (catalogs : List (Catalog Float)) :
    op ≠ .loadDefaults catalogs := by
  rintro rfl
  cases hop

theorem rollback_edited (initial : Option (List (Catalog Float))) (ops : List Operation) :
    ((built initial).edited ops).rollback = built ((lastCatalogs? ops).or initial) := by
  have hdefaults := defaults_edited (built initial) ops
  rw [rollback, hdefaults]
  cases lastCatalogs? ops with
  | some catalogs => rfl
  | none => cases initial <;> rfl

-- Whatever is done to a new or default registry, a rollback makes it the registry that the last
-- load of catalogs, or else the start, gives by itself. So all names stand for what they stand for
-- there.
theorem rollback_erases_session (ops : List Operation) :
    (empty.edited ops).rollback = built (lastCatalogs? ops) ∧
    (default.edited ops).rollback = built ((lastCatalogs? ops).or (some Catalog.all)) ∧
    ∀ name, ((empty.edited ops).rollback).find? name = (built (lastCatalogs? ops)).find? name ∧
      (default.edited ops).rollback.find? name =
        (built ((lastCatalogs? ops).or (some Catalog.all))).find? name := by
  have hempty := rollback_edited none ops
  have hdefault := rollback_edited (some Catalog.all) ops
  rw [Option.or_none] at hempty
  exact ⟨hempty, hdefault, fun name =>
    ⟨congrArg (·.find? name) hempty, congrArg (·.find? name) hdefault⟩⟩

end UnitCalc.Registry
