import UnitCalc.Units.Overrides

namespace UnitCalc.Registry

inductive Operation where
  | loadDefaults (catalogs : List (Catalog Float))
  | define (u : UnitDef Float) (overwrite : Bool)
  | defineAlias (name symbol : String)
  | loadOverrides (text : String)
  | rollback

def perform (r : Registry Float) : Operation → Except UnitError (Registry Float)
  | .loadDefaults catalogs => .ok (r.loadDefaults catalogs)
  | .define u overwrite => r.define u overwrite
  | .defineAlias name symbol => r.defineAlias name symbol
  | .loadOverrides text => (r.loadOverrides text).map Prod.snd
  | .rollback => .ok r.rollback

-- An operation that fails changes nothing.
def after (r : Registry Float) (op : Operation) : Registry Float :=
  match r.perform op with
  | .ok r' => r'
  | .error _ => r

-- The registry after some operations in order.
def afterAll (r : Registry Float) (ops : List Operation) : Registry Float :=
  ops.foldl after r

-- The registries that the operations lead to from a new one.
def Reachable (r : Registry Float) : Prop :=
  ∃ ops, r = empty.afterAll ops

end UnitCalc.Registry
