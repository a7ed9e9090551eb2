import UnitCalc.Line.Parser
import UnitCalc.Proofs.Units.Declared
import UnitCalc.Proofs.Units.Edit
import UnitCalc.Proofs.Units.Reduction

namespace UnitCalc

-- The names that an entry of a file gives to its unit.
def UnitEntry.names (e : UnitEntry) : List String :=
  e.symbol :: e.aliases

-- The names that a file gives a meaning to.
def OverrideFile.names (f : OverrideFile) : List String :=
  f.units.flatMap UnitEntry.names ++ f.aliases.keys

-- The names of the units in a quantity.
def Quantity.names (q : Quantity) : List String :=
  q.unit.elim [] UnitExpr.leaves ++ q.target.elim [] UnitExpr.leaves

section

variable {e : UnitEntry} {u : UnitDef Float}

theorem UnitEntry.names_of_define (h : e.define = .ok u) : u.names = e.names := by
  unfold define at h
  split at h
  · cases h
  · obtain ⟨dim, -, hunit⟩ := exists_of_bind_eq_ok h
    cases hunit
    cases e.behavior <;> rfl

end

namespace Registry

-- A name that a registry leaves to some defaults, as its session says nothing of it.
structure LeavesTo (r : Registry Float) (defaults : Layer Float) (name : String) : Prop where
  defaults_eq : r.defaults = defaults
  no_alias : r.session.aliases[name]? = none
  no_unit : r.session.units[name]? = none

namespace LeavesTo

variable {r r' : Registry Float} {defaults : Layer Float} {name : String}

theorem find?_eq (h : r.LeavesTo defaults name) :
    r.find? name = defaults.units[defaults.canonical name]? := by
  simp [find?, Layer.canonical, h.no_alias, h.no_unit, h.defaults_eq]

theorem of_hasOverrides (h : r.hasOverrides = false) : r.LeavesTo r.defaults name := by
  have hsession := session_of_hasOverrides h
  exact ⟨rfl, by simp [hsession, Layer.empty], by simp [hsession, Layer.empty]⟩

theorem define {u : UnitDef Float} {overwrite : Bool} (hdefine : r.define u overwrite = .ok r')
    (hname : name ∉ u.names) (h : r.LeavesTo defaults name) : r'.LeavesTo defaults name := by
  obtain ⟨hsymbol, halias⟩ := not_or.mp (mt List.mem_cons.mpr hname)
  obtain rfl := eq_of_define hdefine
  constructor
  · exact h.defaults_eq
  · rw [Layer.getElem?_aliases_add, if_neg halias, h.no_alias]
  · rw [Layer.getElem?_units_add, if_neg (Ne.symm hsymbol), h.no_unit]

theorem defineAlias {added symbol : String} (halias : r.defineAlias added symbol = .ok r')
    (hname : name ≠ added) (h : r.LeavesTo defaults name) : r'.LeavesTo defaults name := by
  unfold Registry.defineAlias at halias
  split at halias
  · cases halias
    refine ⟨h.defaults_eq, ?_, h.no_unit⟩
    simp [Layer.addAlias, Std.ExtTreeMap.getElem?_insert, Ne.symm hname, h.no_alias]
  · cases halias

-- A file takes over its own names only.
theorem appliedTo {f : OverrideFile} (happlied : f.appliedTo r = .ok r') (hname : name ∉ f.names)
    (h : r.LeavesTo defaults name) : r'.LeavesTo defaults name := by
  obtain ⟨hunits, haliases⟩ := not_or.mp (mt List.mem_append.mpr hname)
  refine f.appliedTo_keeps_of_mem (P := (·.LeavesTo defaults name)) ?_ ?_ happlied h
  · intro e he u hu next next' hdefine
    refine define hdefine fun hmem => hunits (List.mem_flatMap.mpr ⟨e, he, ?_⟩)
    rwa [← UnitEntry.names_of_define hu]
  · intro added hadded symbol next next' halias
    refine defineAlias halias ?_
    rintro rfl
    exact haliases (Std.ExtTreeMap.mem_keys.mpr hadded)

end LeavesTo

end Registry

variable {r r' : Registry Float}

theorem UnitExpr.reduce_congr {e : UnitExpr} (h : ∀ name ∈ e.leaves, r.find? name = r'.find? name) :
    e.reduce r = e.reduce r' := by
  induction e with
  | name symbol span =>
      have hfind : r.find? symbol = r'.find? symbol := h symbol (List.mem_singleton_self symbol)
      simp only [reduce, Registry.find, hfind]
  | mul left right ihleft ihright =>
      obtain ⟨hleft, hright⟩ := List.forall_mem_append.mp h
      simp only [reduce, ihleft hleft, ihright hright]
  | div left right ihleft ihright =>
      obtain ⟨hleft, hright⟩ := List.forall_mem_append.mp h
      simp only [reduce, ihleft hleft, ihright hright]
  | pow base exponent ih => simp only [reduce, ih h]
  | group inner ih => exact ih h

theorem Quantity.evaluate_congr {q : Quantity}
    (h : ∀ name ∈ q.names, r.find? name = r'.find? name) : q.evaluate r = q.evaluate r' := by
  obtain ⟨value, unit, target⟩ := q
  obtain ⟨hunit, htarget⟩ := List.forall_mem_append.mp h
  have hsource (e : UnitExpr) (he : unit = some e) : e.reduce r = e.reduce r' := by
    subst he
    exact UnitExpr.reduce_congr hunit
  have hgoal (e : UnitExpr) (he : target = some e) : e.reduce r = e.reduce r' := by
    subst he
    exact UnitExpr.reduce_congr htarget
  cases unit <;> cases target <;> simp [evaluate, hsource, hgoal]

theorem Quantity.mapM_evaluate_congr {qs : List Quantity}
    (h : ∀ q ∈ qs, ∀ name ∈ q.names, r.find? name = r'.find? name) :
    qs.mapM (evaluate r) = qs.mapM (evaluate r') := by
  induction qs with
  | nil => rfl
  | cons q qs ih =>
      obtain ⟨hq, hqs⟩ := List.forall_mem_cons.mp h
      rw [List.mapM_cons, List.mapM_cons, evaluate_congr hq, ih hqs]

-- Registries that agree on the names in a text give it the same values, or the same error: a line
-- can notice nothing else of a registry.
theorem evaluateLines_congr {o : LexOptions} {source : String}
    (h : ∀ qs, parseLines o source = .ok qs →
      ∀ q ∈ qs, ∀ name ∈ q.names, r.find? name = r'.find? name) :
    evaluateLines o r source = evaluateLines o r' source := by
  rw [evaluateLines, evaluateLines]
  cases hparse : parseLines o source with
  | error e => rfl
  | ok qs =>
      exact congrArg (Except.mapError EvalError.unit) (Quantity.mapM_evaluate_congr (h qs hparse))

-- A file that can be applied to a registry without a session leaves alone all texts without the
-- names of the file.
theorem evaluateLines_load {text : String} {n : Nat} (hr : r.hasOverrides = false)
    (hload : (Edit.load text).outcome r = (.ok n, r')) :
    ∃ f, OverrideFile.read? text = some f ∧ ∀ (o : LexOptions) (source : String),
      (∀ qs, parseLines o source = .ok qs → ∀ q ∈ qs, ∀ name ∈ q.names, name ∉ f.names) →
      evaluateLines o r' source = evaluateLines o r source := by
  cases hread : OverrideFile.read? text with
  | none =>
      rw [Edit.outcome_load_malformed hread] at hload
      cases hload
  | some f =>
      rw [Edit.outcome_load_file hread, Edit.answer_eq_ok_iff] at hload
      obtain ⟨-, happlied⟩ := hload
      refine ⟨f, rfl, fun o source hnames => evaluateLines_congr ?_⟩
      intro qs hparse q hq name hname
      have hbefore : r.LeavesTo r.defaults name := .of_hasOverrides hr
      have hafter := hbefore.appliedTo happlied (hnames qs hparse q hq name hname)
      rw [hafter.find?_eq, hbefore.find?_eq]

-- Metres and feet, by their names and their symbols.
def lengths : Registry Float :=
  ⟨(Layer.empty.add (Registry.metres "m" 1 ["metre"])).add (Registry.metres "ft" 0.3048 ["foot"]),
    .empty⟩

-- A file with another `ft`. It says nothing of `foot`, which stays what it is.
def otherFeet : String :=
  "\x7b\"units\": [\x7b\"symbol\": \"ft\", \"scale\": 2, \"aliases\": [\"feet\"]\x7d], " ++
    "\"aliases\": \x7b\"fuss\": \"ft\"\x7d\x7d"

theorem evaluateLines_load_otherFeet :
    lengths.hasOverrides = false ∧
    ∃ r', (Edit.load otherFeet).outcome lengths = (.ok 2, r') ∧
      evaluateLines {} r' "2 metre as foot" = evaluateLines {} lengths "2 metre as foot" := by
  have hplain : lengths.hasOverrides = false := by decide +kernel
  have hcount : ((Edit.load otherFeet).outcome lengths).1 = .ok 2 := by decide +kernel
  have hnames : (OverrideFile.read? otherFeet).map OverrideFile.names =
      some ["ft", "feet", "fuss"] := by decide +kernel
  have hparse : parseLines {} "2 metre as foot" =
      .ok [⟨2, some (.name "metre" ⟨2, 5⟩), some (.name "foot" ⟨11, 4⟩)⟩] := by decide +kernel
  cases hload : (Edit.load otherFeet).outcome lengths with
  | mk answer r' =>
      rw [hload] at hcount
      obtain rfl : answer = .ok 2 := hcount
      obtain ⟨f, hread, hkept⟩ := evaluateLines_load hplain hload
      rw [hread] at hnames
      refine ⟨hplain, r', rfl, hkept {} _ fun qs hqs => ?_⟩
      rw [hparse] at hqs
      cases hqs
      rw [Option.some.inj hnames]
      decide

end UnitCalc
