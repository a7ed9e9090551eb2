import UnitCalc.Proofs.Units.Definition
import UnitCalc.Proofs.Units.Exact
import UnitCalc.Proofs.Units.Rollback

namespace UnitCalc

-- What every unit from a file has. A scale is neither zero nor minus zero.
structure UnitDef.Sound (u : UnitDef Float) : Prop where
  symbol : ∃ c ∈ u.symbol.toList, Text.isBlank c = false
  scale_isFinite : u.measure.scale.isFinite = true
  scale_ne_zero : (u.measure.scale == 0) = false
  offset_isFinite : u.measure.offset.isFinite = true
  offset_eq_zero : u.isAffine = false → u.measure.offset = 0
  exponents : ∀ e ∈ u.measure.dim.exponents.toList, -16 ≤ e ∧ e ≤ 16
  takesMultiples : u.takesMultiples = false

namespace UnitEntry

variable {e : UnitEntry} {u : UnitDef Float}

-- What has been checked of an entry.
theorem checks_of_fault? (h : e.fault? = none) :
    (∃ c ∈ e.symbol.toList, Text.isBlank c = false) ∧ e.scale.isFinite = true ∧
      (e.scale == 0) = false ∧ e.offset.isFinite = true := by
  unfold fault? at h
  split at h
  · cases h
  rename_i hsymbol
  split at h
  · cases h
  rename_i hscale
  split at h
  · cases h
  rename_i hoffset
  have hzero : (0.0 : Float) = 0 := by decide
  simp only [hzero, Bool.or_eq_true, not_or, Bool.not_eq_true', Bool.not_eq_true,
    Bool.not_eq_false] at hscale hoffset
  exact ⟨by simpa using hsymbol, hscale.1, hscale.2, hoffset⟩

-- The bounds of the exponents come with the dimension, which is made last.
theorem sound_of_define (h : e.define = .ok u) : u.Sound := by
  unfold define at h
  split at h
  · cases h
  rename_i hfault
  obtain ⟨hsymbol, hscale, hne, hoffset⟩ := checks_of_fault? hfault
  obtain ⟨dim, -, hunit⟩ := exists_of_bind_eq_ok h
  have hexponents : ∀ x ∈ dim.exponents.toList, -16 ≤ x ∧ x ≤ 16 := by
    intro x hx
    have hbounded := dim.bounded x hx
    have hmax : Exponents.maxPower = 16 := rfl
    omega
  have hzero : (0 : Float).isFinite = true := by decide
  cases hunit
  cases e.behavior with
  | multiplicative => exact ⟨hsymbol, hscale, hne, hzero, fun _ => rfl, hexponents, rfl⟩
  | affine => exact ⟨hsymbol, hscale, hne, hoffset, nofun, hexponents, rfl⟩

end UnitEntry

-- Whether every unit of a layer is under its own symbol and sound.
def Layer.Sound (l : Layer Float) : Prop :=
  ∀ (symbol : String) (u : UnitDef Float), l.units[symbol]? = some u → u.symbol = symbol ∧ u.Sound

namespace Layer

variable {l : Layer Float} {u : UnitDef Float}

theorem sound_empty : (empty : Layer Float).Sound := by
  intro symbol u h
  simp [empty] at h

theorem Sound.add (h : l.Sound) (hu : u.Sound) : (l.add u).Sound := by
  intro symbol v hv
  rw [getElem?_units_add] at hv
  split at hv
  · cases hv
    exact ⟨‹_›, hu⟩
  · exact h symbol v hv

end Layer

namespace Registry

-- Whether an operation takes units from files alone.
def Operation.usesFiles : Operation → Bool
  | .loadOverrides _ | .defineAlias _ _ | .rollback => true
  | .loadDefaults _ | .define _ _ => false

variable {r r' : Registry Float} {ops : List Operation}

theorem sound_define {u : UnitDef Float} {overwrite : Bool} (h : r.define u overwrite = .ok r')
    (hu : u.Sound) (hr : r.session.Sound) : r'.session.Sound := by
  obtain rfl := eq_of_define h
  exact hr.add hu

theorem sound_defineAlias {name symbol : String} (h : r.defineAlias name symbol = .ok r')
    (hr : r.session.Sound) : r'.session.Sound := by
  unfold defineAlias at h
  split at h
  · cases h
    exact hr
  · cases h

theorem sound_perform {op : Operation} (hop : op.usesFiles = true) (h : r.perform op = .ok r')
    (hr : r.session.Sound) : r'.session.Sound := by
  cases op with
  | loadDefaults catalogs => cases hop
  | define u overwrite => cases hop
  | defineAlias name symbol => exact sound_defineAlias h hr
  | loadOverrides text =>
      obtain ⟨f, -, happlied⟩ := appliedTo_of_loadOverrides h
      refine f.appliedTo_keeps_of_mem (P := fun r => r.session.Sound) ?_ ?_ happlied hr
      · intro e _ u hu r r' hdefine
        exact sound_define hdefine (e.sound_of_define hu)
      · intro name _ symbol r r' halias
        exact sound_defineAlias halias
  | rollback =>
      cases h
      exact Layer.sound_empty

-- An operation that fails leaves the registry as it is, also a file that fails halfway.
theorem sound_edited (hops : ∀ op ∈ ops, op.usesFiles = true) (hr : r.session.Sound) :
    (r.edited ops).session.Sound :=
  edited_keeps (P := fun r => r.session.Sound) (fun _ _ _ => sound_perform) hops hr

-- In a session on the default catalogs that takes its units from files, each of these units is
-- under its own symbol and sound. A conversion into one of them divides by its scale, so what a
-- division by zero would give does not matter to it.
theorem sound_session_of_files {ops : List Operation} (hops : ∀ op ∈ ops, op.usesFiles = true)
    {symbol : String} {u : UnitDef Float}
    (h : (default.edited ops).session.units[symbol]? = some u) :
    u.symbol = symbol ∧ u.Sound ∧
    ∀ divide : Float → Float → Float, (∀ x y, (y == 0) = false → divide x y = x / y) →
      ∀ (source : Measure Float) (value : Float),
        source.convertBy divide u.measure value = source.convert u.measure value := by
  have hdefault : (default : Registry Float).session.Sound := Layer.sound_empty
  obtain ⟨hsymbol, hsound⟩ := sound_edited hops hdefault symbol u h
  refine ⟨hsymbol, hsound, fun divide hdivide source value => ?_⟩
  exact Measure.convertBy_eq (fun x => hdivide x _ hsound.scale_ne_zero) source value

-- A file with degrees Fahrenheit by another name.
def fileOfDegrees : String :=
  "\x7b\"units\": [\x7b\"symbol\": \"degF\", \"behavior\": \"affine\", \"scale\": 0.5, " ++
    "\"dimension\": \x7b\"temperature\": 1\x7d, \"offset\": 255.25\x7d]\x7d"

-- A file with a sound unit and one that is none.
def fileOfZero : String :=
  "\x7b\"units\": [\x7b\"symbol\": \"pair\", \"scale\": 2\x7d, " ++
    "\x7b\"symbol\": \"none\", \"scale\": 0\x7d]\x7d"

theorem sound_session_of_files_degrees :
    (∀ op ∈ [Operation.loadOverrides fileOfDegrees, .loadOverrides fileOfZero],
      op.usesFiles = true) ∧
    ∃ u : UnitDef Float,
      (default.edited
          [.loadOverrides fileOfDegrees, .loadOverrides fileOfZero]).session.units.toList =
        [("degF", u)] ∧ u.isAffine = true ∧ u.symbol = "degF" ∧ u.Sound := by
  have hops : ∀ op ∈ [Operation.loadOverrides fileOfDegrees, .loadOverrides fileOfZero],
      op.usesFiles = true := by
    simp [Operation.usesFiles]
  let u : UnitDef Float := .affine .si "" "degF" "degF" Dimension.Named.temperature 0.5 255.25
  have hunits : (default.edited [.loadOverrides fileOfDegrees,
      .loadOverrides fileOfZero]).session.units.toList = [("degF", u)] := by
    decide +kernel
  have hentry := Std.ExtTreeMap.mem_toList_iff_getElem?_eq_some.mp
    (hunits ▸ List.mem_singleton_self ("degF", u))
  obtain ⟨hsymbol, hsound, -⟩ := sound_session_of_files hops hentry
  exact ⟨hops, u, hunits, rfl, hsymbol, hsound⟩

end Registry

end UnitCalc
