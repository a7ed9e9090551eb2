import Mathlib.Data.List.Lattice
import Mathlib.Data.List.Nodup
import Mathlib.Data.List.Pairwise
import UnitCalc.Proofs.Units.Catalogs

namespace UnitCalc

variable {α : Type}

-- The names that a unit is declared with.
def UnitDef.names (u : UnitDef α) : List String :=
  u.symbol :: u.aliases

section

variable {us : List (UnitDef α)} {u v : UnitDef α} {name : String}

-- Where no name is declared twice, a name has one unit.
theorem eq_of_mem_names (hus : (us.flatMap UnitDef.names).Nodup) (hu : u ∈ us) (hv : v ∈ us)
    (hname : name ∈ u.names) (hname' : name ∈ v.names) : u = v := by
  have hdisjoint := (List.nodup_flatMap.mp hus).2
  have : Std.Symm (Function.onFun List.Disjoint (UnitDef.names (α := α))) :=
    ⟨fun _ _ h => h.symm⟩
  by_contra hne
  exact hdisjoint.forall hu hv hne hname hname'

theorem not_mem_aliases_of_nodup (hus : (us.flatMap UnitDef.names).Nodup) (hu : u ∈ us) :
    u.symbol ∉ u.aliases :=
  (List.nodup_cons.mp ((List.nodup_flatMap.mp hus).1 u hu)).1

theorem lastWithSymbol?_of_nodup (hus : (us.flatMap UnitDef.names).Nodup) (hu : u ∈ us) :
    lastWithSymbol? us u.symbol = some u := by
  obtain ⟨v, hlast⟩ := Option.isSome_iff_exists.mp (isSome_lastWithSymbol?_iff.mpr ⟨u, hu, rfl⟩)
  obtain ⟨hv, hsymbol⟩ := mem_of_lastWithSymbol? hlast
  have hname : v.symbol ∈ u.names := by simp [UnitDef.names, hsymbol]
  rw [hlast, eq_of_mem_names hus hu hv hname List.mem_cons_self]

theorem lastWithAlias?_of_nodup (hus : (us.flatMap UnitDef.names).Nodup) (hu : u ∈ us)
    (hname : name ∈ u.aliases) : lastWithAlias? us name = some u := by
  obtain ⟨v, hlast⟩ := Option.isSome_iff_exists.mp (isSome_lastWithAlias?_iff.mpr ⟨u, hu, hname⟩)
  obtain ⟨hv, hname'⟩ := mem_of_lastWithAlias? hlast
  rw [hlast, eq_of_mem_names hus hu hv (List.mem_cons_of_mem _ hname)
    (List.mem_cons_of_mem _ hname')]

theorem lastWithAlias?_symbol_of_nodup (hus : (us.flatMap UnitDef.names).Nodup) (hu : u ∈ us) :
    lastWithAlias? us u.symbol = none := by
  cases hlast : lastWithAlias? us u.symbol with
  | none => rfl
  | some v =>
      obtain ⟨hv, hname⟩ := mem_of_lastWithAlias? hlast
      obtain rfl := eq_of_mem_names hus hu hv List.mem_cons_self (List.mem_cons_of_mem _ hname)
      exact absurd hname (not_mem_aliases_of_nodup hus hu)

end

namespace Registry

theorem find?_of_empty_session {r : Registry α} (h : r.session = .empty) (name : String) :
    r.find? name = r.defaults.units[r.defaults.canonical name]? := by
  simp [find?, h, Layer.empty, Layer.canonical]

section

variable [Mul α] {catalogs : List (Catalog α)} {r : Registry α}

theorem find?_loadDefaults (hr : r.hasOverrides = false) (name : String) :
    (r.loadDefaults catalogs).find? name =
      (Layer.ofCatalogs catalogs).units[(Layer.ofCatalogs catalogs).canonical name]? :=
  find?_of_empty_session (r := r.loadDefaults catalogs) (session_of_hasOverrides hr) name

variable {u : UnitDef α} (hnames : ((declaredUnits catalogs).flatMap UnitDef.names).Nodup)
include hnames

-- Only the ASCII name of a symbol in the micro sign can be in the way of a symbol that is declared.
theorem canonical_declared_symbol (hu : u ∈ declaredUnits catalogs) :
    (Layer.ofCatalogs catalogs).canonical u.symbol =
      ((Layer.ofCatalogs catalogs).units.keys.find? fun m =>
        Layer.asciiMicro? m = some u.symbol).getD u.symbol := by
  rw [Layer.canonical, Layer.getElem?_aliases_ofCatalogs,
    lastWithAlias?_symbol_of_nodup hnames hu]
  rfl

variable (hr : r.hasOverrides = false) (hu : u ∈ declaredUnits catalogs)
include hr hu

theorem find?_declared_alias {name : String} (hname : name ∈ u.aliases) :
    (r.loadDefaults catalogs).find? name = some u := by
  have halias := Layer.getElem?_aliases_of_declared catalogs
    (lastWithAlias?_of_nodup hnames hu hname)
  rw [find?_loadDefaults hr, Layer.canonical, halias]
  exact Layer.getElem?_units_of_declared catalogs (lastWithSymbol?_of_nodup hnames hu)

theorem find?_declared_symbol
    (hmicro : ∀ m ∈ (r.loadDefaults catalogs).defaults.units,
      Layer.asciiMicro? m ≠ some u.symbol) :
    (r.loadDefaults catalogs).find? u.symbol = some u := by
  have hnone : ((Layer.ofCatalogs catalogs).units.keys.find? fun m =>
      Layer.asciiMicro? m = some u.symbol) = none := by
    refine List.find?_eq_none.mpr fun m hm => ?_
    simpa using hmicro m (Std.ExtTreeMap.mem_keys.mp hm)
  rw [find?_loadDefaults hr, canonical_declared_symbol hnames hu, hnone]
  exact Layer.getElem?_units_of_declared catalogs (lastWithSymbol?_of_nodup hnames hu)

theorem find?_micro_symbol {m : String} (hm : m ∈ (r.loadDefaults catalogs).defaults.units)
    (hmicro : Layer.asciiMicro? m = some u.symbol) :
    (r.loadDefaults catalogs).find? u.symbol = (r.loadDefaults catalogs).defaults.units[m]? := by
  have hsome : ((Layer.ofCatalogs catalogs).units.keys.find? fun m =>
      Layer.asciiMicro? m = some u.symbol).isSome :=
    List.find?_isSome.mpr ⟨m, Std.ExtTreeMap.mem_keys.mpr hm, by simpa using hmicro⟩
  obtain ⟨m', hfound⟩ := Option.isSome_iff_exists.mp hsome
  have hmicro' : Layer.asciiMicro? m' = some u.symbol := by simpa using List.find?_some hfound
  rw [find?_loadDefaults hr, canonical_declared_symbol hnames hu, hfound,
    Layer.eq_of_asciiMicro? hmicro' hmicro]
  rfl

end

-- Where no name is declared twice, each alias that is declared stands for its unit. So does each
-- symbol, unless it is the ASCII name of a symbol in the micro sign, whose unit it then stands for.
theorem find?_declared [Mul α] {catalogs : List (Catalog α)} {r : Registry α} {u : UnitDef α}
    (hnames : ((declaredUnits catalogs).flatMap UnitDef.names).Nodup)
    (hr : r.hasOverrides = false) (hu : u ∈ declaredUnits catalogs) :
    (∀ name ∈ u.aliases, (r.loadDefaults catalogs).find? name = some u) ∧
    ((r.loadDefaults catalogs).find? u.symbol = some u ↔
      ∀ m ∈ (r.loadDefaults catalogs).defaults.units, Layer.asciiMicro? m ≠ some u.symbol) ∧
    ∀ m v, (r.loadDefaults catalogs).defaults.units[m]? = some v →
      Layer.asciiMicro? m = some u.symbol →
      v.symbol = m ∧ (r.loadDefaults catalogs).find? u.symbol = some v := by
  have hhidden (m : String) (v : UnitDef α)
      (hv : (r.loadDefaults catalogs).defaults.units[m]? = some v)
      (hmicro : Layer.asciiMicro? m = some u.symbol) :
      v.symbol = m ∧ (r.loadDefaults catalogs).find? u.symbol = some v := by
    have hm := (Std.ExtTreeMap.getElem?_eq_some_iff.mp hv).1
    exact ⟨(Layer.exists_of_getElem?_units catalogs hv).1,
      (find?_micro_symbol hnames hr hu hm hmicro).trans hv⟩
  refine ⟨fun name => find?_declared_alias hnames hr hu, ⟨?_, ?_⟩, hhidden⟩
  · intro hfind m hm hmicro
    obtain ⟨hsymbol, hfind'⟩ := hhidden m _ (Std.ExtTreeMap.getElem?_eq_some_getElem hm) hmicro
    obtain rfl := Option.some.inj (hfind'.symm.trans hfind)
    exact Layer.ne_of_asciiMicro? hmicro hsymbol.symm
  · exact find?_declared_symbol hnames hr hu

-- A catalog of SI that offers the micrometre and declares another unit by the name `um`.
def metreAndUm : List (Catalog Float) :=
  [⟨.si, [⟨"micro", "µ", 1e-6, -6⟩],
    [(metres "m" 1.0 ["metre"]).withMultiples, metres "um" 3.0 []]⟩]

theorem nodup_metreAndUm : ((declaredUnits metreAndUm).flatMap UnitDef.names).Nodup := by
  decide

theorem offers_metreAndUm :
    Offers metreAndUm (metres "m" 1.0 ["metre"]).withMultiples ⟨"micro", "µ", 1e-6, -6⟩ :=
  ⟨_, List.mem_singleton_self _, rfl, List.mem_cons_self, rfl, rfl, List.mem_singleton_self _,
    by decide⟩

theorem find?_declared_metre :
    ((declaredUnits metreAndUm).flatMap UnitDef.names).Nodup ∧
    (empty : Registry Float).hasOverrides = false ∧
    (metres "m" 1.0 ["metre"]).withMultiples ∈ declaredUnits metreAndUm ∧
    (empty.loadDefaults metreAndUm).find? "metre" =
      some (metres "m" 1.0 ["metre"]).withMultiples ∧
    (empty.loadDefaults metreAndUm).find? "m" = some (metres "m" 1.0 ["metre"]).withMultiples := by
  have hmem : (metres "m" 1.0 ["metre"]).withMultiples ∈ declaredUnits metreAndUm :=
    List.mem_cons_self
  obtain ⟨haliases, hsymbol, -⟩ :=
    find?_declared (r := empty) nodup_metreAndUm hasOverrides_empty hmem
  refine ⟨nodup_metreAndUm, hasOverrides_empty, hmem, haliases "metre" List.mem_cons_self,
    hsymbol.mpr ?_⟩
  intro m _ hmicro
  obtain ⟨c, cs, -, hname⟩ := Layer.asciiMicro?_eq_some_iff.mp hmicro
  have hhead : "m".toList.head? = some 'u' := congrArg List.head? hname
  exact absurd hhead (by decide)

-- The micrometre takes `um` from the unit that is declared by that name.
theorem not_forall_find?_declared :
    ¬ ∀ (catalogs : List (Catalog Float)) (r : Registry Float),
      ((declaredUnits catalogs).flatMap UnitDef.names).Nodup → r.hasOverrides = false →
      ∀ u ∈ declaredUnits catalogs, (r.loadDefaults catalogs).find? u.symbol = some u ∧
        ∀ name ∈ u.aliases, (r.loadDefaults catalogs).find? name = some u := by
  intro h
  have hmem : metres "um" 3.0 [] ∈ declaredUnits metreAndUm :=
    List.mem_cons_of_mem _ List.mem_cons_self
  have hmicro : Layer.asciiMicro? ("µ" ++ "m") = some "um" := by decide
  have hoffered : "µ" ++ "m" ∈ (empty.loadDefaults metreAndUm).defaults.units :=
    Layer.mem_units_of_offers metreAndUm offers_metreAndUm (by rfl)
  have hfound := find?_micro_symbol nodup_metreAndUm hasOverrides_empty hmem hoffered hmicro
  rw [(h metreAndUm empty nodup_metreAndUm hasOverrides_empty _ hmem).1] at hfound
  have hsymbol := (Layer.exists_of_getElem?_units metreAndUm hfound.symm).1
  exact absurd hsymbol (by decide)

end Registry

end UnitCalc
