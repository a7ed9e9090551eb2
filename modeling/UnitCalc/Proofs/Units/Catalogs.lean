import UnitCalc.Proofs.Units.Listing

namespace UnitCalc

variable {α : Type}

-- The units of some catalogs in the order in which they are declared.
def declaredUnits (catalogs : List (Catalog α)) : List (UnitDef α) :=
  catalogs.flatMap Catalog.units

-- The last of some units that has a symbol.
def lastWithSymbol? (us : List (UnitDef α)) (symbol : String) : Option (UnitDef α) :=
  us.reverse.find? fun u => u.symbol = symbol

-- The last of some units that has an alias.
def lastWithAlias? (us : List (UnitDef α)) (name : String) : Option (UnitDef α) :=
  us.reverse.find? fun u => name ∈ u.aliases

-- Whether some catalogs make a multiple of a unit. It has to be one of SI that takes multiples and
-- is not affine, and the multiple not the empty one.
def Offers (catalogs : List (Catalog α)) (u : UnitDef α) (p : Multiple α) : Prop :=
  ∃ c ∈ catalogs, c.standard = .si ∧ u ∈ c.units ∧ u.takesMultiples ∧ u.isAffine = false ∧
    p ∈ c.multiples ∧ p.exponent ≠ 0

-- The multiples of a catalog's units in the order in which they are made.
def Catalog.scaledUnits [Mul α] (c : Catalog α) : List (UnitDef α) :=
  if c.standard = .si then
    (c.units.filter fun u => u.takesMultiples && !u.isAffine).flatMap fun u =>
      (c.multiples.filter fun p => !p.isIdentity).map u.scaled
  else
    []

theorem mem_scaledUnits_iff [Mul α] {catalogs : List (Catalog α)} {v : UnitDef α} :
    v ∈ catalogs.flatMap Catalog.scaledUnits ↔ ∃ u p, Offers catalogs u p ∧ v = u.scaled p := by
  rw [List.mem_flatMap]
  constructor
  · rintro ⟨c, hc, hv⟩
    unfold Catalog.scaledUnits at hv
    split at hv
    case isFalse => cases hv
    case isTrue hsi =>
      obtain ⟨u, hu, hv⟩ := List.mem_flatMap.mp hv
      obtain ⟨p, hp, rfl⟩ := List.mem_map.mp hv
      simp only [List.mem_filter, Multiple.isIdentity, Bool.and_eq_true, Bool.not_eq_true',
        beq_eq_false_iff_ne] at hu hp
      exact ⟨u, p, ⟨c, hc, hsi, hu.1, hu.2.1, hu.2.2, hp⟩, rfl⟩
  · rintro ⟨u, p, ⟨c, hc, hsi, hu, htakes, haffine, hp, hexponent⟩, rfl⟩
    refine ⟨c, hc, ?_⟩
    rw [Catalog.scaledUnits, if_pos hsi]
    refine List.mem_flatMap.mpr ⟨u, ?_, List.mem_map.mpr ⟨p, ?_, rfl⟩⟩
    · simp [hu, htakes, haffine]
    · simp [hp, Multiple.isIdentity, hexponent]

theorem lastWithSymbol?_append_singleton (us : List (UnitDef α)) (u : UnitDef α)
    (symbol : String) :
    lastWithSymbol? (us ++ [u]) symbol =
      if u.symbol = symbol then some u else lastWithSymbol? us symbol := by
  by_cases h : u.symbol = symbol <;> simp [lastWithSymbol?, h]

theorem lastWithAlias?_append_singleton (us : List (UnitDef α)) (u : UnitDef α) (name : String) :
    lastWithAlias? (us ++ [u]) name =
      if name ∈ u.aliases then some u else lastWithAlias? us name := by
  by_cases h : name ∈ u.aliases <;> simp [lastWithAlias?, h]

section

variable {us : List (UnitDef α)} {u : UnitDef α} {symbol name : String}

theorem isSome_lastWithSymbol?_iff :
    (lastWithSymbol? us symbol).isSome ↔ ∃ u ∈ us, u.symbol = symbol := by
  simp [lastWithSymbol?]

theorem isSome_lastWithAlias?_iff :
    (lastWithAlias? us name).isSome ↔ ∃ u ∈ us, name ∈ u.aliases := by
  simp [lastWithAlias?]

theorem mem_of_lastWithSymbol? (h : lastWithSymbol? us symbol = some u) :
    u ∈ us ∧ u.symbol = symbol :=
  ⟨List.mem_reverse.mp (List.mem_of_find?_eq_some h), by simpa using List.find?_some h⟩

theorem mem_of_lastWithAlias? (h : lastWithAlias? us name = some u) :
    u ∈ us ∧ name ∈ u.aliases :=
  ⟨List.mem_reverse.mp (List.mem_of_find?_eq_some h), by simpa using List.find?_some h⟩

end

namespace Layer

variable {l : Layer α} {ds vs : List (UnitDef α)}

theorem addCatalog_eq [Mul α] (l : Layer α) (c : Catalog α) :
    l.addCatalog c = c.scaledUnits.foldl addNew (c.units.foldl add l) := by
  unfold addCatalog Catalog.scaledUnits
  split
  · simp only [addMultiples, List.foldl_flatMap, List.foldl_map]
  · rfl

-- What a layer holds once the units `ds` have been added to it and, somewhere between them, the
-- multiples `vs` whose symbols were free then.
structure BuiltFrom (ds vs : List (UnitDef α)) (l : Layer α) : Prop where
  declares : ∀ symbol u, lastWithSymbol? ds symbol = some u → l.units[symbol]? = some u
  multiplies : ∀ symbol u, lastWithSymbol? ds symbol = none → l.units[symbol]? = some u →
    u ∈ vs ∧ u.symbol = symbol
  takes : ∀ v ∈ vs, v.symbol ∈ l.units ∨ v.symbol ∈ l.aliases
  names : ∀ name, l.aliases[name]? = (lastWithAlias? ds name).map UnitDef.symbol

theorem builtFrom_empty : BuiltFrom [] [] (empty : Layer α) := by
  constructor <;> simp [empty, lastWithSymbol?, lastWithAlias?]

theorem mem_aliases_add {u : UnitDef α} {name : String} :
    name ∈ (l.add u).aliases ↔ name ∈ u.aliases ∨ name ∈ l.aliases := by
  rw [Std.ExtTreeMap.mem_iff_isSome_getElem?, getElem?_aliases_add,
    Std.ExtTreeMap.mem_iff_isSome_getElem?]
  by_cases h : name ∈ u.aliases <;> simp [h]

theorem taken_add {u : UnitDef α} {name : String} (h : name ∈ l.units ∨ name ∈ l.aliases) :
    name ∈ (l.add u).units ∨ name ∈ (l.add u).aliases := by
  rw [mem_units_add, mem_aliases_add]
  tauto

theorem BuiltFrom.add (h : BuiltFrom ds vs l) (u : UnitDef α) :
    BuiltFrom (ds ++ [u]) vs (l.add u) where
  declares symbol v hv := by
    rw [lastWithSymbol?_append_singleton] at hv
    rw [getElem?_units_add]
    split at hv
    · rw [if_pos ‹_›, hv]
    · rw [if_neg ‹_›]
      exact h.declares symbol v hv
  multiplies symbol v hnone hv := by
    rw [lastWithSymbol?_append_singleton] at hnone
    rw [getElem?_units_add] at hv
    split at hnone
    · cases hnone
    · rw [if_neg ‹_›] at hv
      exact h.multiplies symbol v hnone hv
  takes v hv := taken_add (h.takes v hv)
  names name := by
    rw [getElem?_aliases_add, lastWithAlias?_append_singleton, h.names]
    split <;> rfl

theorem BuiltFrom.addTaken (h : BuiltFrom ds vs l) {v : UnitDef α}
    (htaken : v.symbol ∈ l.units ∨ v.symbol ∈ l.aliases) : BuiltFrom ds (vs ++ [v]) l where
  declares := h.declares
  multiplies symbol u hnone hu := by
    obtain ⟨hmem, hsymbol⟩ := h.multiplies symbol u hnone hu
    exact ⟨List.mem_append_left [v] hmem, hsymbol⟩
  takes u hu := by
    rcases List.mem_append.mp hu with hu | hu
    · exact h.takes u hu
    · rwa [List.mem_singleton.mp hu]
  names := h.names

theorem BuiltFrom.addFree (h : BuiltFrom ds vs l) {v : UnitDef α} (hv : v.aliases = [])
    (hfree : v.symbol ∉ l.units) : BuiltFrom ds (vs ++ [v]) (l.add v) where
  declares symbol u hu := by
    have hhas := h.declares symbol u hu
    have hne : v.symbol ≠ symbol := by
      rintro rfl
      exact hfree (Std.ExtTreeMap.getElem?_eq_some_iff.mp hhas).1
    rw [getElem?_units_add, if_neg hne, hhas]
  multiplies symbol u hnone hu := by
    rw [getElem?_units_add] at hu
    split at hu
    · cases hu
      exact ⟨by simp, ‹_›⟩
    · obtain ⟨hmem, hsymbol⟩ := h.multiplies symbol u hnone hu
      exact ⟨List.mem_append_left [v] hmem, hsymbol⟩
  takes u hu := by
    rcases List.mem_append.mp hu with hu | hu
    · exact taken_add (h.takes u hu)
    · rw [List.mem_singleton.mp hu, mem_units_add]
      exact .inl (.inl rfl)
  names name := by
    rw [getElem?_aliases_add, hv, if_neg List.not_mem_nil, h.names]

-- A multiple gives way to what is there.
theorem BuiltFrom.addNew (h : BuiltFrom ds vs l) {v : UnitDef α} (hv : v.aliases = []) :
    BuiltFrom ds (vs ++ [v]) (l.addNew v) := by
  unfold Layer.addNew
  simp only [Bool.or_eq_true, Std.ExtTreeMap.contains_iff_mem]
  split
  case isTrue htaken => exact h.addTaken htaken
  case isFalse hfree => exact h.addFree hv (not_or.mp hfree).1

theorem BuiltFrom.foldl_add (h : BuiltFrom ds vs l) (us : List (UnitDef α)) :
    BuiltFrom (ds ++ us) vs (us.foldl Layer.add l) := by
  induction us generalizing ds l with
  | nil => rwa [List.append_nil]
  | cons u us ih =>
      have hrest := ih (h.add u)
      rwa [List.append_assoc] at hrest

theorem BuiltFrom.foldl_addNew (h : BuiltFrom ds vs l) {us : List (UnitDef α)}
    (hus : ∀ u ∈ us, u.aliases = []) : BuiltFrom ds (vs ++ us) (us.foldl Layer.addNew l) := by
  induction us generalizing vs l with
  | nil => rwa [List.append_nil]
  | cons u us ih =>
      have hrest := ih (h.addNew (hus u List.mem_cons_self))
        fun v hv => hus v (List.mem_cons_of_mem u hv)
      rwa [List.append_assoc] at hrest

theorem aliases_of_mem_scaledUnits [Mul α] {c : Catalog α} {v : UnitDef α}
    (h : v ∈ c.scaledUnits) : v.aliases = [] := by
  have hv : v ∈ [c].flatMap Catalog.scaledUnits := List.mem_flatMap.mpr ⟨c, by simp, h⟩
  obtain ⟨u, p, -, rfl⟩ := mem_scaledUnits_iff.mp hv
  rfl

theorem BuiltFrom.foldl_addCatalog [Mul α] (h : BuiltFrom ds vs l) (catalogs : List (Catalog α)) :
    BuiltFrom (ds ++ declaredUnits catalogs) (vs ++ catalogs.flatMap Catalog.scaledUnits)
      (catalogs.foldl addCatalog l) := by
  induction catalogs generalizing ds vs l with
  | nil => simpa [declaredUnits] using h
  | cons c catalogs ih =>
      have hfirst : BuiltFrom (ds ++ c.units) (vs ++ c.scaledUnits) (l.addCatalog c) := by
        rw [addCatalog_eq]
        exact (h.foldl_add c.units).foldl_addNew fun v => aliases_of_mem_scaledUnits
      have hrest := ih hfirst
      rw [List.append_assoc, List.append_assoc] at hrest
      exact hrest

theorem builtFrom_catalogs [Mul α] (catalogs : List (Catalog α)) :
    BuiltFrom (declaredUnits catalogs) (catalogs.flatMap Catalog.scaledUnits)
      (catalogs.foldl addCatalog empty) :=
  builtFrom_empty.foldl_addCatalog catalogs

theorem asciiMicro?_eq_some_iff {m name : String} :
    asciiMicro? m = some name ↔
      ∃ c cs, m.toList = 'µ' :: c :: cs ∧ name.toList = 'u' :: c :: cs := by
  unfold asciiMicro?
  constructor
  · intro h
    split at h
    case h_1 c cs hm =>
      cases h
      exact ⟨c, cs, hm, String.toList_ofList⟩
    case h_2 => cases h
  · rintro ⟨c, cs, hm, hname⟩
    rw [hm]
    show some (String.ofList ('u' :: c :: cs)) = some name
    rw [← hname, String.ofList_toList]

-- Two symbols that get the same ASCII name are the same.
theorem eq_of_asciiMicro? {m m' name : String} (h : asciiMicro? m = some name)
    (h' : asciiMicro? m' = some name) : m = m' := by
  obtain ⟨c, cs, hm, hname⟩ := asciiMicro?_eq_some_iff.mp h
  obtain ⟨c', cs', hm', hname'⟩ := asciiMicro?_eq_some_iff.mp h'
  obtain ⟨rfl, rfl⟩ : c = c' ∧ cs = cs' := by simpa using hname.symm.trans hname'
  exact String.toList_inj.mp (hm.trans hm'.symm)

theorem ne_of_asciiMicro? {m name : String} (h : asciiMicro? m = some name) : m ≠ name := by
  rintro rfl
  obtain ⟨c, cs, hm, hname⟩ := asciiMicro?_eq_some_iff.mp h
  exact absurd (hm.symm.trans hname) (by simp)

theorem getElem?_aliases_addMicroAlias (l : Layer α) (m name : String) :
    (l.addMicroAlias m).aliases[name]? =
      l.aliases[name]?.or (if asciiMicro? m = some name then some m else none) := by
  unfold addMicroAlias
  split
  case h_2 hnone => simp [hnone]
  case h_1 ascii hascii =>
    rw [Std.ExtTreeMap.getElem?_insertIfNew, hascii]
    by_cases hname : ascii = name
    · subst hname
      by_cases hmem : ascii ∈ l.aliases <;> simp [hmem]
    · simp [hname]

theorem units_foldl_addMicroAlias (ms : List String) (l : Layer α) :
    (ms.foldl addMicroAlias l).units = l.units := by
  induction ms generalizing l with
  | nil => rfl
  | cons m ms ih => rw [List.foldl_cons, ih, units_addMicroAlias]

theorem getElem?_aliases_foldl_addMicroAlias (ms : List String) (l : Layer α) (name : String) :
    (ms.foldl addMicroAlias l).aliases[name]? =
      l.aliases[name]?.or (ms.find? fun m => asciiMicro? m = some name) := by
  induction ms generalizing l with
  | nil => simp
  | cons m ms ih =>
      rw [List.foldl_cons, ih, getElem?_aliases_addMicroAlias, Option.or_assoc]
      by_cases hm : asciiMicro? m = some name <;> simp [hm]

section

variable [Mul α] (catalogs : List (Catalog α))

theorem units_ofCatalogs :
    (ofCatalogs catalogs).units = (catalogs.foldl addCatalog empty).units :=
  units_foldl_addMicroAlias _ _

-- The aliases of the defaults are those that are declared and, besides them, the ASCII names of
-- symbols in the micro sign.
theorem getElem?_aliases_ofCatalogs (name : String) :
    (ofCatalogs catalogs).aliases[name]? =
      ((lastWithAlias? (declaredUnits catalogs) name).map UnitDef.symbol).or
        ((ofCatalogs catalogs).units.keys.find? fun m => asciiMicro? m = some name) := by
  rw [units_ofCatalogs, ← (builtFrom_catalogs catalogs).names]
  exact getElem?_aliases_foldl_addMicroAlias _ _ name

theorem getElem?_units_of_declared {symbol : String} {u : UnitDef α}
    (h : lastWithSymbol? (declaredUnits catalogs) symbol = some u) :
    (ofCatalogs catalogs).units[symbol]? = some u := by
  rw [units_ofCatalogs]
  exact (builtFrom_catalogs catalogs).declares symbol u h

theorem exists_of_getElem?_units {symbol : String} {u : UnitDef α}
    (h : (ofCatalogs catalogs).units[symbol]? = some u) :
    u.symbol = symbol ∧
      (lastWithSymbol? (declaredUnits catalogs) symbol = some u ∨
        lastWithSymbol? (declaredUnits catalogs) symbol = none ∧
          ∃ b p, Offers catalogs b p ∧ u = b.scaled p) := by
  cases hlast : lastWithSymbol? (declaredUnits catalogs) symbol with
  | some d =>
      have hd := getElem?_units_of_declared catalogs hlast
      obtain rfl := Option.some.inj (hd.symm.trans h)
      exact ⟨(mem_of_lastWithSymbol? hlast).2, .inl rfl⟩
  | none =>
      rw [units_ofCatalogs] at h
      obtain ⟨hu, hsymbol⟩ := (builtFrom_catalogs catalogs).multiplies symbol u hlast h
      exact ⟨hsymbol, .inr ⟨rfl, mem_scaledUnits_iff.mp hu⟩⟩

theorem getElem?_aliases_of_declared {name : String} {u : UnitDef α}
    (h : lastWithAlias? (declaredUnits catalogs) name = some u) :
    (ofCatalogs catalogs).aliases[name]? = some u.symbol := by
  rw [getElem?_aliases_ofCatalogs, h]
  rfl

theorem exists_of_mem_units {symbol : String} (h : symbol ∈ (ofCatalogs catalogs).units) :
    (∃ u ∈ declaredUnits catalogs, u.symbol = symbol) ∨
      ∃ b p, Offers catalogs b p ∧ p.symbol ++ b.symbol = symbol := by
  obtain ⟨hsymbol, hlast | ⟨-, b, p, hoffers, hu⟩⟩ :=
    exists_of_getElem?_units catalogs (Std.ExtTreeMap.getElem?_eq_some_getElem h)
  · exact .inl ⟨_, mem_of_lastWithSymbol? hlast⟩
  · rw [hu] at hsymbol
    exact .inr ⟨b, p, hoffers, hsymbol⟩

theorem exists_of_mem_aliases {name : String} (h : name ∈ (ofCatalogs catalogs).aliases) :
    (∃ u ∈ declaredUnits catalogs, name ∈ u.aliases) ∨ ∃ m, asciiMicro? m = some name := by
  rw [Std.ExtTreeMap.mem_iff_isSome_getElem?, getElem?_aliases_ofCatalogs, Option.isSome_or,
    Bool.or_eq_true, Option.isSome_map] at h
  rcases h with h | h
  · obtain ⟨u, hu⟩ := Option.isSome_iff_exists.mp h
    exact .inl ⟨u, mem_of_lastWithAlias? hu⟩
  · obtain ⟨m, hm⟩ := Option.isSome_iff_exists.mp h
    exact .inr ⟨m, by simpa using List.find?_some hm⟩

-- A multiple that is offered is there, unless its name is an alias that is declared.
theorem mem_units_of_offers {u : UnitDef α} {p : Multiple α} (h : Offers catalogs u p)
    (hname : lastWithAlias? (declaredUnits catalogs) (p.symbol ++ u.symbol) = none) :
    p.symbol ++ u.symbol ∈ (ofCatalogs catalogs).units := by
  have hbuilt := builtFrom_catalogs catalogs
  rw [units_ofCatalogs]
  refine (hbuilt.takes (u.scaled p) (mem_scaledUnits_iff.mpr ⟨u, p, h, rfl⟩)).resolve_right ?_
  rw [Std.ExtTreeMap.mem_iff_isSome_getElem?, hbuilt.names]
  show ¬((lastWithAlias? (declaredUnits catalogs) (p.symbol ++ u.symbol)).map _).isSome
  simp [hname]

-- The symbol of a multiple that is offered stands for a unit, if not for that multiple then for the
-- one that it gave way to.
theorem canonical_mem_units_of_offers {u : UnitDef α} {p : Multiple α} (h : Offers catalogs u p) :
    (ofCatalogs catalogs).canonical (p.symbol ++ u.symbol) ∈ (ofCatalogs catalogs).units := by
  rw [canonical_mem_units_iff (linked_ofCatalogs catalogs)]
  cases hname : lastWithAlias? (declaredUnits catalogs) (p.symbol ++ u.symbol) with
  | none => exact .inl (mem_units_of_offers catalogs h hname)
  | some v =>
      have halias := getElem?_aliases_of_declared catalogs hname
      exact .inr (Std.ExtTreeMap.getElem?_eq_some_iff.mp halias).1

end

end Layer

theorem not_offers {catalogs : List (Catalog α)} {u : UnitDef α}
    (h : u.isAffine ∨ u.takesMultiples = false ∨ ∀ c ∈ catalogs, u ∈ c.units → c.standard ≠ .si)
    (p : Multiple α) : ¬Offers catalogs u p := by
  rintro ⟨c, hc, hsi, hu, htakes, haffine, -, -⟩
  rcases h with h | h | h
  · simp [h] at haffine
  · simp [h] at htakes
  · exact h c hc hu hsi

namespace Registry

-- The defaults hold, under their symbols, the units that the catalogs declare, the last one of each
-- symbol, and besides these only multiples that the catalogs offer. The symbol of each multiple
-- that is offered stands for a unit. What would be a multiple of an affine unit, of one that takes
-- none or of one outside SI is there at most by a declaration or as a multiple of another unit.
theorem defaults_declared_or_offered [Mul α] (r : Registry α) (catalogs : List (Catalog α)) :
    (∀ symbol u, (r.loadDefaults catalogs).defaults.units[symbol]? = some u →
      u.symbol = symbol ∧ (lastWithSymbol? (declaredUnits catalogs) symbol = some u ∨
        lastWithSymbol? (declaredUnits catalogs) symbol = none ∧
          ∃ b p, Offers catalogs b p ∧ u = b.scaled p)) ∧
    (∀ u ∈ declaredUnits catalogs, u.symbol ∈ (r.loadDefaults catalogs).defaults.units) ∧
    (∀ b p, Offers catalogs b p →
      (r.loadDefaults catalogs).defaults.canonical (p.symbol ++ b.symbol) ∈
        (r.loadDefaults catalogs).defaults.units) ∧
    (∀ b : UnitDef α, (b.isAffine ∨ b.takesMultiples = false ∨
        ∀ c ∈ catalogs, b ∈ c.units → c.standard ≠ .si) →
      ∀ p : Multiple α, p.symbol ++ b.symbol ∈ (r.loadDefaults catalogs).defaults.units →
        (∃ u ∈ declaredUnits catalogs, u.symbol = p.symbol ++ b.symbol) ∨
        ∃ b' p', b' ≠ b ∧ Offers catalogs b' p' ∧
          (r.loadDefaults catalogs).defaults.units[p.symbol ++ b.symbol]? =
            some (b'.scaled p')) := by
  refine ⟨fun symbol u => Layer.exists_of_getElem?_units catalogs, ?_,
    fun b p => Layer.canonical_mem_units_of_offers catalogs, ?_⟩
  · intro u hu
    have hlast := isSome_lastWithSymbol?_iff.mpr ⟨u, hu, rfl⟩
    obtain ⟨d, hd⟩ := Option.isSome_iff_exists.mp hlast
    exact (Std.ExtTreeMap.getElem?_eq_some_iff.mp
      (Layer.getElem?_units_of_declared catalogs hd)).1
  · intro b hb p hmem
    rw [Std.ExtTreeMap.mem_iff_isSome_getElem?] at hmem
    obtain ⟨u, hu⟩ := Option.isSome_iff_exists.mp hmem
    rcases (Layer.exists_of_getElem?_units catalogs hu).2 with hlast | ⟨-, b', p', hoffers, rfl⟩
    · exact .inl ⟨_, mem_of_lastWithSymbol? hlast⟩
    · refine .inr ⟨b', p', ?_, hoffers, hu⟩
      rintro rfl
      exact not_offers hb p' hoffers

end Registry

end UnitCalc
