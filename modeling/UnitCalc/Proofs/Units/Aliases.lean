import Mathlib.Data.List.Nodup
import UnitCalc.Proofs.Units.Catalogs
import UnitCalc.Proofs.Units.Rollback

namespace UnitCalc

-- The entries of a table take the place of those of another.
theorem getElem?_foldl_insert_table (s t : Table String) (name : String) :
    (s.foldl (fun t name symbol => t.insert name symbol) t)[name]? = s[name]?.or t[name]? := by
  rw [Std.ExtTreeMap.foldl_eq_foldl_toList, getElem?_foldl_insert_entries]
  congr 1
  cases hfind : s.toList.reverse.find? fun e => e.1 = name with
  | some e =>
      have hmem : e ∈ s.toList := List.mem_reverse.mp (List.mem_of_find?_eq_some hfind)
      have hname : e.1 = name := by simpa using List.find?_some hfind
      rw [← hname]
      exact (Std.ExtTreeMap.mem_toList_iff_getElem?_eq_some.mp hmem).symm
  | none =>
      refine (Std.ExtTreeMap.getElem?_eq_none fun hmem => ?_).symm
      have hentry := Std.ExtTreeMap.mem_toList_iff_getElem?_eq_some.mpr
        (Std.ExtTreeMap.getElem?_eq_some_getElem hmem)
      simpa using List.find?_eq_none.mp hfind _ (List.mem_reverse.mpr hentry)

theorem nodup_toList {β : Type} (t : Table β) : t.toList.Nodup := by
  refine List.Nodup.of_map Prod.fst ?_
  rw [Std.ExtTreeMap.map_fst_toList_eq_keys]
  exact Std.ExtTreeMap.nodup_keys

namespace Layer

variable {α : Type} {l : Layer α}

-- Whether every unit of a layer is there under its own symbol.
def Keyed (l : Layer α) : Prop :=
  ∀ (symbol : String) (u : UnitDef α), l.units[symbol]? = some u → u.symbol = symbol

-- Whether no symbol of a layer is an alias of it.
def Separate (l : Layer α) : Prop :=
  ∀ symbol ∈ l.units, symbol ∉ l.aliases

theorem keyed_empty : Keyed (empty : Layer α) := by
  intro symbol u h
  simp [empty] at h

theorem keyed_add (h : Keyed l) (u : UnitDef α) : Keyed (l.add u) := by
  intro symbol v hv
  rw [getElem?_units_add] at hv
  split at hv
  · cases hv
    assumption
  · exact h symbol v hv

theorem keyed_ofCatalogs [Mul α] (catalogs : List (Catalog α)) : Keyed (ofCatalogs catalogs) :=
  fun _ _ h => (exists_of_getElem?_units catalogs h).1

theorem Keyed.exists_of_mem (h : Keyed l) {symbol : String} (hmem : symbol ∈ l.units) :
    ∃ u, l.units[symbol]? = some u ∧ u.symbol = symbol :=
  have hu := Std.ExtTreeMap.getElem?_eq_some_getElem hmem
  ⟨_, hu, h symbol _ hu⟩

end Layer

namespace Registry

section

variable {α : Type} {r : Registry α} {name symbol : String}

theorem getElem?_aliases :
    r.aliases[name]? = r.session.aliases[name]?.or r.defaults.aliases[name]? :=
  getElem?_foldl_insert_table _ _ _

-- The aliases are those of the session and those of the defaults that the session has not.
theorem toList_aliases_perm :
    r.aliases.toList.Perm (r.session.aliases.toList ++
      r.defaults.aliases.toList.filter fun a => a.1 ∉ r.session.aliases) := by
  have hnodup : (r.session.aliases.toList ++
      r.defaults.aliases.toList.filter fun a => a.1 ∉ r.session.aliases).Nodup := by
    refine List.nodup_append.mpr ⟨nodup_toList _, (nodup_toList _).filter _, ?_⟩
    rintro a ha b hb rfl
    have hsession := Std.ExtTreeMap.mem_toList_iff_getElem?_eq_some.mp ha
    have hnot := (List.mem_filter.mp hb).2
    simp only [decide_eq_true_eq] at hnot
    exact hnot (Std.ExtTreeMap.getElem?_eq_some_iff.mp hsession).1
  refine (List.perm_ext_iff_of_nodup (nodup_toList _) hnodup).mpr fun ⟨name, symbol⟩ => ?_
  simp only [List.mem_append, List.mem_filter, Std.ExtTreeMap.mem_toList_iff_getElem?_eq_some,
    decide_eq_true_eq, getElem?_aliases]
  by_cases hmem : name ∈ r.session.aliases <;> simp [hmem]

-- What an alias stands for, where aliases lead to units, units are under their symbols, and no
-- symbol of the defaults is an alias of theirs.
theorem exists_find?_of_alias (hlinked : r.Linked) (hsession : r.session.Keyed)
    (hdefaults : r.defaults.Keyed) (hseparate : r.defaults.Separate)
    (h : r.aliases[name]? = some symbol) :
    ∃ u, r.find? name = some u ∧ u.symbol =
      if name ∈ r.session.units ∧ name ∉ r.session.aliases then name else symbol := by
  rw [getElem?_aliases] at h
  by_cases hname : name ∈ r.session.aliases
  · rw [if_neg fun hshadow => hshadow.2 hname]
    have hcanonical := Layer.getElem?_aliases_of_mem hname
    rw [hcanonical, Option.some_or, Option.some_inj] at h
    rw [h] at hcanonical
    by_cases hunit : symbol ∈ r.session.units
    · obtain ⟨u, hu, hsymbol⟩ := hsession.exists_of_mem hunit
      exact ⟨u, find?_of_canonical (by rw [h, hu]), hsymbol⟩
    · have hdefault := (hlinked.session name symbol hcanonical).resolve_left hunit
      obtain ⟨u, hu, hsymbol⟩ := hdefaults.exists_of_mem hdefault
      refine ⟨u, ?_, hsymbol⟩
      rw [find?_of_canonical_not_mem (by rwa [h]), h,
        Layer.canonical_of_not_mem (hseparate symbol hdefault), hu]
  · rw [Std.ExtTreeMap.getElem?_eq_none hname, Option.none_or] at h
    have hcanonical := Layer.canonical_of_not_mem hname
    by_cases hunit : name ∈ r.session.units
    · rw [if_pos ⟨hunit, hname⟩]
      obtain ⟨u, hu, hsymbol⟩ := hsession.exists_of_mem hunit
      exact ⟨u, find?_of_canonical (by rw [hcanonical, hu]), hsymbol⟩
    · rw [if_neg fun hshadow => hunit hshadow.1]
      obtain ⟨u, hu, hsymbol⟩ := hdefaults.exists_of_mem (hlinked.defaults name symbol h)
      refine ⟨u, ?_, hsymbol⟩
      rw [find?_of_canonical_not_mem (by rwa [hcanonical]), hcanonical, Layer.canonical, h,
        Option.getD_some, hu]

end

section

variable {r r' : Registry Float} {ops : List Operation}

theorem keyed_perform {op : Operation} (hop : op.catalogs? = none)
    (h : r.perform op = .ok r') (hr : r.session.Keyed) : r'.session.Keyed := by
  refine perform_keeps (P := fun r => r.session.Keyed) ?_ ?_ ?_ (ne_loadDefaults hop) h hr
  · intro u overwrite r r' hdefine hkeyed
    obtain rfl := eq_of_define hdefine
    exact Layer.keyed_add hkeyed u
  · intro name symbol r r' halias hkeyed
    unfold defineAlias at halias
    split at halias
    · cases halias
      exact hkeyed
    · cases halias
  · exact fun _ _ => Layer.keyed_empty

theorem keyed_edited (hops : ∀ op ∈ ops, op.catalogs? = none) (hr : r.session.Keyed) :
    (r.edited ops).session.Keyed :=
  edited_keeps (P := fun r => r.session.Keyed) (fun _ _ _ => keyed_perform) hops hr

theorem linked_edited (hops : ∀ op ∈ ops, op.catalogs? = none) (hr : r.Linked) :
    (r.edited ops).Linked :=
  edited_keeps (fun _ _ _ hop => linked_perform (ne_loadDefaults hop)) hops hr

theorem defaults_edited_of_no_catalogs (hops : ∀ op ∈ ops, op.catalogs? = none) :
    (r.edited ops).defaults = r.defaults := by
  have hnone : ops.filterMap Operation.catalogs? = [] := List.filterMap_eq_nil_iff.mpr hops
  rw [defaults_edited, lastCatalogs?, hnone]
  rfl

end

-- No symbol of the default catalogs is an alias of theirs, nor is the symbol of a multiple. No such
-- symbol starts with `u`, as the names in place of the micro sign do.
section

open Catalog

theorem plain_of_declared : ∀ u ∈ declaredUnits all, u.symbol.toList.head? ≠ some 'u' ∧
    ∀ v ∈ declaredUnits all, u.symbol ∉ v.aliases := by
  decide

theorem head?_siMultiples : ∀ p ∈ siMultiples, p.exponent ≠ 0 →
    p.symbol.toList.head?.isSome ∧ p.symbol.toList.head? ≠ some 'u' := by
  decide

theorem drop_aliases_ne : ∀ v ∈ declaredUnits all, ∀ name ∈ v.aliases, ∀ p ∈ siMultiples,
    p.exponent ≠ 0 → p.symbol.toList <+: name.toList →
    ∀ b ∈ si.units, b.symbol.toList ≠ name.toList.drop p.symbol.toList.length := by
  decide

theorem si_of_offers {b : UnitDef Float} {p : Multiple Float} (h : Offers all b p) :
    b ∈ si.units ∧ p ∈ siMultiples ∧ p.exponent ≠ 0 := by
  obtain ⟨c, hc, hsi, hb, -, -, hp, hexponent⟩ := h
  simp only [all, List.mem_cons, List.not_mem_nil, or_false] at hc
  rcases hc with rfl | rfl | rfl
  · exact ⟨hb, hp, hexponent⟩
  · cases hsi
  · cases hsi

theorem plain_of_offers {b : UnitDef Float} {p : Multiple Float} (h : Offers all b p) :
    (p.symbol ++ b.symbol).toList.head? ≠ some 'u' ∧
      ∀ v ∈ declaredUnits all, p.symbol ++ b.symbol ∉ v.aliases := by
  obtain ⟨hb, hp, hexponent⟩ := si_of_offers h
  rw [String.toList_append]
  constructor
  · obtain ⟨hsome, hne⟩ := head?_siMultiples p hp hexponent
    rwa [List.head?_append, Option.or_of_isSome hsome]
  · intro v hv hname
    refine drop_aliases_ne v hv _ hname p hp hexponent ?_ b hb ?_
    · rw [String.toList_append]
      exact List.prefix_append _ _
    · rw [String.toList_append, List.drop_left]

theorem defaults_default : (default : Registry Float).defaults = Layer.ofCatalogs all := by
  simp only [default, ofCatalogs, loadDefaults]

theorem separate_default : Layer.Separate (default : Registry Float).defaults := by
  rw [defaults_default]
  intro symbol hunit halias
  have hplain : symbol.toList.head? ≠ some 'u' ∧ ∀ v ∈ declaredUnits all, symbol ∉ v.aliases := by
    rcases Layer.exists_of_mem_units all hunit with ⟨u, hu, rfl⟩ | ⟨b, p, hoffers, rfl⟩
    · exact plain_of_declared u hu
    · exact plain_of_offers hoffers
  rcases Layer.exists_of_mem_aliases all halias with ⟨v, hv, hname⟩ | ⟨m, hmicro⟩
  · exact hplain.2 v hv hname
  · obtain ⟨c, cs, -, hname⟩ := Layer.asciiMicro?_eq_some_iff.mp hmicro
    exact hplain.1 (congrArg List.head? hname)

end

theorem linked_default : (default : Registry Float).Linked :=
  linked_of_empty_session (Layer.linked_ofCatalogs Catalog.all)

-- Whatever a session on the default catalogs does, its aliases are listed once each: its own and
-- those of the defaults that are none of its own. An alias stands for a unit of the symbol listed
-- beside it, but for an alias of the defaults that is the symbol of a session unit, which it then
-- stands for.
theorem find?_listed_alias {ops : List Operation} (hops : ∀ op ∈ ops, op.catalogs? = none) :
    ((default.edited ops).aliases.toList.map Prod.fst).Nodup ∧
    (default.edited ops).aliases.toList.Perm ((default.edited ops).session.aliases.toList ++
      (default.edited ops).defaults.aliases.toList.filter fun a =>
        a.1 ∉ (default.edited ops).session.aliases) ∧
    ∀ name symbol, (name, symbol) ∈ (default.edited ops).aliases.toList →
      ∃ u, (default.edited ops).find? name = some u ∧ u.symbol =
        if name ∈ (default.edited ops).session.units ∧
          name ∉ (default.edited ops).session.aliases then name else symbol := by
  have hdefaults := defaults_edited_of_no_catalogs (r := default) hops
  refine ⟨?_, toList_aliases_perm, fun name symbol hlisted => ?_⟩
  · rw [Std.ExtTreeMap.map_fst_toList_eq_keys]
    exact Std.ExtTreeMap.nodup_keys
  · refine exists_find?_of_alias (linked_edited hops linked_default)
      (keyed_edited hops Layer.keyed_empty) ?_ ?_
      (Std.ExtTreeMap.mem_toList_iff_getElem?_eq_some.mp hlisted)
    · rw [hdefaults, defaults_default]
      exact Layer.keyed_ofCatalogs Catalog.all
    · rw [hdefaults]
      exact separate_default

theorem edited_define_default (u : UnitDef Float) :
    default.edited [.define u false] = ⟨default.defaults, Layer.empty.add u⟩ := by
  have hdefine : default.define u false = .ok ⟨default.defaults, Layer.empty.add u⟩ := by
    rw [define, if_neg (by simp [default, ofCatalogs, loadDefaults, empty, Layer.empty])]
    rfl
  simp only [edited, List.foldl_cons, List.foldl_nil, snd_outcome_edit, after, perform, hdefine]

-- The aliases of the default catalogs that are none of a unit are listed still when a session has
-- defined the unit.
theorem listed_edited_default {name symbol : String} {u : UnitDef Float}
    (hname : name ∉ u.aliases)
    (hdeclared : (lastWithAlias? (declaredUnits Catalog.all) name).map UnitDef.symbol =
      some symbol) :
    (name, symbol) ∈ (default.edited [.define u false]).aliases.toList := by
  obtain ⟨v, hv, rfl⟩ := Option.map_eq_some_iff.mp hdeclared
  rw [edited_define_default, Std.ExtTreeMap.mem_toList_iff_getElem?_eq_some, getElem?_aliases,
    Layer.getElem?_aliases_add, if_neg hname, defaults_default,
    Layer.getElem?_aliases_of_declared Catalog.all hv]
  simp [Layer.empty]

theorem find?_listed_alias_metre :
    (∀ op ∈ [Operation.define (metres "meter" 2.0 ["metro"]) false], op.catalogs? = none) ∧
    ("metre", "m") ∈
      (default.edited [.define (metres "meter" 2.0 ["metro"]) false]).aliases.toList ∧
    ∃ u, (default.edited [.define (metres "meter" 2.0 ["metro"]) false]).find? "metre" = some u ∧
      u.symbol = "m" := by
  have hops : ∀ op ∈ [Operation.define (metres "meter" 2.0 ["metro"]) false],
      op.catalogs? = none := by
    simp [Operation.catalogs?]
  have hlisted : ("metre", "m") ∈
      (default.edited [.define (metres "meter" 2.0 ["metro"]) false]).aliases.toList :=
    listed_edited_default (by decide) (by rfl)
  obtain ⟨-, -, hnames⟩ := find?_listed_alias hops
  obtain ⟨u, hfind, hsymbol⟩ := hnames "metre" "m" hlisted
  refine ⟨hops, hlisted, u, hfind, hsymbol.trans (if_neg fun h => ?_)⟩
  rw [edited_define_default, Layer.mem_units_add] at h
  exact absurd h.1 (by simp [metres, UnitDef.withAliases, UnitDef.multiplicative, Layer.empty])

-- A session that defines a unit `meter` goes on to list that name as an alias of the metre.
theorem not_forall_find?_listed_alias :
    ¬ ∀ ops : List Operation, (∀ op ∈ ops, op.catalogs? = none) →
      ∀ name symbol, (name, symbol) ∈ (default.edited ops).aliases.toList →
        ∃ u, (default.edited ops).find? name = some u ∧ u.symbol = symbol := by
  intro h
  have hlisted : ("meter", "m") ∈
      (default.edited [.define (metres "meter" 2.0 []) false]).aliases.toList :=
    listed_edited_default (by decide) (by rfl)
  obtain ⟨u, hfind, hsymbol⟩ := h _ (by simp [Operation.catalogs?]) "meter" "m" hlisted
  have hown : (default.edited [.define (metres "meter" 2.0 []) false]).find? "meter" =
      some (metres "meter" 2.0 []) := by
    apply find?_of_canonical
    rw [edited_define_default, Layer.canonical_add, if_neg (by decide),
      Layer.getElem?_units_add, if_pos]
    simp [Layer.canonical, Layer.empty, metres, UnitDef.withAliases, UnitDef.multiplicative]
  rw [hown] at hfind
  cases hfind
  exact absurd hsymbol (by decide)

end Registry

end UnitCalc
