import Mathlib.Tactic.Tauto
import UnitCalc.Proofs.Units.Definition
import UnitCalc.Proofs.Units.Edit

namespace UnitCalc

theorem pairwise_sortNames_lt {names : List String} :
    (sortNames names).Pairwise fun a b => compare a b = .lt :=
  (Std.ExtTreeSet.ofList _ _).ordered_toList

namespace Layer

variable {α : Type} {l : Layer α} {u : UnitDef α} {name symbol : String}

-- Whether every alias of a layer leads to one of its units.
def Linked (l : Layer α) : Prop :=
  ∀ name symbol : String, l.aliases[name]? = some symbol → symbol ∈ l.units

theorem linked_empty : Linked (empty : Layer α) := by
  intro name symbol h
  simp [empty] at h

theorem mem_units_add : symbol ∈ (l.add u).units ↔ symbol = u.symbol ∨ symbol ∈ l.units := by
  rw [units_add, Std.ExtTreeMap.mem_insert, Std.LawfulEqCmp.compare_eq_iff_eq, eq_comm]

theorem linked_add (h : Linked l) : Linked (l.add u) := by
  intro name symbol hname
  rw [getElem?_aliases_add] at hname
  rw [mem_units_add]
  split at hname
  · exact .inl (Option.some.inj hname).symm
  · exact .inr (h name symbol hname)

theorem linked_addNew (h : Linked l) : Linked (l.addNew u) := by
  unfold addNew
  split
  · exact h
  · exact linked_add h

theorem linked_addMultiples [Mul α] (h : Linked l) (us : List (UnitDef α))
    (multiples : List (Multiple α)) : Linked (l.addMultiples us multiples) :=
  List.foldlRecOn _ _ h fun _ h _ _ =>
    List.foldlRecOn _ _ h fun _ h _ _ => linked_addNew h

theorem linked_addCatalog [Mul α] (h : Linked l) (c : Catalog α) : Linked (l.addCatalog c) := by
  have hdeclared : Linked (c.units.foldl add l) :=
    List.foldlRecOn _ _ h fun _ h _ _ => linked_add h
  unfold addCatalog
  split
  · exact linked_addMultiples hdeclared c.units c.multiples
  · exact hdeclared

theorem units_addMicroAlias : (l.addMicroAlias symbol).units = l.units := by
  unfold addMicroAlias
  split <;> rfl

theorem linked_addMicroAlias (h : Linked l) (hsymbol : symbol ∈ l.units) :
    Linked (l.addMicroAlias symbol) := by
  intro name target hname
  rw [units_addMicroAlias]
  unfold addMicroAlias at hname
  split at hname
  · rw [Std.ExtTreeMap.getElem?_insertIfNew] at hname
    split at hname
    · cases hname
      exact hsymbol
    · exact h name target hname
  · exact h name target hname

theorem linked_ofCatalogs [Mul α] (catalogs : List (Catalog α)) : Linked (ofCatalogs catalogs) := by
  have hdeclared : Linked (catalogs.foldl addCatalog empty) :=
    List.foldlRecOn _ _ linked_empty fun _ h c _ => linked_addCatalog h c
  unfold ofCatalogs
  generalize catalogs.foldl addCatalog empty = declared at hdeclared ⊢
  -- The aliases are added to the units that they are made of.
  have hboth : Linked (declared.units.keys.foldl addMicroAlias declared) ∧
      (declared.units.keys.foldl addMicroAlias declared).units = declared.units := by
    refine List.foldlRecOn (motive := fun l => Linked l ∧ l.units = declared.units) _ _
      ⟨hdeclared, rfl⟩ ?_
    rintro l ⟨hlinked, hunits⟩ symbol hsymbol
    refine ⟨linked_addMicroAlias hlinked ?_, units_addMicroAlias.trans hunits⟩
    rw [hunits]
    exact Std.ExtTreeMap.mem_keys.mp hsymbol
  exact hboth.1

theorem getElem?_aliases_of_mem (h : name ∈ l.aliases) :
    l.aliases[name]? = some (l.canonical name) := by
  rw [canonical, Std.ExtTreeMap.getElem?_eq_some_getElem h]
  rfl

theorem canonical_of_not_mem (h : name ∉ l.aliases) : l.canonical name = name := by
  rw [canonical, Std.ExtTreeMap.getElem?_eq_none h]
  rfl

-- The names of a layer lead to its units, and no other names do.
theorem canonical_mem_units_iff (h : Linked l) :
    l.canonical name ∈ l.units ↔ name ∈ l.units ∨ name ∈ l.aliases := by
  by_cases hname : name ∈ l.aliases
  · have hsymbol := h name _ (getElem?_aliases_of_mem hname)
    simp [hname, hsymbol]
  · simp [hname, canonical_of_not_mem hname]

end Layer

namespace Registry

section

variable {α : Type} {r r' : Registry α} {name symbol : String}

-- Whether every alias leads to a unit, which for one of the defaults is a default.
structure Linked (r : Registry α) : Prop where
  defaults : r.defaults.Linked
  session : ∀ name symbol : String, r.session.aliases[name]? = some symbol →
    symbol ∈ r.session.units ∨ symbol ∈ r.defaults.units

theorem linked_of_empty_session {l : Layer α} (h : l.Linked) : Linked ⟨l, .empty⟩ := by
  refine ⟨h, ?_⟩
  intro name symbol hname
  simp [Layer.empty] at hname

theorem linked_define {u : UnitDef α} {overwrite : Bool} (h : r.define u overwrite = .ok r')
    (hr : Linked r) : Linked r' := by
  obtain rfl := eq_of_define h
  refine ⟨hr.defaults, ?_⟩
  intro name symbol hname
  rw [Layer.getElem?_aliases_add] at hname
  rw [Layer.mem_units_add]
  split at hname
  · exact .inl (.inl (Option.some.inj hname).symm)
  · rcases hr.session name symbol hname with hsession | hdefault
    · exact .inl (.inr hsession)
    · exact .inr hdefault

theorem linked_defineAlias (h : r.defineAlias name symbol = .ok r') (hr : Linked r) :
    Linked r' := by
  unfold defineAlias at h
  split at h
  case isFalse => cases h
  case isTrue hsymbol =>
    cases h
    refine ⟨hr.defaults, ?_⟩
    intro name' symbol' hname
    rw [Layer.addAlias, Std.ExtTreeMap.getElem?_insert] at hname
    split at hname
    · cases hname
      simpa [Layer.addAlias] using hsymbol
    · exact hr.session name' symbol' hname

theorem linked_rollback (hr : Linked r) : Linked r.rollback :=
  linked_of_empty_session hr.defaults

-- A name stands for a unit if it leads to one of the session, or from there to a default.
theorem isSome_find?_iff :
    (r.find? name).isSome ↔ r.session.canonical name ∈ r.session.units ∨
      r.defaults.canonical (r.session.canonical name) ∈ r.defaults.units := by
  unfold find?
  generalize r.session.canonical name = symbol
  by_cases hsession : symbol ∈ r.session.units <;> simp [hsession]

theorem mem_symbols_iff : name ∈ r.symbols ↔ name ∈ r.defaults.units ∨ name ∈ r.session.units := by
  simp [symbols, mem_sortNames]

theorem mem_foldl_insert (entries : List (String × String)) (t : Table String) :
    name ∈ entries.foldl (fun t e => t.insert e.1 e.2) t ↔
      name ∈ entries.map Prod.fst ∨ name ∈ t := by
  induction entries generalizing t with
  | nil => simp
  | cons e entries ih =>
      rw [List.foldl_cons, ih, Std.ExtTreeMap.mem_insert, Std.LawfulEqCmp.compare_eq_iff_eq,
        List.map_cons, List.mem_cons]
      tauto

theorem mem_aliases_iff :
    name ∈ r.aliases ↔ name ∈ r.session.aliases ∨ name ∈ r.defaults.aliases := by
  rw [aliases, Std.ExtTreeMap.foldl_eq_foldl_toList, mem_foldl_insert,
    Std.ExtTreeMap.map_fst_toList_eq_keys, Std.ExtTreeMap.mem_keys]

theorem isSome_find?_iff_listed (hr : Linked r) :
    (r.find? name).isSome ↔ name ∈ r.symbols ∨ name ∈ r.aliases := by
  rw [isSome_find?_iff, mem_symbols_iff, mem_aliases_iff, Layer.canonical_mem_units_iff hr.defaults]
  by_cases hname : name ∈ r.session.aliases
  · have htarget := hr.session name _ (Layer.getElem?_aliases_of_mem hname)
    tauto
  · rw [Layer.canonical_of_not_mem hname]
    tauto

theorem pairwise_symbols_lt : r.symbols.Pairwise fun a b => compare a b = .lt :=
  pairwise_sortNames_lt

theorem nodup_symbols : r.symbols.Nodup := by
  refine pairwise_symbols_lt.imp fun {a b} hlt => ?_
  rintro rfl
  simp at hlt

-- The symbols of both layers, each counted once, are those that are listed.
theorem size_eq_length_symbols : r.size = r.symbols.length := by
  let fresh := r.session.units.keys.filter fun symbol => !r.defaults.units.contains symbol
  have hkeys : (r.defaults.units.keys ++ fresh).Nodup := by
    refine List.nodup_append.mpr
      ⟨Std.ExtTreeMap.nodup_keys, Std.ExtTreeMap.nodup_keys.filter _, ?_⟩
    rintro a ha b hb rfl
    have hnot := (List.mem_filter.mp hb).2
    have hcontains : r.defaults.units.contains a :=
      Std.ExtTreeMap.contains_iff_mem.mpr (Std.ExtTreeMap.mem_keys.mp ha)
    simp [hcontains] at hnot
  have hperm : (r.defaults.units.keys ++ fresh).Perm r.symbols := by
    refine (List.perm_ext_iff_of_nodup hkeys nodup_symbols).mpr fun name => ?_
    rw [mem_symbols_iff]
    by_cases hname : name ∈ r.defaults.units
    · simp [hname]
    · have hcontains : r.defaults.units.contains name = false := by
        rw [← Bool.not_eq_true, Std.ExtTreeMap.contains_iff_mem]
        exact hname
      simp [fresh, hname, hcontains]
  rw [← hperm.length_eq, List.length_append, Std.ExtTreeMap.length_keys]
  rfl

end

section

variable {r r' : Registry Float}

theorem linked_perform {op : Operation} (hop : ∀ catalogs, op ≠ .loadDefaults catalogs)
    (h : r.perform op = .ok r') (hr : Linked r) : Linked r' :=
  perform_keeps (fun _ _ _ _ => linked_define) (fun _ _ _ _ => linked_defineAlias)
    (fun _ => linked_rollback) hop h hr

-- The registries of a session, which loads the defaults at first if at all. An operation that fails
-- is one of its steps too.
inductive OfSession : Registry Float → Prop where
  | empty : OfSession .empty
  | ofCatalogs (catalogs : List (Catalog Float)) : OfSession (.ofCatalogs catalogs)
  | step {r : Registry Float} (hr : OfSession r) (op : Operation)
      (hop : ∀ catalogs, op ≠ .loadDefaults catalogs) : OfSession (op.edit.outcome r).2

theorem linked_of_session (h : OfSession r) : Linked r := by
  induction h with
  | empty => exact linked_of_empty_session Layer.linked_empty
  | ofCatalogs catalogs => exact linked_of_empty_session (Layer.linked_ofCatalogs catalogs)
  | @step r _ op hop hr =>
      rw [snd_outcome_edit, after]
      cases hperform : r.perform op with
      | ok next => exact linked_perform hop hperform hr
      | error e => exact hr

-- In a session the names that stand for units are those that are listed. Symbols are listed in the
-- order of their bytes, as many as are counted.
theorem listed_iff_of_session (h : OfSession r) :
    (∀ name, (r.find? name).isSome ↔ name ∈ r.symbols ∨ name ∈ r.aliases) ∧
    r.symbols.Pairwise Text.Precedes ∧ r.size = r.symbols.length :=
  ⟨fun _ => isSome_find?_iff_listed (linked_of_session h),
    pairwise_symbols_lt.imp Text.precedes_of_compare, size_eq_length_symbols⟩

end

-- A session on a catalog of the metre alone, which defines a unit and then fails to define it anew.
def metresSession : Registry Float :=
  let start : Registry Float := .ofCatalogs [⟨.si, [], [metres "m" 1.0 ["metre"]]⟩]
  let defined := ((Operation.define (metres "x" 3.0 ["ex"]) false).edit.outcome start).2
  ((Operation.define (metres "x" 4.0 ["why"]) false).edit.outcome defined).2

theorem session_metresSession :
    metresSession.session = Layer.empty.add (metres "x" 3.0 ["ex"]) := by
  unfold metresSession
  generalize hstart : Registry.ofCatalogs (α := Float) _ = start
  have hempty : start.session = .empty := by
    rw [← hstart]
    rfl
  have hfirst : start.define (metres "x" 3.0 ["ex"]) false =
      .ok { start with session := Layer.empty.add (metres "x" 3.0 ["ex"]) } := by
    simp [define, hempty, Layer.empty]
  have hsymbol : (Layer.empty.add (metres "x" 3.0 ["ex"])).units.contains "x" := by
    rw [Layer.units_add]
    exact Std.ExtTreeMap.contains_insert_self
  have hsecond : Registry.define { start with session := Layer.empty.add (metres "x" 3.0 ["ex"]) }
      (metres "x" 4.0 ["why"]) false = .error (.overrideExists "x") := by
    unfold define
    rw [if_pos]
    · rfl
    · exact hsymbol
  simp only [outcome_edit, perform, hfirst, hsecond, Edit.answer]

theorem listed_iff_of_session_metres :
    OfSession metresSession ∧
    ("ex" ∈ metresSession.symbols ∨ "ex" ∈ metresSession.aliases) ∧
    metresSession.size = metresSession.symbols.length := by
  have hsession : OfSession metresSession :=
    .step (.step (.ofCatalogs _) _ (by simp)) _ (by simp)
  obtain ⟨hlisted, -, hsize⟩ := listed_iff_of_session hsession
  have hfind : metresSession.find? "ex" = some (metres "x" 3.0 ["ex"]) := by
    apply find?_of_canonical
    rw [session_metresSession, Layer.canonical, Layer.getElem?_aliases_add, if_pos (by decide),
      Option.getD_some, Layer.getElem?_units_add, if_pos rfl]
  refine ⟨hsession, (hlisted "ex").mp ?_, hsize⟩
  rw [hfind]
  rfl

end Registry

end UnitCalc
