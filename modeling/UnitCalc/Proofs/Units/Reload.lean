import UnitCalc.Proofs.Units.Definition
import UnitCalc.Proofs.Units.Edit

namespace UnitCalc

-- Entries that are written once more leave a table as it is.
theorem foldl_insert_again {β : Type} (entries : List (String × β)) (t : Table β) :
    entries.foldl (fun t e => t.insert e.1 e.2) (entries.foldl (fun t e => t.insert e.1 e.2) t) =
      entries.foldl (fun t e => t.insert e.1 e.2) t := by
  ext1 name
  rw [getElem?_foldl_insert_entries, getElem?_foldl_insert_entries, ← Option.or_assoc,
    Option.or_self]

namespace Layer

variable {α : Type}

-- The aliases of some units in order, each with the symbol that it stands for.
def aliasEntries (us : List (UnitDef α)) : List (String × String) :=
  us.flatMap fun u => u.aliases.map fun name => (name, u.symbol)

-- Adds units in order and then aliases with their symbols.
def addAll (l : Layer α) (us : List (UnitDef α)) (names : List (String × String)) : Layer α :=
  names.foldl (fun l a => l.addAlias a.1 a.2) (us.foldl add l)

theorem foldl_addAlias_entries (names : List (String × String)) (l : Layer α) :
    names.foldl (fun l a => l.addAlias a.1 a.2) l =
      { l with aliases := names.foldl (fun t a => t.insert a.1 a.2) l.aliases } := by
  induction names generalizing l with
  | nil => rfl
  | cons a names ih => rw [List.foldl_cons, ih]; rfl

theorem foldl_add_entries (us : List (UnitDef α)) (l : Layer α) :
    us.foldl add l =
      { units := (us.map fun u => (u.symbol, u)).foldl (fun t e => t.insert e.1 e.2) l.units
        aliases := (aliasEntries us).foldl (fun t e => t.insert e.1 e.2) l.aliases } := by
  induction us generalizing l with
  | nil => rfl
  | cons u us ih =>
      simp only [List.foldl_cons, ih, units_add, aliases_add, aliasEntries, List.flatMap_cons,
        List.foldl_append, List.foldl_map, List.map_cons]

-- Each table takes the entries that are meant for it, whatever the other one holds.
theorem addAll_eq (l : Layer α) (us : List (UnitDef α)) (names : List (String × String)) :
    l.addAll us names =
      { units := (us.map fun u => (u.symbol, u)).foldl (fun t e => t.insert e.1 e.2) l.units
        aliases := (aliasEntries us ++ names).foldl (fun t e => t.insert e.1 e.2) l.aliases } := by
  rw [addAll, foldl_addAlias_entries, foldl_add_entries, List.foldl_append]

theorem units_foldl_add_addAll (l : Layer α) (us : List (UnitDef α))
    (names : List (String × String)) :
    (us.foldl add (l.addAll us names)).units = (us.foldl add l).units := by
  rw [foldl_add_entries, foldl_add_entries, addAll_eq, foldl_insert_again]

theorem addAll_again (l : Layer α) (us : List (UnitDef α)) (names : List (String × String)) :
    (l.addAll us names).addAll us names = l.addAll us names := by
  rw [addAll_eq, addAll_eq, foldl_insert_again, foldl_insert_again]

end Layer

namespace Registry

variable {α : Type} {r r' : Registry α}

-- Whether a symbol has a unit in either layer.
def HasUnit (r : Registry α) (symbol : String) : Prop :=
  symbol ∈ r.session.units ∨ symbol ∈ r.defaults.units

theorem foldlM_define (us : List (UnitDef α)) (r : Registry α) :
    us.foldlM (fun r u => r.define u true) r =
      .ok { r with session := us.foldl Layer.add r.session } := by
  induction us generalizing r with
  | nil => rfl
  | cons u us ih =>
      rw [List.foldlM_cons]
      exact ih { r with session := r.session.add u }

theorem defineAlias_eq_ok_iff {name symbol : String} :
    r.defineAlias name symbol = .ok r' ↔
      r.HasUnit symbol ∧ r' = { r with session := r.session.addAlias name symbol } := by
  unfold defineAlias HasUnit
  simp only [Bool.or_eq_true, Std.ExtTreeMap.contains_iff_mem]
  split
  case isTrue h => simp [h, eq_comm]
  case isFalse h => simp [h]

-- Aliases change no units, so the units that they are for can be looked for all at once.
theorem foldlM_defineAlias_eq_ok_iff {names : List (String × String)} :
    names.foldlM (fun r a => r.defineAlias a.1 a.2) r = .ok r' ↔
      (∀ a ∈ names, r.HasUnit a.2) ∧
        r' = { r with session := names.foldl (fun l a => l.addAlias a.1 a.2) r.session } := by
  induction names generalizing r with
  | nil => simp [pure, Except.pure, eq_comm]
  | cons a names ih =>
      rw [List.foldlM_cons, List.forall_mem_cons, and_assoc]
      constructor
      · intro h
        obtain ⟨next, hfirst, hrest⟩ := exists_of_bind_eq_ok h
        obtain ⟨hunit, rfl⟩ := defineAlias_eq_ok_iff.mp hfirst
        exact ⟨hunit, ih.mp hrest⟩
      · rintro ⟨hunit, hrest⟩
        rw [defineAlias_eq_ok_iff.mpr ⟨hunit, rfl⟩]
        exact ih.mpr hrest

end Registry

namespace OverrideFile

variable {f : OverrideFile} {r r' : Registry Float}

-- A file can be applied when its units are sound and its aliases are for units, its own included.
theorem appliedTo_eq_ok_iff_addAll :
    f.appliedTo r = .ok r' ↔ ∃ us, f.units.mapM UnitEntry.define = .ok us ∧
      (∀ a ∈ f.aliases.toList,
        Registry.HasUnit { r with session := us.foldl Layer.add r.session } a.2) ∧
      r' = { r with session := r.session.addAll us f.aliases.toList } := by
  have hunits (us : List (UnitDef Float)) (next : Registry Float) :
      us.foldlM (fun r u => r.define u true) r = .ok next ↔
        next = { r with session := us.foldl Layer.add r.session } := by
    rw [Registry.foldlM_define, Except.ok.injEq, eq_comm]
  constructor
  · intro h
    obtain ⟨next, hfirst, hrest⟩ := exists_of_bind_eq_ok h
    obtain ⟨us, hus, hnext⟩ := foldlM_units_eq_ok_iff.mp hfirst
    obtain rfl := (hunits us next).mp hnext
    exact ⟨us, hus, Registry.foldlM_defineAlias_eq_ok_iff.mp hrest⟩
  · rintro ⟨us, hus, hrest⟩
    rw [appliedTo, foldlM_units_eq_ok_iff.mpr ⟨us, hus, (hunits us _).mpr rfl⟩]
    exact Registry.foldlM_defineAlias_eq_ok_iff.mpr hrest

theorem appliedTo_again (h : f.appliedTo r = .ok r') : f.appliedTo r' = .ok r' := by
  obtain ⟨us, hus, hfound, rfl⟩ := appliedTo_eq_ok_iff_addAll.mp h
  refine appliedTo_eq_ok_iff_addAll.mpr ⟨us, hus, fun a ha => ?_, ?_⟩
  · rw [Registry.HasUnit, Layer.units_foldl_add_addAll]
    exact hfound a ha
  · rw [Layer.addAll_again]

end OverrideFile

namespace Edit

-- A text that has been applied can be applied again, with as many entries, and the registry stays
-- as it is.
theorem load_again {r r' : Registry Float} {text : String} {n : Nat}
    (h : (load text).outcome r = (.ok n, r')) : (load text).outcome r' = (.ok n, r') := by
  cases hread : OverrideFile.read? text with
  | none =>
      rw [outcome_load_malformed hread] at h
      cases h
  | some f =>
      rw [outcome_load_file hread, answer_eq_ok_iff] at h ⊢
      exact ⟨h.1, OverrideFile.appliedTo_again h.2⟩

end Edit

def onlyMetres : Registry Float :=
  ⟨Layer.empty.add (Registry.metres "m" 1 []), .empty⟩

-- A file whose entries stand in one another's way: it has two units `ft`, two units share the alias
-- `foot`, and `pied` is an alias of a unit and also one by itself.
def rivalFeet : String :=
  "\x7b\"units\": [\x7b\"symbol\": \"ft\", \"scale\": 2, \"aliases\": [\"foot\", \"pied\"]\x7d, " ++
    "\x7b\"symbol\": \"ft\", \"scale\": 3\x7d, " ++
    "\x7b\"symbol\": \"fod\", \"scale\": 4, \"aliases\": [\"foot\"]\x7d], " ++
    "\"aliases\": \x7b\"pied\": \"m\"\x7d\x7d"

theorem Edit.load_again_rivalFeet :
    ∃ r', (Edit.load rivalFeet).outcome onlyMetres = (.ok 4, r') ∧
      (Edit.load rivalFeet).outcome r' = (.ok 4, r') := by
  have hcount : ((Edit.load rivalFeet).outcome onlyMetres).1 = .ok 4 := by decide +kernel
  cases hload : (Edit.load rivalFeet).outcome onlyMetres with
  | mk answer r' =>
      rw [hload] at hcount
      obtain rfl : answer = .ok 4 := hcount
      exact ⟨r', rfl, load_again hload⟩

end UnitCalc
