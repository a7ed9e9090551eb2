import UnitCalc.Proofs.Text.ByteOrder
import UnitCalc.Proofs.Units.Operation

namespace UnitCalc

theorem exists_of_bind_eq_ok {ε α β : Type} {x : Except ε α} {f : α → Except ε β} {b : β}
    (h : x >>= f = .ok b) : ∃ a, x = .ok a ∧ f a = .ok b := by
  cases x with
  | error e => cases h
  | ok a => exact ⟨a, rfl, h⟩

theorem foldlM_keeps {ε α β : Type} {P : α → Prop} {f : α → β → Except ε α} {bs : List β}
    {a a' : α} (hkept : ∀ b ∈ bs, ∀ a a', f a b = .ok a' → P a → P a')
    (h : bs.foldlM f a = .ok a') (ha : P a) : P a' := by
  induction bs generalizing a with
  | nil =>
      cases h
      exact ha
  | cons b bs ih =>
      rw [List.foldlM_cons] at h
      obtain ⟨next, hnext, hrest⟩ := exists_of_bind_eq_ok h
      have hnextKept := hkept b List.mem_cons_self a next hnext ha
      exact ih (fun b hb => hkept b (List.mem_cons_of_mem _ hb)) hrest hnextKept

namespace OverrideFile

-- The operations that a file stands for: its units in order, then its aliases by name.
def operations (f : OverrideFile) : Except UnitError (List Registry.Operation) := do
  let units ← f.units.mapM UnitEntry.define
  return units.map (.define · true) ++ f.aliases.toList.map fun a => .defineAlias a.1 a.2

-- A registry with the entries of a file, if all of them can be had.
def appliedTo (f : OverrideFile) (r : Registry Float) : Except UnitError (Registry Float) := do
  let r ← f.units.foldlM (fun r e => do r.define (← e.define) true) r
  f.aliases.toList.foldlM (fun r a => r.defineAlias a.1 a.2) r

-- Checking all units before the first is defined comes to the same when nothing fails.
theorem foldlM_units_eq_ok_iff {es : List UnitEntry} {r r' : Registry Float} :
    es.foldlM (fun r e => do r.define (← e.define) true) r = .ok r' ↔
      ∃ us, es.mapM UnitEntry.define = .ok us ∧
        us.foldlM (fun r u => r.define u true) r = .ok r' := by
  induction es generalizing r with
  | nil =>
      constructor
      · intro h
        exact ⟨[], rfl, h⟩
      · rintro ⟨us, hus, h⟩
        cases hus
        exact h
  | cons e es ih =>
      rw [List.foldlM_cons, List.mapM_cons]
      constructor
      · intro h
        obtain ⟨next, hfirst, hrest⟩ := exists_of_bind_eq_ok h
        obtain ⟨u, hu, hnext⟩ := exists_of_bind_eq_ok hfirst
        obtain ⟨us, hus, hdone⟩ := ih.mp hrest
        refine ⟨u :: us, ?_, ?_⟩
        · rw [hu, hus]
          rfl
        · rw [List.foldlM_cons, hnext]
          exact hdone
      · rintro ⟨us, hus, h⟩
        obtain ⟨u, hu, hmap⟩ := exists_of_bind_eq_ok hus
        obtain ⟨us', hus', hsame⟩ := exists_of_bind_eq_ok hmap
        cases hsame
        rw [List.foldlM_cons] at h
        obtain ⟨next, hnext, hdone⟩ := exists_of_bind_eq_ok h
        rw [hu]
        show r.define u true >>= _ = _
        rw [hnext]
        exact ih.mpr ⟨us', hus', hdone⟩

theorem define_of_entry {e : UnitEntry} {r r' : Registry Float}
    (h : (do r.define (← e.define) true) = .ok r') :
    ∃ u, e.define = .ok u ∧ r.define u true = .ok r' :=
  exists_of_bind_eq_ok h

-- A file keeps what the definitions of its entries keep.
theorem appliedTo_keeps_of_mem {f : OverrideFile} {r r' : Registry Float}
    {P : Registry Float → Prop}
    (hdefine : ∀ e ∈ f.units, ∀ u, e.define = .ok u →
      ∀ r r', r.define u true = .ok r' → P r → P r')
    (halias : ∀ name ∈ f.aliases, ∀ symbol r r', r.defineAlias name symbol = .ok r' → P r → P r')
    (h : f.appliedTo r = .ok r') (hr : P r) : P r' := by
  obtain ⟨next, hunits, haliases⟩ := exists_of_bind_eq_ok h
  have hentry (e : UnitEntry) (he : e ∈ f.units) (r r' : Registry Float)
      (h : (do r.define (← e.define) true) = .ok r') : P r → P r' := by
    obtain ⟨u, hu, hnext⟩ := define_of_entry h
    exact hdefine e he u hu r r' hnext
  have haliasEntry (a : String × String) (ha : a ∈ f.aliases.toList) (r r' : Registry Float)
      (h : r.defineAlias a.1 a.2 = .ok r') : P r → P r' := by
    have hname := Std.ExtTreeMap.mem_toList_iff_getElem?_eq_some.mp ha
    exact halias a.1 (Std.ExtTreeMap.mem_iff_isSome_getElem?.mpr (by simp [hname])) a.2 r r' h
  exact foldlM_keeps haliasEntry haliases (foldlM_keeps hentry hunits hr)

-- So it keeps what all definitions keep.
theorem appliedTo_keeps {f : OverrideFile} {r r' : Registry Float} {P : Registry Float → Prop}
    (hdefine : ∀ u overwrite r r', r.define u overwrite = .ok r' → P r → P r')
    (halias : ∀ name symbol r r', r.defineAlias name symbol = .ok r' → P r → P r')
    (h : f.appliedTo r = .ok r') (hr : P r) : P r' :=
  appliedTo_keeps_of_mem (fun _ _ u _ => hdefine u true) (fun name _ => halias name) h hr

theorem appliedTo_eq_ok_iff {f : OverrideFile} {r r' : Registry Float} :
    f.appliedTo r = .ok r' ↔
      ∃ ops, f.operations = .ok ops ∧ ops.foldlM Registry.perform r = .ok r' := by
  have hoperations (us : List (UnitDef Float)) :
      (us.map (Registry.Operation.define · true) ++ f.aliases.toList.map fun a =>
        Registry.Operation.defineAlias a.1 a.2).foldlM Registry.perform r =
      us.foldlM (fun r u => r.define u true) r >>= fun r =>
        f.aliases.toList.foldlM (fun r a => r.defineAlias a.1 a.2) r := by
    rw [List.foldlM_append, List.foldlM_map]
    congr
    funext next
    rw [List.foldlM_map]
    rfl
  constructor
  · intro h
    obtain ⟨next, hunits, haliases⟩ := exists_of_bind_eq_ok h
    obtain ⟨us, hus, hnext⟩ := foldlM_units_eq_ok_iff.mp hunits
    refine ⟨_, by rw [operations, hus]; rfl, ?_⟩
    rw [hoperations, hnext]
    exact haliases
  · rintro ⟨ops, hops, h⟩
    obtain ⟨us, hus, hsame⟩ := exists_of_bind_eq_ok hops
    cases hsame
    rw [hoperations] at h
    obtain ⟨next, hnext, haliases⟩ := exists_of_bind_eq_ok h
    rw [appliedTo, foldlM_units_eq_ok_iff.mpr ⟨us, hus, hnext⟩]
    exact haliases

end OverrideFile

namespace Edit

variable {β γ : Type}

theorem outcome_bind (edit : Edit β) (f : β → Edit γ) (r : Registry Float) :
    outcome (edit >>= f) r =
      match edit.outcome r with
      | (.ok b, r') => (f b).outcome r'
      | (.error e, r') => (.error e, r') := by
  unfold outcome ExceptT.run
  simp only [bind, ExceptT.bind, ExceptT.mk, StateT.bind, ExceptT.bindCont]
  cases edit r with
  | mk answer r' => cases answer <;> rfl

theorem outcome_tryCatch (edit : Edit β) (f : UnitError → Edit β) (r : Registry Float) :
    outcome (tryCatch edit f) r =
      match edit.outcome r with
      | (.ok b, r') => (.ok b, r')
      | (.error e, r') => (f e).outcome r' := by
  unfold outcome ExceptT.run
  simp only [tryCatch, tryCatchThe, MonadExceptOf.tryCatch, ExceptT.tryCatch, ExceptT.mk, bind,
    StateT.bind]
  cases edit r with
  | mk answer r' => cases answer <;> rfl

-- What is left of a registry that something is done to which may fail.
def answer (r : Registry Float) (b : β) :
    Except UnitError (Registry Float) → Except UnitError β × Registry Float
  | .ok r' => (.ok b, r')
  | .error e => (.error e, r)

theorem outcome_change (f : Registry Float → Except UnitError (Registry Float))
    (r : Registry Float) : outcome (change f) r = answer r () (f r) := by
  have hlift : outcome (liftM (f r) : Edit (Registry Float)) r =
      match f r with
      | .ok r' => (.ok r', r)
      | .error e => (.error e, r) := by
    cases f r <;> rfl
  have hget : outcome (get : Edit (Registry Float)) r = (.ok r, r) := rfl
  rw [change, outcome_bind, hget]
  simp only [outcome_bind, hlift]
  cases f r <;> rfl

theorem outcome_define (u : UnitDef Float) (overwrite : Bool) (r : Registry Float) :
    outcome (define u overwrite) r = answer r () (r.define u overwrite) :=
  outcome_change _ r

theorem outcome_defineAlias (name symbol : String) (r : Registry Float) :
    outcome (defineAlias name symbol) r = answer r () (r.defineAlias name symbol) :=
  outcome_change _ r

theorem outcome_aliasEntry (a : String × String) (r : Registry Float) :
    outcome (defineAlias a.1 a.2) r = answer r () (r.defineAlias a.1 a.2) :=
  outcome_defineAlias a.1 a.2 r

theorem outcome_entry (e : UnitEntry) (r : Registry Float) :
    outcome (do define (← e.define) true) r = answer r () (do r.define (← e.define) true) := by
  cases h : e.define with
  | error err => rfl
  | ok u => exact outcome_define u true r

section

variable {edit : β → Edit Unit} {f : Registry Float → β → Except UnitError (Registry Float)}
  {bs : List β} {r r' : Registry Float} {e : UnitError}

-- When every entry can be had, so can all of them, and they are counted.
theorem outcome_each_of_ok (hedit : ∀ b r, (edit b).outcome r = answer r () (f r b)) (n : Nat)
    (h : bs.foldlM f r = .ok r') : outcome (each edit n bs) r = (.ok (n + bs.length), r') := by
  induction bs generalizing n r with
  | nil =>
      cases h
      rfl
  | cons b bs ih =>
      rw [List.foldlM_cons] at h
      obtain ⟨next, hnext, hrest⟩ := exists_of_bind_eq_ok h
      have hcount : n + (b :: bs).length = n + 1 + bs.length := by
        rw [List.length_cons]
        omega
      rw [each, outcome_bind, hedit, hnext, hcount]
      exact ih (n + 1) hrest

-- When an entry fails, what the entries before it did is left. It has what every entry keeps.
theorem exists_outcome_each_of_error (hedit : ∀ b r, (edit b).outcome r = answer r () (f r b))
    {P : Registry Float → Prop} (hkept : ∀ b r r', f r b = .ok r' → P r → P r') (n : Nat)
    (h : bs.foldlM f r = .error e) (hr : P r) :
    ∃ left, outcome (each edit n bs) r = (.error e, left) ∧ P left := by
  induction bs generalizing n r with
  | nil => cases h
  | cons b bs ih =>
      rw [List.foldlM_cons] at h
      cases hb : f r b with
      | error err =>
          rw [hb] at h
          cases h
          refine ⟨r, ?_, hr⟩
          rw [each, outcome_bind, hedit, hb]
          rfl
      | ok next =>
          rw [hb] at h
          obtain ⟨left, hleft, hP⟩ := ih (n + 1) h (hkept b r next hb hr)
          refine ⟨left, ?_, hP⟩
          rw [each, outcome_bind, hedit, hb]
          exact hleft

end

theorem defaults_define {u : UnitDef Float} {overwrite : Bool} {r r' : Registry Float}
    (h : r.define u overwrite = .ok r') : r'.defaults = r.defaults := by
  unfold Registry.define at h
  split at h
  · cases h
  · cases h
    rfl

theorem defaults_defineAlias {name symbol : String} {r r' : Registry Float}
    (h : r.defineAlias name symbol = .ok r') : r'.defaults = r.defaults := by
  unfold Registry.defineAlias at h
  split at h
  · cases h
    rfl
  · cases h

variable {f : OverrideFile} {text : String} {r r' : Registry Float} {e : UnitError}

theorem outcome_file_of_ok (h : f.appliedTo r = .ok r') :
    outcome (file f) r = (.ok (f.units.length + f.aliases.size), r') := by
  obtain ⟨next, hunits, haliases⟩ := exists_of_bind_eq_ok h
  have hfirst := outcome_each_of_ok outcome_entry 0 hunits
  have hsecond := outcome_each_of_ok outcome_aliasEntry (0 + f.units.length)
    haliases
  rw [file, outcome_bind, hfirst]
  rw [Nat.zero_add, Std.ExtTreeMap.length_toList] at hsecond
  rw [Nat.zero_add]
  exact hsecond

-- What a file leaves when it fails differs in the session only.
theorem exists_outcome_file_of_error (h : f.appliedTo r = .error e) :
    ∃ left, outcome (file f) r = (.error e, left) ∧ left.defaults = r.defaults := by
  have hentry (e : UnitEntry) (next next' : Registry Float)
      (h : (do next.define (← e.define) true) = .ok next')
      (hnext : next.defaults = r.defaults) : next'.defaults = r.defaults := by
    obtain ⟨u, -, hu⟩ := OverrideFile.define_of_entry h
    exact (defaults_define hu).trans hnext
  have halias (a : String × String) (next next' : Registry Float)
      (h : next.defineAlias a.1 a.2 = .ok next')
      (hnext : next.defaults = r.defaults) : next'.defaults = r.defaults :=
    (defaults_defineAlias h).trans hnext
  unfold OverrideFile.appliedTo at h
  cases hunits : f.units.foldlM (fun r e => do r.define (← e.define) true) r with
  | error err =>
      rw [hunits] at h
      cases h
      obtain ⟨left, hleft, hsame⟩ :=
        exists_outcome_each_of_error outcome_entry hentry 0 hunits rfl
      refine ⟨left, ?_, hsame⟩
      rw [file, outcome_bind, hleft]
  | ok next =>
      rw [hunits] at h
      have hnext : next.defaults = r.defaults :=
        foldlM_keeps (P := fun next => next.defaults = r.defaults) (fun e _ => hentry e) hunits rfl
      obtain ⟨left, hleft, hsame⟩ := exists_outcome_each_of_error outcome_aliasEntry halias
        (0 + f.units.length) h hnext
      refine ⟨left, ?_, hsame⟩
      rw [file, outcome_bind, outcome_each_of_ok outcome_entry 0 hunits]
      exact hleft

theorem outcome_load_malformed (h : OverrideFile.read? text = none) :
    outcome (load text) r = (.error .malformedOverrides, r) := by
  rw [load, h]
  rfl

-- The session that was saved makes up for what a failing file left.
theorem outcome_load_file (h : OverrideFile.read? text = some f) :
    outcome (load text) r = answer r (f.units.length + f.aliases.size) (f.appliedTo r) := by
  have hget : outcome (get : Edit (Registry Float)) r = (.ok r, r) := rfl
  rw [load, h]
  simp only
  rw [outcome_bind, hget]
  simp only
  rw [outcome_tryCatch]
  cases happlied : f.appliedTo r with
  | ok r' =>
      rw [outcome_file_of_ok happlied]
      rfl
  | error e =>
      obtain ⟨left, hleft, hsame⟩ := exists_outcome_file_of_error happlied
      have hrestored : { left with session := r.session } = r := by
        rw [hsame]
      rw [hleft]
      show (Except.error e, { left with session := r.session }) = _
      rw [hrestored]
      rfl

theorem eq_of_answer_eq_error {b : β} {x : Except UnitError (Registry Float)}
    (h : answer r b x = (.error e, r')) : r' = r := by
  cases x with
  | ok next => cases h
  | error err =>
      cases h
      rfl

theorem answer_eq_ok_iff {b c : β} {x : Except UnitError (Registry Float)} :
    answer r b x = (.ok c, r') ↔ c = b ∧ x = .ok r' := by
  cases x with
  | ok next => simp [answer, eq_comm]
  | error err => simp [answer]

-- The names of a table's entries are in order of their bytes.
theorem pairwise_keys_precedes {α : Type} (t : Table α) :
    (t.toList.map Prod.fst).Pairwise Text.Precedes := by
  rw [List.pairwise_map]
  exact t.ordered_keys_toList.imp Text.precedes_of_compare

theorem eq_of_outcome_load_eq_error (h : (load text).outcome r = (.error e, r')) : r' = r := by
  cases hread : OverrideFile.read? text with
  | none =>
      rw [outcome_load_malformed hread] at h
      cases h
      rfl
  | some f =>
      rw [outcome_load_file hread] at h
      exact eq_of_answer_eq_error h

-- Either a text is applied as a whole, which is to define its units in their order and then its
-- aliases in the order of their names, or the registry is as before. A single definition that
-- fails does not change it either.
theorem load_all_or_nothing (r : Registry Float) (text : String) :
    (∀ e r', (load text).outcome r = (.error e, r') → r' = r) ∧
    (∀ n r', (load text).outcome r = (.ok n, r') ↔
      ∃ f ops, OverrideFile.read? text = some f ∧ f.operations = .ok ops ∧
        n = f.units.length + f.aliases.size ∧ ops.foldlM Registry.perform r = .ok r') ∧
    (∀ f, OverrideFile.read? text = some f →
      (f.aliases.toList.map Prod.fst).Pairwise Text.Precedes) ∧
    (∀ u overwrite e r', (define u overwrite).outcome r = (.error e, r') → r' = r) ∧
    (∀ name symbol e r', (defineAlias name symbol).outcome r = (.error e, r') → r' = r) := by
  refine ⟨fun e r' => eq_of_outcome_load_eq_error, ?_,
    fun f _ => pairwise_keys_precedes f.aliases, ?_, ?_⟩
  · intro n r'
    cases hread : OverrideFile.read? text with
    | none => simp [outcome_load_malformed hread]
    | some f =>
        rw [outcome_load_file hread, answer_eq_ok_iff, OverrideFile.appliedTo_eq_ok_iff]
        constructor
        · rintro ⟨hn, ops, hops, hrun⟩
          exact ⟨f, ops, rfl, hops, hn, hrun⟩
        · rintro ⟨f', ops, hsame, hops, hn, hrun⟩
          cases hsame
          exact ⟨hn, ops, hops, hrun⟩
  · intro u overwrite e r' h
    rw [outcome_define] at h
    exact eq_of_answer_eq_error h
  · intro name symbol e r' h
    rw [outcome_defineAlias] at h
    exact eq_of_answer_eq_error h

end Edit

namespace Registry

theorem appliedTo_of_loadOverrides {r r' : Registry Float} {text : String}
    (h : r.perform (.loadOverrides text) = .ok r') :
    ∃ f, OverrideFile.read? text = some f ∧ f.appliedTo r = .ok r' := by
  rw [perform, loadOverrides] at h
  cases hread : OverrideFile.read? text with
  | none =>
      rw [Edit.outcome_load_malformed hread] at h
      cases h
  | some f =>
      refine ⟨f, rfl, ?_⟩
      rw [Edit.outcome_load_file hread] at h
      cases happlied : f.appliedTo r with
      | error e =>
          rw [happlied] at h
          cases h
      | ok next =>
          rw [happlied] at h
          cases h
          rfl

-- Operations that load no catalogs keep what definitions and a rollback keep.
theorem perform_keeps {P : Registry Float → Prop}
    (hdefine : ∀ u overwrite r r', r.define u overwrite = .ok r' → P r → P r')
    (halias : ∀ name symbol r r', r.defineAlias name symbol = .ok r' → P r → P r')
    (hrollback : ∀ r, P r → P r.rollback) {op : Operation}
    (hop : ∀ catalogs, op ≠ .loadDefaults catalogs) {r r' : Registry Float}
    (h : r.perform op = .ok r') (hr : P r) : P r' := by
  cases op with
  | loadDefaults catalogs => exact absurd rfl (hop catalogs)
  | define u overwrite => exact hdefine u overwrite r r' h hr
  | defineAlias name symbol => exact halias name symbol r r' h hr
  | loadOverrides text =>
      obtain ⟨f, -, happlied⟩ := appliedTo_of_loadOverrides h
      exact OverrideFile.appliedTo_keeps hdefine halias happlied hr
  | rollback =>
      cases h
      exact hrollback r hr

-- An operation in place.
def Operation.edit : Operation → Edit Unit
  | .loadDefaults catalogs => modify fun r => r.loadDefaults catalogs
  | .define u overwrite => Edit.define u overwrite
  | .defineAlias name symbol => Edit.defineAlias name symbol
  | .loadOverrides text => do let _ ← Edit.load text
  | .rollback => modify fun r => r.rollback

open Edit in
theorem outcome_edit (op : Operation) (r : Registry Float) :
    op.edit.outcome r = Edit.answer r () (r.perform op) := by
  cases op with
  | loadDefaults catalogs => rfl
  | define u overwrite => exact Edit.outcome_define u overwrite r
  | defineAlias name symbol => exact Edit.outcome_defineAlias name symbol r
  | loadOverrides text =>
      rw [Operation.edit, outcome_bind, perform, loadOverrides]
      cases h : (Edit.load text).outcome r with
      | mk x r' =>
          cases x with
          | ok n => rfl
          | error e =>
              cases eq_of_outcome_load_eq_error h
              rfl
  | rollback => rfl

-- Done in place, an operation that fails changes nothing.
theorem snd_outcome_edit (op : Operation) (r : Registry Float) :
    (op.edit.outcome r).2 = r.after op := by
  rw [outcome_edit, after]
  cases r.perform op <;> rfl

end Registry

end UnitCalc
