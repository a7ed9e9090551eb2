import UnitCalc.Dimension.Named
import UnitCalc.Proofs.Units.Operation

namespace UnitCalc

theorem getElem?_foldl_insert (names : List String) (symbol : String) (t : Table String)
    (name : String) :
    (names.foldl (fun t name => t.insert name symbol) t)[name]? =
      if name ∈ names then some symbol else t[name]? := by
  induction names generalizing t with
  | nil => simp
  | cons first names ih =>
      rw [List.foldl_cons, ih, Std.ExtTreeMap.getElem?_insert]
      by_cases hmem : name ∈ names
      · simp [hmem]
      · by_cases hfirst : first = name
        · simp [hfirst]
        · simp [hmem, hfirst, Ne.symm hfirst]

-- Of several entries under one name the last one counts.
theorem getElem?_foldl_insert_entries {β : Type} (entries : List (String × β)) (t : Table β)
    (name : String) :
    (entries.foldl (fun t e => t.insert e.1 e.2) t)[name]? =
      ((entries.reverse.find? fun e => e.1 = name).map Prod.snd).or t[name]? := by
  induction entries generalizing t with
  | nil => simp
  | cons e entries ih =>
      rw [List.foldl_cons, ih, Std.ExtTreeMap.getElem?_insert, List.reverse_cons,
        List.find?_append]
      by_cases he : e.1 = name
      · cases entries.reverse.find? fun e => e.1 = name <;> simp [he]
      · simp [he]

namespace Layer

variable {α : Type}

theorem getElem?_aliases_add (l : Layer α) (u : UnitDef α) (name : String) :
    (l.add u).aliases[name]? = if name ∈ u.aliases then some u.symbol else l.aliases[name]? := by
  rw [aliases_add, getElem?_foldl_insert]

theorem getElem?_units_add (l : Layer α) (u : UnitDef α) (symbol : String) :
    (l.add u).units[symbol]? = if u.symbol = symbol then some u else l.units[symbol]? := by
  rw [units_add, Std.ExtTreeMap.getElem?_insert]
  simp

theorem canonical_add (l : Layer α) (u : UnitDef α) (name : String) :
    (l.add u).canonical name = if name ∈ u.aliases then u.symbol else l.canonical name := by
  rw [canonical, getElem?_aliases_add]
  split <;> rfl

end Layer

namespace Registry

variable {α : Type} {r r' : Registry α} {u : UnitDef α} {overwrite : Bool}

theorem eq_of_define (h : r.define u overwrite = .ok r') :
    r' = { r with session := r.session.add u } := by
  unfold define at h
  split at h
  · cases h
  · cases h
    rfl

-- A name that leads to the symbol of a session unit stands for that unit.
theorem find?_of_canonical {name : String}
    (h : r.session.units[r.session.canonical name]? = some u) : r.find? name = some u := by
  simp [find?, h]

-- Other names are those of the defaults.
theorem find?_of_canonical_not_mem {name : String}
    (h : r.session.canonical name ∉ r.session.units) :
    r.find? name = r.defaults.units[r.defaults.canonical (r.session.canonical name)]? := by
  simp [find?, h]

theorem find?_define_alias (h : r.define u overwrite = .ok r') {name : String}
    (hname : name ∈ u.aliases) : r'.find? name = some u := by
  obtain rfl := eq_of_define h
  apply find?_of_canonical
  rw [Layer.canonical_add, if_pos hname, Layer.getElem?_units_add, if_pos rfl]

-- Names that are no aliases of a new unit lead to the same symbols as before.
theorem canonical_define (h : r.define u overwrite = .ok r') {name : String}
    (hname : name ∉ u.aliases) : r'.session.canonical name = r.session.canonical name := by
  obtain rfl := eq_of_define h
  rw [Layer.canonical_add, if_neg hname]

theorem find?_define_symbol (h : r.define u overwrite = .ok r')
    (hcanonical : r'.session.canonical u.symbol = u.symbol) : r'.find? u.symbol = some u := by
  obtain rfl := eq_of_define h
  apply find?_of_canonical
  rw [hcanonical, Layer.getElem?_units_add, if_pos rfl]

theorem find?_define_of_ne (h : r.define u overwrite = .ok r') {name : String}
    (hname : name ∉ u.aliases) (hne : r.session.canonical name ≠ u.symbol) :
    r'.find? name = r.find? name := by
  have hcanonical := canonical_define h hname
  obtain rfl := eq_of_define h
  simp only [find?, hcanonical, Layer.getElem?_units_add, if_neg (Ne.symm hne)]

-- A unit that is defined takes over all its aliases. It takes over its symbol too, unless this was
-- an alias in the session for another symbol, which it then goes on to be.
theorem resolves_of_define (h : r.define u overwrite = .ok r') :
    (∀ name ∈ u.aliases, r'.find? name = some u) ∧
    r'.find? u.symbol =
      if u.symbol ∈ u.aliases ∨ r.session.canonical u.symbol = u.symbol then some u
      else r.find? u.symbol := by
  refine ⟨fun name hname => find?_define_alias h hname, ?_⟩
  by_cases hmem : u.symbol ∈ u.aliases
  · rw [if_pos (.inl hmem), find?_define_alias h hmem]
  · by_cases hsame : r.session.canonical u.symbol = u.symbol
    · rw [if_pos (.inr hsame), find?_define_symbol h ((canonical_define h hmem).trans hsame)]
    · rw [if_neg (not_or.mpr ⟨hmem, hsame⟩), find?_define_of_ne h hmem hsame]

-- A unit of length in metres, with some other names.
def metres (symbol : String) (scale : Float) (aliases : List String) : UnitDef Float :=
  (UnitDef.multiplicative .si "length" symbol symbol Dimension.Named.length scale).withAliases
    aliases

theorem define_metres_empty (symbol : String) (scale : Float) (aliases : List String) :
    Registry.empty.define (metres symbol scale aliases) false =
      .ok ⟨.empty, Layer.empty.add (metres symbol scale aliases)⟩ := by
  simp [define, Registry.empty, Layer.empty]

theorem resolves_of_define_metres :
    ∃ r' : Registry Float, Registry.empty.define (metres "x" 3.0 ["ex"]) false = .ok r' ∧
      r'.find? "ex" = some (metres "x" 3.0 ["ex"]) ∧
      r'.find? "x" = some (metres "x" 3.0 ["ex"]) := by
  have hdefine := define_metres_empty "x" 3.0 ["ex"]
  obtain ⟨halias, hsymbol⟩ := resolves_of_define hdefine
  have hcanonical : (Registry.empty : Registry Float).session.canonical "x" = "x" := by
    simp [Registry.empty, Layer.empty, Layer.canonical]
  exact ⟨_, hdefine, halias "ex" (by decide), hsymbol.trans (if_pos (.inr hcanonical))⟩

-- After a unit `a` has got the alias `x`, the symbol `x` of a new unit still leads to `a`.
theorem not_forall_resolves_of_define :
    ¬ ∀ (r r' : Registry Float) (u : UnitDef Float) (overwrite : Bool), r.Reachable →
      r.define u overwrite = .ok r' →
      r'.find? u.symbol = some u ∧ ∀ name ∈ u.aliases, r'.find? name = some u := by
  intro h
  have hfirst := define_metres_empty "a" 2.0 ["x"]
  have hreachable : Reachable ⟨.empty, Layer.empty.add (metres "a" 2.0 ["x"])⟩ := by
    refine ⟨[.define (metres "a" 2.0 ["x"]) false], ?_⟩
    simp [afterAll, after, perform, hfirst]
  obtain ⟨r', hsecond⟩ : ∃ r', define ⟨.empty, Layer.empty.add (metres "a" 2.0 ["x"])⟩
      (metres "x" 3.0 []) true = .ok r' := ⟨_, rfl⟩
  have hcanonical : (Layer.empty.add (metres "a" 2.0 ["x"])).canonical "x" = "a" := by
    rw [Layer.canonical, Layer.getElem?_aliases_add, if_pos (by decide)]
    rfl
  have hne : (Layer.empty.add (metres "a" 2.0 ["x"])).canonical "x" ≠ "x" := by
    rw [hcanonical]
    decide
  have hplain : "x" ∉ (metres "x" 3.0 []).aliases := by decide
  have halias : "x" ∈ (metres "a" 2.0 ["x"]).aliases := by decide
  have hkept := find?_define_of_ne hsecond hplain hne
  have ha := find?_define_alias hfirst halias
  have hx := (h _ r' _ true hreachable hsecond).1
  have heq := Option.some.inj ((hkept.trans ha).symm.trans hx)
  exact absurd (congrArg UnitDef.symbol heq) (by decide)

theorem session_of_hasOverrides {r : Registry α} (h : r.hasOverrides = false) :
    r.session = .empty := by
  cases r with
  | mk defaults session =>
      cases session with
      | mk units aliases =>
          simp only [hasOverrides, Layer.isEmpty, Bool.not_eq_false', Bool.and_eq_true,
            Std.ExtTreeMap.isEmpty_iff] at h
          rw [h.1, h.2]
          rfl

theorem hasOverrides_empty : (empty : Registry α).hasOverrides = false := by
  simp [hasOverrides, Layer.isEmpty, empty, Layer.empty]

section

variable {first replaced alone : Registry α} {v : UnitDef α} {o₁ o₂ o₃ : Bool} {name : String}

-- An alias of a unit that is replaced goes on to lead to its symbol, and so to the new unit.
theorem find?_define_of_replaced (hfirst : r.define u o₁ = .ok first)
    (hsecond : first.define v o₂ = .ok replaced) (hsymbol : u.symbol = v.symbol)
    (hname : name ∈ u.aliases) (hnew : name ∉ v.aliases) : replaced.find? name = some v := by
  obtain rfl := eq_of_define hfirst
  obtain rfl := eq_of_define hsecond
  apply find?_of_canonical
  rw [Layer.canonical_add, if_neg hnew, Layer.canonical_add, if_pos hname, hsymbol,
    Layer.getElem?_units_add, if_pos rfl]

theorem find?_define_eq_alone (hfirst : r.define u o₁ = .ok first)
    (hsecond : first.define v o₂ = .ok replaced) (halone : r.define v o₃ = .ok alone)
    (hsymbol : u.symbol = v.symbol) (hname : name ∈ u.aliases → name ∈ v.aliases) :
    replaced.find? name = alone.find? name := by
  obtain rfl := eq_of_define hfirst
  obtain rfl := eq_of_define hsecond
  obtain rfl := eq_of_define halone
  have hcanonical : ((r.session.add u).add v).canonical name =
      (r.session.add v).canonical name := by
    simp only [Layer.canonical_add]
    split
    · rfl
    · rw [if_neg (fun h => ‹name ∉ v.aliases› (hname h))]
  have hunits (symbol : String) : ((r.session.add u).add v).units[symbol]? =
      (r.session.add v).units[symbol]? := by
    simp only [Layer.getElem?_units_add, hsymbol]
    split <;> rfl
  simp only [find?, hcanonical, hunits]

end

-- A unit that takes the place of another of its symbol leaves the aliases of the other, which stand
-- for the new unit from then on. All other names stand for what the new unit alone would make them
-- stand for.
theorem find?_replaced {r : Registry α} (hr : r.hasOverrides = false) {u v : UnitDef α}
    (hsymbol : u.symbol = v.symbol) :
    ∃ first replaced alone, r.define u false = .ok first ∧ first.define v true = .ok replaced ∧
      r.define v true = .ok alone ∧
      ∀ name, replaced.find? name =
        if name ∈ u.aliases ∧ name ∉ v.aliases then some v else alone.find? name := by
  obtain ⟨first, hfirst⟩ : ∃ first, r.define u false = .ok first :=
    ⟨{ r with session := r.session.add u },
      by simp [define, session_of_hasOverrides hr, Layer.empty]⟩
  obtain ⟨replaced, hsecond⟩ : ∃ replaced, first.define v true = .ok replaced := ⟨_, rfl⟩
  obtain ⟨alone, halone⟩ : ∃ alone, r.define v true = .ok alone := ⟨_, rfl⟩
  refine ⟨first, replaced, alone, hfirst, hsecond, halone, fun name => ?_⟩
  by_cases hname : name ∈ u.aliases ∧ name ∉ v.aliases
  · rw [if_pos hname, find?_define_of_replaced hfirst hsecond hsymbol hname.1 hname.2]
  · rw [if_neg hname]
    exact find?_define_eq_alone hfirst hsecond halone hsymbol
      fun h => Decidable.byContradiction fun hnew => hname ⟨h, hnew⟩

theorem find?_replaced_metres :
    (empty : Registry Float).hasOverrides = false ∧
    ∃ first replaced alone : Registry Float,
      empty.define (metres "a" 2.0 ["x", "y"]) false = .ok first ∧
      first.define (metres "a" 3.0 ["y"]) true = .ok replaced ∧
      empty.define (metres "a" 3.0 ["y"]) true = .ok alone ∧
      replaced.find? "x" = some (metres "a" 3.0 ["y"]) ∧
      replaced.find? "y" = alone.find? "y" := by
  obtain ⟨first, replaced, alone, hfirst, hsecond, halone, hnames⟩ :=
    find?_replaced (r := empty) (u := metres "a" 2.0 ["x", "y"]) (v := metres "a" 3.0 ["y"])
      hasOverrides_empty rfl
  refine ⟨hasOverrides_empty, first, replaced, alone, hfirst, hsecond, halone, ?_, ?_⟩
  · rw [hnames, if_pos (by decide)]
  · rw [hnames, if_neg (by decide)]

-- An alias `x` of a unit `a` still stands for the unit that has replaced it, though that one has no
-- aliases.
theorem not_forall_find?_replaced :
    ¬ ∀ (r first replaced alone : Registry Float) (u v : UnitDef Float),
      r.hasOverrides = false → u.symbol = v.symbol → r.define u false = .ok first →
      first.define v true = .ok replaced → r.define v true = .ok alone →
      ∀ name, replaced.find? name = alone.find? name := by
  intro h
  have hfirst := define_metres_empty "a" 2.0 ["x"]
  obtain ⟨replaced, hsecond⟩ : ∃ replaced, define ⟨.empty, Layer.empty.add (metres "a" 2.0 ["x"])⟩
      (metres "a" 3.0 []) true = .ok replaced := ⟨_, rfl⟩
  obtain ⟨alone, halone⟩ : ∃ alone, (empty : Registry Float).define (metres "a" 3.0 []) true =
      .ok alone := ⟨_, rfl⟩
  have hstale : replaced.find? "x" = some (metres "a" 3.0 []) :=
    find?_define_of_replaced hfirst hsecond rfl (by decide) (by decide)
  have hplain : (empty : Registry Float).session.canonical "x" ≠ (metres "a" 3.0 []).symbol := by
    simp [empty, Layer.empty, Layer.canonical, metres, UnitDef.withAliases,
      UnitDef.multiplicative]
  have hunknown : alone.find? "x" = none := by
    rw [find?_define_of_ne halone (by decide) hplain]
    simp [find?, empty, Layer.empty, Layer.canonical]
  have hsame := h empty _ replaced alone (metres "a" 2.0 ["x"]) (metres "a" 3.0 [])
    hasOverrides_empty rfl hfirst hsecond halone "x"
  rw [hstale, hunknown] at hsame
  cases hsame

end Registry

end UnitCalc
