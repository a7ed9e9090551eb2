import Mathlib.Tactic.MkIffOfInductiveProp
import Mathlib.Tactic.Tauto
import UnitCalc.Proofs.Dimension.Arithmetic
import UnitCalc.Units.Expr

namespace UnitCalc

namespace UnitExpr

variable {α : Type}

-- The names in an expression, from left to right.
def leaves : UnitExpr → List String
  | name symbol _ => [symbol]
  | mul left right => left.leaves ++ right.leaves
  | div left right => left.leaves ++ right.leaves
  | pow base _ => base.leaves
  | group inner => inner.leaves

-- The products, quotients and powers in an expression.
def compounds : UnitExpr → List UnitExpr
  | name _ _ => []
  | mul left right => mul left right :: (left.compounds ++ right.compounds)
  | div left right => div left right :: (left.compounds ++ right.compounds)
  | pow base exponent => pow base exponent :: base.compounds
  | group inner => inner.compounds

-- An expression without the parentheses around it.
def ungroup : UnitExpr → UnitExpr
  | group inner => inner.ungroup
  | e => e

-- The exponents that the units in an expression add up to, of any size. Names that no unit has
-- count for nothing.
def exponents (r : Registry α) : UnitExpr → Exponents
  | name symbol _ => ((r.find? symbol).map fun u => u.measure.dim.exponents).getD .zero
  | mul left right => (left.exponents r).add (right.exponents r)
  | div left right => (left.exponents r).sub (right.exponents r)
  | pow base exponent => (base.exponents r).scale exponent
  | group inner => inner.exponents r

-- Whether no affine unit is in an expression.
def IsPlain (r : Registry α) (e : UnitExpr) : Prop :=
  ∀ symbol ∈ e.leaves, ∀ u, r.find? symbol = some u → u.isAffine = false

-- All that an expression needs to measure something.
@[mk_iff]
structure Reducible (r : Registry α) (e : UnitExpr) : Prop where
  resolves : ∀ symbol ∈ e.leaves, ∃ u, r.find? symbol = some u
  plain : ∀ c ∈ e.compounds, c.IsPlain r
  bounded : ∀ c ∈ e.compounds, (c.exponents r).Bounded

section

variable {r : Registry α} {left right base inner : UnitExpr} {symbol : String} {span : Span}
  {exponent : Int}

theorem isPlain_name : (name symbol span).IsPlain r ↔
    ∀ u, r.find? symbol = some u → u.isAffine = false := by
  simp [IsPlain, leaves]

theorem isPlain_mul : (mul left right).IsPlain r ↔ left.IsPlain r ∧ right.IsPlain r := by
  simp only [IsPlain, leaves, List.forall_mem_append]

theorem isPlain_div : (div left right).IsPlain r ↔ left.IsPlain r ∧ right.IsPlain r :=
  isPlain_mul

theorem reducible_name : (name symbol span).Reducible r ↔ ∃ u, r.find? symbol = some u := by
  simp [reducible_iff, leaves, compounds]

theorem reducible_group : (group inner).Reducible r ↔ inner.Reducible r := by
  simp only [reducible_iff, leaves, compounds]

theorem reducible_iff_of_operands {whole : UnitExpr}
    (hleaves : whole.leaves = left.leaves ++ right.leaves)
    (hcompounds : whole.compounds = whole :: (left.compounds ++ right.compounds)) :
    whole.Reducible r ↔
      (left.Reducible r ∧ right.Reducible r) ∧ (left.IsPlain r ∧ right.IsPlain r) ∧
        (whole.exponents r).Bounded := by
  have hplain : whole.IsPlain r ↔ left.IsPlain r ∧ right.IsPlain r := by
    simp only [IsPlain, hleaves, List.forall_mem_append]
  simp only [reducible_iff, hleaves, hcompounds, List.forall_mem_append, List.forall_mem_cons,
    hplain]
  tauto

theorem reducible_mul : (mul left right).Reducible r ↔
    (left.Reducible r ∧ right.Reducible r) ∧ (left.IsPlain r ∧ right.IsPlain r) ∧
      ((left.exponents r).add (right.exponents r)).Bounded :=
  reducible_iff_of_operands rfl rfl

theorem reducible_div : (div left right).Reducible r ↔
    (left.Reducible r ∧ right.Reducible r) ∧ (left.IsPlain r ∧ right.IsPlain r) ∧
      ((left.exponents r).sub (right.exponents r)).Bounded :=
  reducible_iff_of_operands rfl rfl

theorem reducible_pow : (pow base exponent).Reducible r ↔
    base.Reducible r ∧ base.IsPlain r ∧ ((base.exponents r).scale exponent).Bounded := by
  have hplain : (pow base exponent).IsPlain r ↔ base.IsPlain r := Iff.rfl
  simp only [reducible_iff, leaves, compounds, List.forall_mem_cons, hplain, exponents]
  tauto

end

theorem operand_bind_eq_ok_iff {whole : UnitExpr} {m : Measure α}
    {x : Except UnitError (Measure α)} {f : Measure α → Except UnitError (Measure α)} :
    (do let a ← operand whole (← x); f a) = .ok m ↔
      ∃ a, x = .ok a ∧ a.isAffine = false ∧ f a = .ok m := by
  cases x with
  | error err => simp [bind, Except.bind]
  | ok a => cases ha : a.isAffine <;> simp [bind, Except.bind, operand, ha]

theorem measured_eq_ok_iff [OfNat α 0] {v : Exponents} {scale : α} {m : Measure α} :
    (do let dim ← UnitError.ofExponent (Dimension.ofExponents v)
        return Measure.multiplicative dim scale) = .ok m ↔
      ∃ dim : Dimension, dim.exponents = v ∧ .multiplicative dim scale = m := by
  simp only [← Dimension.ofExponents_eq_ok_iff]
  cases Dimension.ofExponents v <;>
    simp [UnitError.ofExponent, Except.mapError, bind, Except.bind, pure, Except.pure]

variable [Mul α] [Div α] [OfNat α 0] [OfNat α 1]

-- The rules by which an expression measures something.
inductive Reduces (r : Registry α) : UnitExpr → Measure α → Prop where
  | name {symbol : String} {span : Span} {u : UnitDef α} (hfind : r.find? symbol = some u) :
      Reduces r (name symbol span) u.measure
  | group {inner : UnitExpr} {m : Measure α} (hinner : Reduces r inner m) :
      Reduces r (group inner) m
  | mul {left right : UnitExpr} {a b : Measure α} {dim : Dimension}
      (hleft : Reduces r left a) (hright : Reduces r right b)
      (ha : a.isAffine = false) (hb : b.isAffine = false)
      (hdim : dim.exponents = a.dim.exponents.add b.dim.exponents) :
      Reduces r (mul left right) (.multiplicative dim (a.scale * b.scale))
  | div {left right : UnitExpr} {a b : Measure α} {dim : Dimension}
      (hleft : Reduces r left a) (hright : Reduces r right b)
      (ha : a.isAffine = false) (hb : b.isAffine = false)
      (hdim : dim.exponents = a.dim.exponents.sub b.dim.exponents) :
      Reduces r (div left right) (.multiplicative dim (a.scale / b.scale))
  | pow {base : UnitExpr} {exponent : Int} {a : Measure α} {dim : Dimension}
      (hbase : Reduces r base a) (ha : a.isAffine = false)
      (hdim : dim.exponents = a.dim.exponents.scale exponent) :
      Reduces r (pow base exponent) (.multiplicative dim (powInt a.scale exponent))

variable {r : Registry α} {e : UnitExpr} {m : Measure α}

theorem reduce_eq_ok_iff : e.reduce r = .ok m ↔ Reduces r e m := by
  induction e generalizing m with
  | name symbol span =>
      rw [reduce, Registry.find]
      constructor
      · intro h
        cases hfind : r.find? symbol with
        | none =>
            rw [hfind] at h
            cases h
        | some u =>
            rw [hfind] at h
            cases h
            exact .name hfind
      · intro h
        cases h with
        | name hfind =>
            rw [hfind]
            rfl
  | mul left right ihleft ihright =>
      simp only [reduce, operand_bind_eq_ok_iff, Dimension.multiply, measured_eq_ok_iff, ihleft,
        ihright]
      constructor
      · rintro ⟨a, hleft, ha, b, hright, hb, dim, hdim, rfl⟩
        exact .mul hleft hright ha hb hdim
      · intro h
        cases h with
        | mul hleft hright ha hb hdim => exact ⟨_, hleft, ha, _, hright, hb, _, hdim, rfl⟩
  | div left right ihleft ihright =>
      simp only [reduce, operand_bind_eq_ok_iff, Dimension.divide, measured_eq_ok_iff, ihleft,
        ihright]
      constructor
      · rintro ⟨a, hleft, ha, b, hright, hb, dim, hdim, rfl⟩
        exact .div hleft hright ha hb hdim
      · intro h
        cases h with
        | div hleft hright ha hb hdim => exact ⟨_, hleft, ha, _, hright, hb, _, hdim, rfl⟩
  | pow base exponent ih =>
      simp only [reduce, operand_bind_eq_ok_iff, Dimension.pow, measured_eq_ok_iff, ih]
      constructor
      · rintro ⟨a, hbase, ha, dim, hdim, rfl⟩
        exact .pow hbase ha hdim
      · intro h
        cases h with
        | pow hbase ha hdim => exact ⟨_, hbase, ha, _, hdim, rfl⟩
  | group inner ih =>
      rw [reduce, ih]
      constructor
      · exact .group
      · intro h
        cases h with
        | group hinner => exact hinner

namespace Reduces

theorem exponents_dim (h : Reduces r e m) : m.dim.exponents = e.exponents r := by
  induction h with
  | name hfind => simp [exponents, hfind]
  | group _ ih => exact ih
  | mul _ _ _ _ hdim ihleft ihright => rw [exponents, ← ihleft, ← ihright, ← hdim]; rfl
  | div _ _ _ _ hdim ihleft ihright => rw [exponents, ← ihleft, ← ihright, ← hdim]; rfl
  | pow _ _ hdim ih => rw [exponents, ← ih, ← hdim]; rfl

theorem isPlain_iff (h : Reduces r e m) : e.IsPlain r ↔ m.isAffine = false := by
  induction h with
  | name hfind =>
      rw [isPlain_name, hfind]
      constructor
      · intro hplain
        exact hplain _ rfl
      · intro haffine u hsome
        cases hsome
        exact haffine
  | group _ ih => exact ih
  | mul _ _ ha hb _ ihleft ihright =>
      exact iff_of_true (isPlain_mul.mpr ⟨ihleft.mpr ha, ihright.mpr hb⟩) rfl
  | div _ _ ha hb _ ihleft ihright =>
      exact iff_of_true (isPlain_div.mpr ⟨ihleft.mpr ha, ihright.mpr hb⟩) rfl
  | pow _ ha _ ih => exact iff_of_true (ih.mpr ha) rfl

theorem reducible (h : Reduces r e m) : e.Reducible r := by
  induction h with
  | name hfind => exact reducible_name.mpr ⟨_, hfind⟩
  | group _ ih => exact reducible_group.mpr ih
  | mul hleft hright ha hb hdim ihleft ihright =>
      refine reducible_mul.mpr
        ⟨⟨ihleft, ihright⟩, ⟨hleft.isPlain_iff.mpr ha, hright.isPlain_iff.mpr hb⟩, ?_⟩
      rw [← hleft.exponents_dim, ← hright.exponents_dim]
      exact Exponents.bounded_iff_exists.mpr ⟨_, hdim⟩
  | div hleft hright ha hb hdim ihleft ihright =>
      refine reducible_div.mpr
        ⟨⟨ihleft, ihright⟩, ⟨hleft.isPlain_iff.mpr ha, hright.isPlain_iff.mpr hb⟩, ?_⟩
      rw [← hleft.exponents_dim, ← hright.exponents_dim]
      exact Exponents.bounded_iff_exists.mpr ⟨_, hdim⟩
  | pow hbase ha hdim ih =>
      refine reducible_pow.mpr ⟨ih, hbase.isPlain_iff.mpr ha, ?_⟩
      rw [← hbase.exponents_dim]
      exact Exponents.bounded_iff_exists.mpr ⟨_, hdim⟩

-- An expression in parentheses that is a name measures what the unit of that name does.
theorem eq_measure {symbol : String} {span : Span} {u : UnitDef α} (h : Reduces r e m)
    (hname : e.ungroup = .name symbol span) (hfind : r.find? symbol = some u) :
    m = u.measure := by
  induction h with
  | name hfind' =>
      cases hname
      cases hfind.symm.trans hfind'
      rfl
  | group _ ih => exact ih hname
  | mul | div | pow => cases hname

theorem isAffine_iff (h : Reduces r e m) :
    m.isAffine = true ↔ ∃ symbol span u,
      e.ungroup = .name symbol span ∧ r.find? symbol = some u ∧ u.isAffine = true := by
  constructor
  · intro haffine
    induction h with
    | name hfind => exact ⟨_, _, _, rfl, hfind, haffine⟩
    | group _ ih => exact ih haffine
    | mul | div | pow => cases haffine
  · rintro ⟨symbol, span, u, hname, hfind, haffine⟩
    rw [h.eq_measure hname hfind]
    exact haffine

end Reduces

theorem exists_reduces (h : e.Reducible r) : ∃ m, Reduces r e m := by
  induction e with
  | name symbol span =>
      obtain ⟨u, hfind⟩ := reducible_name.mp h
      exact ⟨_, .name hfind⟩
  | group inner ih =>
      obtain ⟨m, hinner⟩ := ih (reducible_group.mp h)
      exact ⟨m, .group hinner⟩
  | mul left right ihleft ihright =>
      obtain ⟨⟨hl, hr⟩, ⟨hlplain, hrplain⟩, hbounded⟩ := reducible_mul.mp h
      obtain ⟨a, hleft⟩ := ihleft hl
      obtain ⟨b, hright⟩ := ihright hr
      rw [← hleft.exponents_dim, ← hright.exponents_dim] at hbounded
      obtain ⟨dim, hdim⟩ := Exponents.bounded_iff_exists.mp hbounded
      exact ⟨_, .mul hleft hright (hleft.isPlain_iff.mp hlplain) (hright.isPlain_iff.mp hrplain)
        hdim⟩
  | div left right ihleft ihright =>
      obtain ⟨⟨hl, hr⟩, ⟨hlplain, hrplain⟩, hbounded⟩ := reducible_div.mp h
      obtain ⟨a, hleft⟩ := ihleft hl
      obtain ⟨b, hright⟩ := ihright hr
      rw [← hleft.exponents_dim, ← hright.exponents_dim] at hbounded
      obtain ⟨dim, hdim⟩ := Exponents.bounded_iff_exists.mp hbounded
      exact ⟨_, .div hleft hright (hleft.isPlain_iff.mp hlplain) (hright.isPlain_iff.mp hrplain)
        hdim⟩
  | pow base exponent ih =>
      obtain ⟨hbase, hplain, hbounded⟩ := reducible_pow.mp h
      obtain ⟨a, hreduces⟩ := ih hbase
      rw [← hreduces.exponents_dim] at hbounded
      obtain ⟨dim, hdim⟩ := Exponents.bounded_iff_exists.mp hbounded
      exact ⟨_, .pow hreduces (hreduces.isPlain_iff.mp hplain) hdim⟩

-- Which expressions measure something, and what. Only a name by itself can keep an offset.
theorem reduce_characterized (r : Registry α) (e : UnitExpr) :
    ((∃ m, e.reduce r = .ok m) ↔ e.Reducible r) ∧
    ∀ m, e.reduce r = .ok m →
      m.dim.exponents = e.exponents r ∧
      (m.isAffine = true ↔ ∃ symbol span u,
        e.ungroup = name symbol span ∧ r.find? symbol = some u ∧ u.isAffine = true) ∧
      ∀ symbol span u, e.ungroup = name symbol span → r.find? symbol = some u →
        m.scale = u.measure.scale ∧ m.offset = u.measure.offset := by
  simp only [reduce_eq_ok_iff]
  refine ⟨⟨fun ⟨m, h⟩ => h.reducible, exists_reduces⟩, fun m h =>
    ⟨h.exponents_dim, h.isAffine_iff, ?_⟩⟩
  intro symbol span u hname hfind
  rw [h.eq_measure hname hfind]
  exact ⟨rfl, rfl⟩

end UnitExpr

end UnitCalc
