import UnitCalc.Proofs.Dimension.Arithmetic

namespace UnitCalc

-- The exponent of a base unit in a product of powers.
def exponentIn (ps : List (String × Int)) (symbol : String) : Int :=
  (ps.lookup symbol).getD 0

section

variable {ps : List (String × Int)} {p : String × Int} {symbol : String}

theorem exponentIn_cons_self (ps : List (String × Int)) (symbol : String) (n : Int) :
    exponentIn ((symbol, n) :: ps) symbol = n := by
  simp [exponentIn]

theorem exponentIn_cons_of_ne (h : symbol ≠ p.1) (ps : List (String × Int)) :
    exponentIn (p :: ps) symbol = exponentIn ps symbol := by
  obtain ⟨first, n⟩ := p
  have hkey : (symbol == first) = false := beq_eq_false_iff_ne.mpr h
  rw [exponentIn, List.lookup_cons, hkey]
  rfl

theorem exponentIn_of_not_mem (h : symbol ∉ ps.map Prod.fst) : exponentIn ps symbol = 0 := by
  induction ps with
  | nil => rfl
  | cons p ps ih =>
      obtain ⟨hne, hmem⟩ := not_or.mp (mt List.mem_cons.mpr h)
      rw [exponentIn_cons_of_ne hne, ih hmem]

theorem exponentIn_append_singleton (h : p.1 ∉ ps.map Prod.fst) (symbol : String) :
    exponentIn (ps ++ [p]) symbol = exponentIn ps symbol + exponentIn [p] symbol := by
  induction ps with
  | nil => exact (Int.zero_add _).symm
  | cons q ps ih =>
      obtain ⟨hne, hmem⟩ := not_or.mp (mt List.mem_cons.mpr h)
      rw [List.cons_append]
      by_cases hq : symbol = q.1
      · subst hq
        rw [exponentIn_cons_self, exponentIn_cons_self, exponentIn_cons_of_ne (Ne.symm hne)]
        exact (Int.add_zero _).symm
      · rw [exponentIn_cons_of_ne hq, exponentIn_cons_of_ne hq, ih hmem]

-- Powers with the exponent zero can be left out.
theorem exponentIn_filter (h : (ps.map Prod.fst).Nodup) (symbol : String) :
    exponentIn (ps.filter fun p => p.2 ≠ 0) symbol = exponentIn ps symbol := by
  induction ps with
  | nil => rfl
  | cons q ps ih =>
      obtain ⟨hmem, hnodup⟩ := List.nodup_cons.mp h
      have hrest := ih hnodup
      by_cases hq : symbol = q.1
      · subst hq
        rw [exponentIn_cons_self]
        by_cases hzero : q.2 = 0
        · rw [List.filter_cons_of_neg (by simp [hzero]), hrest, exponentIn_of_not_mem hmem, hzero]
        · rw [List.filter_cons_of_pos (by simp [hzero]), exponentIn_cons_self]
      · rw [exponentIn_cons_of_ne hq, List.filter_cons]
        split
        · rw [exponentIn_cons_of_ne hq, hrest]
        · exact hrest

end

namespace Exponents

-- The exponents of a product of powers of base units.
def ofPowers (ps : List (String × Int)) : Exponents :=
  ⟨exponentIn ps "m", exponentIn ps "kg", exponentIn ps "s", exponentIn ps "A",
    exponentIn ps "K", exponentIn ps "mol", exponentIn ps "cd"⟩

theorem toList_ofPowers (ps : List (String × Int)) :
    (ofPowers ps).toList = Dimension.baseSymbols.map (exponentIn ps) := rfl

theorem bounded_ofPowers {ps : List (String × Int)} (h : ∀ p ∈ ps, p.2.natAbs ≤ maxPower) :
    (ofPowers ps).Bounded := by
  intro n hn
  rw [toList_ofPowers] at hn
  obtain ⟨symbol, -, rfl⟩ := List.mem_map.mp hn
  rw [exponentIn]
  cases hlookup : ps.lookup symbol with
  | none => exact Nat.zero_le _
  | some n =>
      obtain ⟨before, after, rfl, -⟩ := List.lookup_eq_some_iff.mp hlookup
      exact h (symbol, n) (by simp)

theorem scale_ofPowers (symbol : String) (n : Int) :
    (ofPowers [(symbol, 1)]).scale n = ofPowers [(symbol, n)] := by
  have hscale (t : String) : exponentIn [(symbol, 1)] t * n = exponentIn [(symbol, n)] t := by
    by_cases ht : t = symbol
    · rw [ht, exponentIn_cons_self, exponentIn_cons_self, Int.one_mul]
    · rw [exponentIn_cons_of_ne ht, exponentIn_cons_of_ne ht]
      exact Int.zero_mul n
  ext <;> exact hscale _

end Exponents

namespace Dimension

open Exponents

-- The dimension of a base unit.
def base (symbol : String) : Dimension :=
  ⟨ofPowers [(symbol, 1)], bounded_ofPowers (by simp [maxPower])⟩

-- The powers that a dimension is printed as.
def powers (d : Dimension) : List (String × Int) :=
  (baseSymbols.zip d.exponents.toList).filter fun p => p.2 ≠ 0

-- Powers of different base units with exponents in range.
structure IsPowers (ps : List (String × Int)) : Prop where
  nodup : (ps.map Prod.fst).Nodup
  symbol : ∀ p ∈ ps, p.1 ∈ baseSymbols
  bounded : ∀ p ∈ ps, p.2.natAbs ≤ maxPower

variable {d : Dimension} {ps : List (String × Int)} {p : String × Int}

-- A product of some of the powers of a dimension is a dimension too.
theorem IsPowers.sublist {qs : List (String × Int)} (h : IsPowers ps) (hqs : qs.Sublist ps) :
    IsPowers qs where
  nodup := h.nodup.sublist (hqs.map Prod.fst)
  symbol p hp := h.symbol p (hqs.subset hp)
  bounded p hp := h.bounded p (hqs.subset hp)

theorem IsPowers.ofPowers_append_singleton (h : IsPowers (ps ++ [p])) :
    ofPowers (ps ++ [p]) = (ofPowers ps).add (ofPowers [p]) := by
  have hnodup := h.nodup
  rw [List.map_append] at hnodup
  have hnew : p.1 ∉ ps.map Prod.fst := fun hmem =>
    (List.nodup_append.mp hnodup).2.2 _ hmem _ (List.mem_singleton_self p.1) rfl
  ext <;> exact exponentIn_append_singleton hnew _

theorem isPowers_zip (d : Dimension) : IsPowers (baseSymbols.zip d.exponents.toList) where
  nodup := (by decide : baseSymbols.Nodup)
  symbol _ hp := (List.of_mem_zip hp).1
  bounded _ hp := d.bounded _ (List.of_mem_zip hp).2

theorem isPowers_powers (d : Dimension) : IsPowers d.powers :=
  (isPowers_zip d).sublist List.filter_sublist

theorem ofPowers_powers (d : Dimension) : ofPowers d.powers = d.exponents := by
  ext <;> exact exponentIn_filter (isPowers_zip d).nodup _

theorem powers_ne_nil (h : d ≠ one) : d.powers ≠ [] := by
  intro hnil
  apply h
  apply ext_exponents
  rw [← ofPowers_powers, hnil]
  rfl

end Dimension

end UnitCalc
