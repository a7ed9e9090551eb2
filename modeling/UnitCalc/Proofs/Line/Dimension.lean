import UnitCalc.Proofs.Dimension.Powers
import UnitCalc.Proofs.Line.Conversion
import UnitCalc.Proofs.Line.Row
import UnitCalc.Proofs.Units.Aliases
import UnitCalc.Proofs.Units.Declared
import UnitCalc.Proofs.Units.Reduction

namespace UnitCalc

theorem Measure.scale_multiplicative (dim : Dimension) (scale : Float) :
    (multiplicative dim scale).scale = scale := rfl

-- Every power of one is one.
theorem mulPow_one (n : Nat) : mulPow (1 : Float) 1 n = 1 := by
  have hone : (1 : Float) * 1 = 1 := by decide +kernel
  induction n using Nat.strongRecOn with
  | ind n ih =>
      rw [mulPow, hone, ite_self]
      split
      · rfl
      · exact ih (n / 2) (by omega)

theorem powInt_one (n : Int) : powInt (1 : Float) n = 1 := by
  have hone : (1 : Float) / 1 = 1 := by decide +kernel
  rw [powInt, mulPow_one, hone, ite_self]

-- A unit that the default catalogs declare is the one that its symbol stands for.
theorem Registry.find?_default_of_declared {symbol : String} {u : UnitDef Float}
    (h : lastWithSymbol? (declaredUnits Catalog.all) symbol = some u) :
    default.find? symbol = some u := by
  have hunit := Layer.getElem?_units_of_declared Catalog.all h
  rw [← defaults_default] at hunit
  have hmem := (Std.ExtTreeMap.getElem?_eq_some_iff.mp hunit).1
  rw [find?_of_empty_session rfl, Layer.canonical_of_not_mem (separate_default symbol hmem), hunit]

namespace Dimension

open UnitExpr Grammar Exponents

-- A power of a base unit as it is printed.
def powerExpr (p : String × Int) : UnitExpr :=
  if p.2 = 1 then .name p.1 ⟨0, 0⟩ else .pow (.name p.1 ⟨0, 0⟩) p.2

variable {d : Dimension} {ps : List (String × Int)} {p : String × Int} {symbol : String}

theorem display_powerExpr (p : String × Int) : (powerExpr p).display = displayPower p.1 p.2 := by
  unfold powerExpr displayPower
  split <;> rfl

theorem display_eq_displayRow (h : d ≠ one) :
    d.display = displayRow (d.powers.map powerExpr) := by
  have hone : d.isOne = false := beq_eq_false_iff_ne.mpr h
  simp [display, hone, displayRow, powers, Function.comp_def, display_powerExpr]

theorem letters_baseSymbols : ∀ symbol ∈ baseSymbols,
    symbol ≠ "" ∧ symbol.toList.all Piece.isIdentifierStart = true ∧
      Keyword.ofWord? symbol = none := by
  decide

-- The symbols of base units are words and no keywords.
theorem isSymbol_of_mem_baseSymbols (h : symbol ∈ baseSymbols) : IsSymbol symbol.toList := by
  obtain ⟨hne, hstart, hword⟩ := letters_baseSymbols symbol h
  obtain ⟨c, cs, hcs⟩ := List.exists_cons_of_ne_nil (mt String.toList_eq_nil_iff.mp hne)
  have hpart : IsNamePart symbol.toList := by
    rw [hcs, List.all_eq_true] at hstart
    rw [hcs]
    exact .word (hstart c List.mem_cons_self) fun d hd =>
      Piece.isIdentifierPart_of_isIdentifierStart (hstart d hd)
  have hparts : nameParts symbol.toList = [symbol.toList] := by
    have hflatten := nameParts_flatten (List.forall_mem_singleton.mpr hpart) (.singleton _)
    rwa [List.flatten_singleton] at hflatten
  constructor
  · rw [hcs]
    exact List.cons_ne_nil c cs
  · rw [hparts]
    exact List.forall_mem_singleton.mpr hpart
  · rw [hparts]
    exact List.forall_mem_singleton.mpr (by rwa [String.ofList_toList])

theorem tree_powerExpr (hp : p.1 ∈ baseSymbols) (hbounded : p.2.natAbs ≤ maxPower) :
    Tree .term (powerExpr p) := by
  have hatom : Tree .atom (.name p.1 ⟨0, 0⟩) := .name (isSymbol_of_mem_baseSymbols hp)
  unfold powerExpr
  split
  · exact .atom hatom
  · exact .power hatom (Nat.le_trans hbounded (by decide))

theorem measure_baseSymbols : ∀ symbol ∈ baseSymbols,
    (lastWithSymbol? (declaredUnits Catalog.all) symbol).map UnitDef.measure =
      some (.multiplicative (base symbol) 1) := by
  decide +kernel

theorem reduces_name (h : symbol ∈ baseSymbols) (span : Span) :
    Reduces .default (.name symbol span) (.multiplicative (base symbol) 1) := by
  obtain ⟨u, hu, hmeasure⟩ := Option.map_eq_some_iff.mp (measure_baseSymbols symbol h)
  rw [← hmeasure]
  exact .name (Registry.find?_default_of_declared hu)

theorem exists_reduces_powerExpr (hp : p.1 ∈ baseSymbols) (hbounded : p.2.natAbs ≤ maxPower) :
    ∃ dim : Dimension, dim.exponents = ofPowers [p] ∧
      Reduces .default (powerExpr p) (.multiplicative dim 1) := by
  obtain ⟨symbol, n⟩ := p
  have hname := reduces_name hp ⟨0, 0⟩
  by_cases hn : n = 1
  · subst hn
    exact ⟨base symbol, rfl, hname⟩
  · obtain ⟨dim, hdim⟩ := bounded_iff_exists.mp
      (bounded_ofPowers (List.forall_mem_singleton.mpr hbounded))
    have hscale : dim.exponents = (base symbol).exponents.scale n :=
      hdim.trans (scale_ofPowers symbol n).symm
    have hpow := Reduces.pow hname rfl hscale
    refine ⟨dim, hdim, ?_⟩
    rw [powerExpr, if_neg hn, ← powInt_one n]
    exact hpow

-- The product of some powers has their exponents. The induction is on the last of them: what comes
-- before it is a product of fewer powers of different base units, so it is in range as well.
theorem exists_reduces_product (h : IsPowers (p :: ps)) :
    ∃ dim : Dimension, dim.exponents = ofPowers (p :: ps) ∧
      Reduces .default ((ps.map powerExpr).foldl .mul (powerExpr p)) (.multiplicative dim 1) := by
  induction ps using List.reverseRecOn with
  | nil => exact exists_reduces_powerExpr (h.symbol p (by simp)) (h.bounded p (by simp))
  | append_singleton ps q ih =>
      have hone : (1 : Float) * 1 = 1 := by decide +kernel
      have happend : ofPowers (p :: ps ++ [q]) = (ofPowers (p :: ps)).add (ofPowers [q]) :=
        IsPowers.ofPowers_append_singleton h
      obtain ⟨dim, hdim, hreduces⟩ := ih (h.sublist (List.sublist_append_left (p :: ps) [q]))
      obtain ⟨dim', hdim', hreduces'⟩ :=
        exists_reduces_powerExpr (h.symbol q (by simp)) (h.bounded q (by simp))
      obtain ⟨product, hproduct⟩ := bounded_iff_exists.mp (bounded_ofPowers h.bounded)
      have hsum : product.exponents = dim.exponents.add dim'.exponents := by
        rw [hproduct, hdim, hdim']
        exact happend
      have hmul := Reduces.mul hreduces hreduces' rfl rfl hsum
      rw [Measure.scale_multiplicative, Measure.scale_multiplicative, hone] at hmul
      refine ⟨product, hproduct, ?_⟩
      rw [List.map_append, List.foldl_append]
      exact hmul

theorem utf8ByteSize_displayPower (h : symbol ∈ baseSymbols) {n : Int}
    (hn : n.natAbs ≤ maxPower) : (displayPower symbol n).utf8ByteSize ≤ 7 := by
  have hboth : ∀ symbol ∈ baseSymbols, ∀ m ≤ maxPower,
      (displayPower symbol m).utf8ByteSize ≤ 7 ∧ (displayPower symbol (-m)).utf8ByteSize ≤ 7 := by
    decide +kernel
  obtain ⟨hpositive, hnegative⟩ := hboth symbol h n.natAbs hn
  rcases n.natAbs_eq with heq | heq
  · rwa [heq]
  · rwa [heq]

-- A printed dimension is short.
theorem utf8ByteSize_display_le (h : d ≠ one) : d.display.utf8ByteSize ≤ 56 := by
  have hlength : d.powers.length ≤ 7 := List.length_filter_le _ _
  have hpower : ∀ e ∈ d.powers.map powerExpr, e.display.utf8ByteSize ≤ 7 := by
    refine List.forall_mem_map.mpr fun p hp => ?_
    rw [display_powerExpr]
    exact utf8ByteSize_displayPower ((isPowers_powers d).symbol p hp)
      ((isPowers_powers d).bounded p hp)
  have hrow := utf8ByteSize_displayRow_le hpower
  rw [← display_eq_displayRow h, List.length_map] at hrow
  omega

-- A dimension that is not one is printed as a unit that is read, whatever the options, and measures
-- that dimension in the default registry, on the scale of SI.
theorem exists_parseLines_display (o : LexOptions) (h : d ≠ one) :
    ∃ e, parseLines o ("1 " ++ d.display) = .ok [⟨1, some e, none⟩] ∧
      e.reduce .default = .ok (.multiplicative d 1) := by
  obtain ⟨p, ps, hpowers⟩ := List.exists_cons_of_ne_nil (powers_ne_nil h)
  have hps := isPowers_powers d
  have htree : ∀ q ∈ d.powers, Tree .term (powerExpr q) := fun q hq =>
    tree_powerExpr (hps.symbol q hq) (hps.bounded q hq)
  have hfits : ("1 " ++ d.display).utf8ByteSize ≤ Span.maxOffset := by
    have hle := utf8ByteSize_display_le h
    rw [String.utf8ByteSize_append, Span.maxOffset]
    have hone : "1 ".utf8ByteSize = 2 := by decide
    omega
  have hexponents := ofPowers_powers d
  rw [display_eq_displayRow h] at hfits ⊢
  rw [hpowers] at hps htree hfits hexponents ⊢
  rw [List.map_cons] at hfits ⊢
  obtain ⟨hp, htrees⟩ := List.forall_mem_cons.mp htree
  obtain ⟨e, hparse, hbare⟩ :=
    exists_parseLines_of_row o (.term hp) (List.forall_mem_map.mpr htrees) hfits
  obtain ⟨dim, hdim, hreduces⟩ := exists_reduces_product hps
  obtain rfl : dim = d := ext_exponents (hdim.trans hexponents)
  refine ⟨e, hparse, ?_⟩
  rw [← e.reduce_bare, hbare, reduce_bare]
  exact reduce_eq_ok_iff.mpr hreduces

-- Comments, quoted strings and escapes are all on.
theorem exists_parseLines_display_force :
    Named.force ≠ one ∧
    ∃ e, parseLines ⟨true, true, true⟩ "1 m kg s^-2" = .ok [⟨1, some e, none⟩] ∧
      e.reduce .default = .ok (.multiplicative Named.force 1) := by
  have hne : Named.force ≠ one := by decide
  have hprinted : "1 " ++ Named.force.display = "1 m kg s^-2" := by decide
  have hforce := exists_parseLines_display ⟨true, true, true⟩ hne
  rw [hprinted] at hforce
  exact ⟨hne, hforce⟩

end Dimension

end UnitCalc
