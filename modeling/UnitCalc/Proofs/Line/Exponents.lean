import UnitCalc.Proofs.Line.Refusals
import UnitCalc.Proofs.Line.Soundness
import UnitCalc.Proofs.Token.Numeral

namespace UnitCalc

-- Whether some tokens end in a caret, or else in a caret and a minus sign.
inductive EndsInCaret : Bool → List Token → Prop where
  | caret {ts : List Token} {t : Token} (h : t.kind = .operator .power) :
      EndsInCaret false (ts ++ [t])
  | sign {ts : List Token} {t : Token} (hts : EndsInCaret false ts)
      (h : t.kind = .operator .minus) : EndsInCaret true (ts ++ [t])

theorem not_endsInCaret_nil (negative : Bool) : ¬ EndsInCaret negative [] := by
  generalize hnil : ([] : List Token) = ts
  intro h
  cases h <;> simp at hnil

theorem endsInCaret_append_singleton_iff {negative : Bool} {ts : List Token} {t : Token} :
    EndsInCaret negative (ts ++ [t]) ↔
      negative = false ∧ t.kind = .operator .power ∨
      negative = true ∧ EndsInCaret false ts ∧ t.kind = .operator .minus := by
  constructor
  · generalize hus : ts ++ [t] = us
    intro h
    cases h with
    | caret hcaret =>
        obtain ⟨-, hlast⟩ := List.append_inj' hus rfl
        obtain rfl := List.singleton_inj.mp hlast
        exact .inl ⟨rfl, hcaret⟩
    | sign hts hminus =>
        obtain ⟨rfl, hlast⟩ := List.append_inj' hus rfl
        obtain rfl := List.singleton_inj.mp hlast
        exact .inr ⟨rfl, hts, hminus⟩
  · rintro (⟨rfl, hcaret⟩ | ⟨rfl, hts, hminus⟩)
    · exact .caret hcaret
    · exact .sign hts hminus

namespace Stage

-- Whether the number of an exponent must come next, after a minus sign or without one.
def AwaitsExponent (negative : Bool) : Stage → Prop
  | exponent _ _ signed => signed = negative
  | _ => False

variable {s s' : Stage} {t : Token} {ts us : List Token} {line : Option Quantity} {negative : Bool}

theorem AwaitsExponent.exists_eq (h : s.AwaitsExponent negative) :
    ∃ c base, s = exponent c base negative := by
  cases s with
  | exponent c base signed =>
      obtain rfl : signed = negative := h
      exact ⟨c, base, rfl⟩
  | _ => exact False.elim h

theorem Moves.awaitsExponent_iff (h : Moves s t s' line) :
    s'.AwaitsExponent negative ↔
      negative = false ∧ t.kind = .operator .power ∨
      negative = true ∧ s.AwaitsExponent false ∧ t.kind = .operator .minus := by
  cases h with
  | blank h | endOfValue h | endOfUnit _ _ _ h | endOfTarget _ _ _ h =>
      rcases Token.kind_of_endsLine h with hk | hk <;> simp [AwaitsExponent, hk]
  | piece _ h | glue h _ =>
      rcases Token.kind_of_isNamePiece h with hk | hk <;> simp [AwaitsExponent, hk]
  | positive h | negative h | exponent h _ => simp [AwaitsExponent, kind_of_number h]
  | caret _ h | exponentSign h => simp [AwaitsExponent, h, eq_comm]
  | sign h | opening _ h | times _ h | divide _ h | closing _ _ h | targetOfValue h
  | targetOfUnit _ _ _ h => simp [AwaitsExponent, h]

-- The last tokens that count say whether an exponent must come next.
theorem Walks.awaitsExponent_iff (h : Walks s ts s')
    (hs : ∀ negative, s.AwaitsExponent negative ↔ EndsInCaret negative us) :
    ∀ negative, s'.AwaitsExponent negative ↔ EndsInCaret negative (us ++ ts) := by
  induction h generalizing us with
  | nil => simpa using hs
  | @cons s s' s'' t ts line hmoves _ ih =>
      have hs' : ∀ negative, s'.AwaitsExponent negative ↔ EndsInCaret negative (us ++ [t]) := by
        intro negative
        rw [hmoves.awaitsExponent_iff, hs false, endsInCaret_append_singleton_iff]
      simpa using ih hs'

theorem Leads.awaitsExponent_iff (h : blank.Leads ts s) (negative : Bool) :
    s.AwaitsExponent negative ↔
      EndsInCaret negative ((dropInnerBreaks 0 ts).filter fun t => t.kind ≠ .tab) := by
  have hblank : ∀ negative, blank.AwaitsExponent negative ↔ EndsInCaret negative [] :=
    fun negative => iff_of_false id (not_endsInCaret_nil negative)
  exact h.walks.awaitsExponent_iff hblank negative

theorem exponent?_eq_none_iff {x : Float} :
    exponent? x = none ↔ ∀ n, Number.toInt? x = some n → maxExponent < n.natAbs := by
  unfold exponent?
  cases Number.toInt? x with
  | none => simp
  | some n => simp

theorem next_exponent_of_number {c : Context} {base : UnitExpr} {x : Float}
    (hx : number t negative = .ok x) (h : exponent? x = none) :
    (exponent c base negative).next t = .error (.invalidNumber (Number.display x) t.span) := by
  have hkind := kind_of_number hx
  have hskips : (exponent c base negative).skips t = false := by simp [skips, hkind]
  have hfault : LexError.ofToken? t = none := by
    simp [LexError.ofToken?, hkind, TokenKind.fault?]
  have hminus : t.isOperator .minus = false := by simp [Token.isOperator, hkind]
  rw [next_of_not_skips hskips, accept, hfault]
  simp only [step, hminus, hx, Bool.and_false, Bool.false_eq_true, if_false, bind, Except.bind, h]

end Stage

-- Every number token spells a number that can be read. So a number of a text is not valid just
-- when, with the sign before it, it is the exponent of a unit and no integer below `2 ^ 31` in
-- size.
theorem numbers_readable (o : LexOptions) (source : String) :
    (∀ t ∈ lex o source, t.kind = .number →
      Number.Form t.text.toList ∧ ∃ v, Number.read? t.text = some v) ∧
    ∀ text span, parseLines o source = .error (.invalidNumber text span) ↔
      ∃ before t after s negative x,
        joinLines (lex o source) = before ++ t :: after ∧ Stage.blank.Leads before s ∧
        EndsInCaret negative ((dropInnerBreaks 0 before).filter fun t => t.kind ≠ .tab) ∧
        Stage.number t negative = .ok x ∧
        (∀ n, Number.toInt? x = some n → 2 ^ 31 - 1 < n.natAbs) ∧
        text = Number.display x ∧ span = t.span := by
  refine ⟨fun t ht hkind => ⟨form_of_mem_lex ht hkind, exists_read?_of_mem_lex ht hkind⟩, ?_⟩
  intro text span
  constructor
  · intro h
    obtain ⟨before, t, after, s, hsplit, hmem, hleads, hrefuses⟩ := exists_refuses_of_parseLines h
    cases hrefuses with
    | unreadable hs hkind hread =>
        obtain ⟨v, hv⟩ := exists_read?_of_mem_lex hmem hkind
        rw [hv] at hread
        cases hread
    | @exponent c base negative _ x hx hnone =>
        have hcaret := (hleads.awaitsExponent_iff negative).mp rfl
        exact ⟨before, t, after, _, negative, x, hsplit, hleads, hcaret, hx,
          Stage.exponent?_eq_none_iff.mp hnone, rfl, rfl⟩
  · rintro ⟨before, t, after, s, negative, x, hsplit, hleads, hcaret, hx, hlarge, rfl, rfl⟩
    obtain ⟨c, base, rfl⟩ := ((hleads.awaitsExponent_iff negative).mpr hcaret).exists_eq
    exact Stage.run_eq_error_iff.mpr ⟨before, t, after, _, hsplit, hleads,
      Stage.next_exponent_of_number hx (Stage.exponent?_eq_none_iff.mpr hlarge)⟩

example : parseLines {} "1 m^-2.5" = .error (.invalidNumber "-2.5" ⟨5, 3⟩) := by
  decide +kernel

end UnitCalc
