import UnitCalc.Line.Parser

namespace UnitCalc

namespace Stage

-- Before a token, an atom stands complete.
inductive AtomEnds : Stage → Token → Context → UnitExpr → Prop where
  | name {c : Context} {symbol : String} {span : Span} {t : Token}
      (h : (t.isNamePiece && t.start == span.stop) = false) :
      AtomEnds (name c symbol span) t c (.name symbol span)
  | atom {c : Context} {e : UnitExpr} {t : Token} : AtomEnds (atom c e) t c e

-- Before a token, a term stands complete, which makes a unit with what is to the left of it.
inductive UnitEnds : Stage → Token → Context → UnitExpr → Prop where
  | atom {s : Stage} {t : Token} {c : Context} {e : UnitExpr} (h : AtomEnds s t c e) :
      UnitEnds s t c (c.left.join e)
  | term {c : Context} {e : UnitExpr} {t : Token} : UnitEnds (term c e) t c (c.left.join e)

-- Before a token, an atom can start in a context.
inductive AtomStarts : Stage → Token → Context → Prop where
  | value {v : Float} {t : Token} : AtomStarts (value v) t (.ofUnit v)
  | operand {c : Context} {t : Token} : AtomStarts (operand c) t c
  | beside {s : Stage} {t : Token} {c : Context} {e : UnitExpr} (h : UnitEnds s t c e) :
      AtomStarts s t (c.joined e .mul)

-- A token takes one stage to another, and may end a line. What is proved about single steps goes by
-- the cases of this relation.
inductive Moves : Stage → Token → Stage → Option Quantity → Prop where
  | blank {t : Token} (h : t.endsLine = true) : Moves blank t blank none
  | sign {t : Token} (h : t.kind = .operator .minus) : Moves blank t sign none
  | positive {t : Token} {v : Float} (h : number t false = .ok v) : Moves blank t (value v) none
  | negative {t : Token} {v : Float} (h : number t true = .ok v) : Moves sign t (value v) none
  | opening {s : Stage} {t : Token} {c : Context} (hs : AtomStarts s t c)
      (h : t.kind = .opening .round) : Moves s t (operand c.opened) none
  | piece {s : Stage} {t : Token} {c : Context} (hs : AtomStarts s t c)
      (h : t.isNamePiece = true) : Moves s t (name c t.text t.span) none
  | glue {t : Token} {c : Context} {symbol : String} {span : Span} (hpiece : t.isNamePiece = true)
      (h : t.start = span.stop) :
      Moves (name c symbol span) t
        (name c (symbol ++ t.text) ⟨span.start, t.span.stop - span.start⟩) none
  | caret {s : Stage} {t : Token} {c : Context} {e : UnitExpr} (hs : AtomEnds s t c e)
      (h : t.kind = .operator .power) : Moves s t (exponent c e false) none
  | exponentSign {t : Token} {c : Context} {e : UnitExpr} (h : t.kind = .operator .minus) :
      Moves (exponent c e false) t (exponent c e true) none
  | exponent {t : Token} {c : Context} {e : UnitExpr} {negative : Bool} {x : Float} {n : Int}
      (h : number t negative = .ok x) (hn : exponent? x = some n) :
      Moves (exponent c e negative) t (term c (.pow e n)) none
  | times {s : Stage} {t : Token} {c : Context} {e : UnitExpr} (hs : UnitEnds s t c e)
      (h : t.kind = .operator .times) : Moves s t (operand (c.joined e .mul)) none
  | divide {s : Stage} {t : Token} {c : Context} {e : UnitExpr} (hs : UnitEnds s t c e)
      (h : t.kind = .operator .divide) : Moves s t (operand (c.joined e .div)) none
  | closing {s : Stage} {t : Token} {c : Context} {e : UnitExpr} {left : LeftSide}
      {outer : List LeftSide} (hs : UnitEnds s t c e) (houter : c.outer = left :: outer)
      (h : t.kind = .closing .round) :
      Moves s t (atom { c with left := left, outer := outer } (.group e)) none
  | targetOfValue {t : Token} {v : Float} (h : t.kind = .keyword .asWord) :
      Moves (value v) t (operand (.ofTarget v none)) none
  | targetOfUnit {s : Stage} {t : Token} {c : Context} {e : UnitExpr} (hs : UnitEnds s t c e)
      (houter : c.outer = []) (htarget : c.isTarget = false) (h : t.kind = .keyword .asWord) :
      Moves s t (operand (.ofTarget c.value (some e))) none
  | endOfValue {t : Token} {v : Float} (h : t.endsLine = true) :
      Moves (value v) t blank (some ⟨v, none, none⟩)
  | endOfUnit {s : Stage} {t : Token} {c : Context} {e : UnitExpr} (hs : UnitEnds s t c e)
      (houter : c.outer = []) (htarget : c.isTarget = false) (h : t.endsLine = true) :
      Moves s t blank (some ⟨c.value, some e, none⟩)
  | endOfTarget {s : Stage} {t : Token} {c : Context} {e : UnitExpr} (hs : UnitEnds s t c e)
      (houter : c.outer = []) (htarget : c.isTarget = true) (h : t.endsLine = true) :
      Moves s t blank (some ⟨c.value, c.unit, some e⟩)

section

variable {s s' : Stage} {t : Token} {c : Context} {e : UnitExpr} {line : Option Quantity}

theorem moves_of_startAtom (hs : AtomStarts s t c) (h : startAtom c t = .ok (s', line)) :
    Moves s t s' line := by
  unfold startAtom at h
  split at h
  · rename_i ho
    cases h
    exact .opening hs (by simpa using ho)
  split at h
  · rename_i hp
    cases h
    exact .piece hs hp
  split at h <;> cases h

theorem eq_of_endLine {q : Quantity} (h : endLine q t = .ok (s', line)) :
    t.endsLine = true ∧ s' = blank ∧ line = some q := by
  unfold endLine at h
  split at h
  · rename_i hend
    cases h
    exact ⟨hend, rfl, rfl⟩
  · cases h

theorem moves_of_afterTerm (hs : UnitEnds s t c e) (h : afterTerm c e t = .ok (s', line)) :
    Moves s t s' line := by
  unfold afterTerm at h
  split at h
  · rename_i htimes
    cases h
    exact .times hs (by simpa [Token.isOperator] using htimes)
  split at h
  · rename_i hdivide
    cases h
    exact .divide hs (by simpa [Token.isOperator] using hdivide)
  split at h
  · exact moves_of_startAtom (.beside hs) h
  split at h
  · rename_i houter
    split at h
    · rename_i hclosing
      cases h
      exact .closing hs houter (by simpa using hclosing)
    · cases h
  · rename_i houter
    split at h
    · rename_i htarget
      obtain ⟨hend, rfl, rfl⟩ := eq_of_endLine h
      exact .endOfTarget hs houter htarget hend
    · rename_i htarget
      have hunit : c.isTarget = false := by simpa using htarget
      unfold afterUnit at h
      split at h
      · rename_i has
        cases h
        exact .targetOfUnit hs houter hunit (by simpa using has)
      · obtain ⟨hend, rfl, rfl⟩ := eq_of_endLine h
        exact .endOfUnit hs houter hunit hend

theorem moves_of_afterAtom (hs : AtomEnds s t c e) (h : afterAtom c e t = .ok (s', line)) :
    Moves s t s' line := by
  unfold afterAtom at h
  split at h
  · rename_i hpower
    cases h
    exact .caret hs (by simpa [Token.isOperator] using hpower)
  · exact moves_of_afterTerm (.atom hs) h

-- A step that succeeds is one of the moves.
theorem moves_of_step (h : s.step t = .ok (s', line)) : Moves s t s' line := by
  cases s with
  | blank =>
      simp only [step] at h
      split at h
      · rename_i hend
        cases h
        exact .blank hend
      split at h
      · rename_i hminus
        cases h
        exact .sign (by simpa [Token.isOperator] using hminus)
      · cases hv : number t false with
        | error err => simp [hv, bind, Except.bind] at h
        | ok v =>
            rw [hv] at h
            cases h
            exact .positive hv
  | sign =>
      simp only [step] at h
      cases hv : number t true with
      | error err => simp [hv, bind, Except.bind] at h
      | ok v =>
          rw [hv] at h
          cases h
          exact .negative hv
  | value v =>
      simp only [step] at h
      split at h
      · exact moves_of_startAtom .value h
      unfold afterUnit at h
      split at h
      · rename_i has
        cases h
        exact .targetOfValue (by simpa using has)
      · obtain ⟨hend, rfl, rfl⟩ := eq_of_endLine h
        exact .endOfValue hend
  | operand c => exact moves_of_startAtom .operand h
  | name c symbol span =>
      simp only [step] at h
      split at h
      · rename_i htouch
        cases h
        simp only [Bool.and_eq_true, beq_iff_eq] at htouch
        exact .glue htouch.1 htouch.2
      · rename_i htouch
        exact moves_of_afterAtom (.name (by simpa using htouch)) h
  | atom c e => exact moves_of_afterAtom .atom h
  | exponent c base negative =>
      simp only [step] at h
      split at h
      · rename_i hminus
        cases h
        simp only [Bool.and_eq_true, Bool.not_eq_true', Token.isOperator, beq_iff_eq] at hminus
        obtain ⟨rfl, hminus⟩ := hminus
        exact .exponentSign hminus
      · cases hx : number t negative with
        | error err => simp [hx, bind, Except.bind] at h
        | ok x =>
            rw [hx] at h
            simp only [bind, Except.bind] at h
            split at h
            · rename_i n hn
              cases h
              exact .exponent hx hn
            · cases h
  | term c e => exact moves_of_afterTerm .term h

end

end Stage

end UnitCalc
