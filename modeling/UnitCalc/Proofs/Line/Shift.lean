import UnitCalc.Proofs.Line.Words
import UnitCalc.Proofs.Token.Shift

namespace UnitCalc

section

variable (m : Shift)

def UnitExpr.moved : UnitExpr → UnitExpr
  | name symbol span => name symbol (span.moved m)
  | mul left right => mul left.moved right.moved
  | div left right => div left.moved right.moved
  | pow base exponent => pow base.moved exponent
  | group inner => group inner.moved

def Quantity.moved (q : Quantity) : Quantity :=
  ⟨q.value, q.unit.map (UnitExpr.moved m), q.target.map (UnitExpr.moved m)⟩

def ParseError.moved : ParseError → ParseError
  | expectedNumber found span => expectedNumber found (span.moved m)
  | expectedUnit found span => expectedUnit found (span.moved m)
  | unexpected found span => unexpected found (span.moved m)
  | invalidNumber text span => invalidNumber text (span.moved m)
  | lexical e => lexical (e.moved m)

def LeftSide.moved (left : LeftSide) : LeftSide :=
  left.map fun (e, j) => (e.moved m, j)

def Context.moved (c : Context) : Context :=
  ⟨c.value, c.unit.map (UnitExpr.moved m), c.isTarget, LeftSide.moved m c.left,
    c.outer.map (LeftSide.moved m)⟩

def Stage.moved : Stage → Stage
  | blank => blank
  | sign => sign
  | value v => value v
  | operand c => operand (c.moved m)
  | name c symbol span => name (c.moved m) symbol (span.moved m)
  | atom c e => atom (c.moved m) (e.moved m)
  | exponent c base negative => exponent (c.moved m) (base.moved m) negative
  | term c e => term (c.moved m) (e.moved m)

def Stage.Next.moved : Next → Next
  | .ok (s, line) => .ok (s.moved m, line.map (Quantity.moved m))
  | .error e => .error (e.moved m)

-- Whether a span can be moved. Offsets go up to a largest one.
def Span.Fits (s : Span) : Prop :=
  s.start + s.length + m.bytes ≤ maxOffset

-- Whether a stage can be moved. Only in a name it matters where the parser is.
def Stage.Fits : Stage → Prop
  | name _ _ span => span.Fits m
  | _ => True

end

variable {m : Shift}

theorem LeftSide.join_moved (left : LeftSide) (e : UnitExpr) :
    LeftSide.join (LeftSide.moved m left) (e.moved m) = (left.join e).moved m := by
  rcases left with _ | ⟨l, _ | _⟩ <;> rfl

theorem joinLines_moved (ts : List Token) :
    joinLines (ts.map (Token.moved m)) = (joinLines ts).map (Token.moved m) :=
  joinLines_map (f := Token.moved m) (fun _ => rfl) (fun _ => rfl) ts

namespace Stage

theorem number_moved (t : Token) (negative : Bool) :
    number (t.moved m) negative = (number t negative).mapError (ParseError.moved m) := by
  have htext : (t.moved m).text = t.text := rfl
  rw [number, number, apply_ite (Except.mapError (ParseError.moved m)), htext]
  cases Number.read? t.text <;> rfl

theorem unexpected_moved (t : Token) : (t.moved m).unexpected = t.unexpected.moved m := by
  rw [Token.unexpected, Token.unexpected, apply_ite (ParseError.moved m)]
  rfl

theorem startAtom_moved (c : Context) (t : Token) :
    startAtom (c.moved m) (t.moved m) = Next.moved m (startAtom c t) := by
  rw [startAtom, startAtom, unexpected_moved, apply_ite (Next.moved m), apply_ite (Next.moved m),
    apply_ite (Next.moved m)]
  rfl

theorem endLine_moved (q : Quantity) (t : Token) :
    endLine (q.moved m) (t.moved m) = Next.moved m (endLine q t) := by
  rw [endLine, endLine, unexpected_moved, apply_ite (Next.moved m)]
  rfl

theorem afterUnit_moved (v : Float) (unit : Option UnitExpr) (t : Token) :
    afterUnit v (unit.map (UnitExpr.moved m)) (t.moved m) = Next.moved m (afterUnit v unit t) := by
  have hend := endLine_moved (m := m) ⟨v, unit, none⟩ t
  rw [afterUnit, afterUnit, apply_ite (Next.moved m), ← hend]
  rfl

theorem afterTerm_moved (c : Context) (e : UnitExpr) (t : Token) :
    afterTerm (c.moved m) (e.moved m) (t.moved m) = Next.moved m (afterTerm c e t) := by
  have hbeside := startAtom_moved (m := m) (c.joined e .mul) t
  rw [afterTerm, afterTerm, apply_ite (Next.moved m), apply_ite (Next.moved m),
    apply_ite (Next.moved m), ← hbeside]
  obtain ⟨v, unit, isTarget, left, outer⟩ := c
  cases outer with
  | nil =>
      have hend := endLine_moved (m := m) ⟨v, unit, some e⟩ t
      have hunit := afterUnit_moved (m := m) v (some e) t
      simp only [apply_ite (Next.moved m), ← hend, ← hunit]
      rfl
  | cons first outer =>
      simp only [apply_ite (Next.moved m)]
      rw [unexpected_moved]
      rfl

theorem afterAtom_moved (c : Context) (e : UnitExpr) (t : Token) :
    afterAtom (c.moved m) (e.moved m) (t.moved m) = Next.moved m (afterAtom c e t) := by
  have hterm := afterTerm_moved (m := m) c (c.left.join e) t
  rw [afterAtom, afterAtom, apply_ite (Next.moved m), ← hterm, ← LeftSide.join_moved]
  rfl

theorem step_moved {s : Stage} {t : Token} (hs : s.Fits m) (ht : t.span.Fits m) :
    (s.moved m).step (t.moved m) = Next.moved m (s.step t) := by
  cases s with
  | blank =>
      rw [moved, step, step, number_moved, apply_ite (Next.moved m), apply_ite (Next.moved m)]
      cases number t false <;> rfl
  | sign =>
      rw [moved, step, step, number_moved]
      cases number t true <;> rfl
  | value v =>
      have hstart := startAtom_moved (m := m) (.ofUnit v) t
      have hafter := afterUnit_moved (m := m) v none t
      rw [moved, step, step, apply_ite (Next.moved m), ← hstart, ← hafter]
      rfl
  | operand c => exact startAtom_moved c t
  | name c symbol span =>
      have hafter := afterAtom_moved (m := m) c (.name symbol span) t
      have hstop := Span.stop_moved m hs
      have htstop := Span.stop_moved m ht
      have htouch : ((t.moved m).start == (span.moved m).stop) = (t.start == span.stop) := by
        rw [hstop]
        exact Bool.eq_iff_iff.mpr (by simp [Token.moved])
      have hjoined : (t.moved m).span.stop - (span.moved m).start = t.span.stop - span.start := by
        rw [Token.span_moved, htstop]
        exact Nat.add_sub_add_right _ _ _
      rw [moved, step, step, apply_ite (Next.moved m), ← hafter, htouch, hjoined]
      rfl
  | atom c e => exact afterAtom_moved c e t
  | exponent c base negative =>
      rw [moved, step, step, number_moved, apply_ite (Next.moved m)]
      cases number t negative with
      | error e => rfl
      | ok x =>
          cases hx : exponent? x <;> simp [bind, Except.bind, hx, Except.mapError] <;> rfl
  | term c e =>
      have hafter := afterTerm_moved (m := m) c (c.left.join e) t
      rw [moved, step, step, ← hafter, ← LeftSide.join_moved]
      rfl

theorem next_moved {s : Stage} {t : Token} (hs : s.Fits m) (ht : t.span.Fits m) :
    (s.moved m).next (t.moved m) = Next.moved m (s.next t) := by
  have hskips : (s.moved m).skips (t.moved m) = s.skips t := by
    have hdepth : (s.moved m).depth = s.depth := by
      cases s <;> simp [moved, depth, Context.moved]
    rw [skips, skips, hdepth]
    rfl
  have hstep := step_moved hs ht
  rw [next, next, hskips, apply_ite (Next.moved m), LexError.ofToken?_moved, hstep]
  cases LexError.ofToken? t <;> rfl

theorem fits_of_moves {s s' : Stage} {t : Token} {line : Option Quantity}
    (h : Moves s t s' line) (hs : s.Fits m) (ht : t.span.Fits m) : s'.Fits m := by
  cases h with
  | piece _ _ => exact ht
  | @glue t c symbol span _ _ =>
      have hstop : t.span.stop ≤ t.span.start + t.span.length := Nat.min_le_left _ _
      simp only [Fits, Span.Fits] at hs ht ⊢
      omega
  | _ => trivial

theorem fits_of_next {s s' : Stage} {t : Token} {line : Option Quantity}
    (h : s.next t = .ok (s', line)) (hs : s.Fits m) (ht : t.span.Fits m) : s'.Fits m := by
  rcases next_cases h with ⟨-, rfl, -⟩ | ⟨-, -, hstep⟩
  · exact hs
  · exact fits_of_moves (moves_of_step hstep) hs ht

-- The lines of a moved text.
theorem run_moved {s : Stage} {ts : List Token} (hs : s.Fits m)
    (hts : ∀ t ∈ ts, t.span.Fits m) :
    (s.moved m).run (ts.map (Token.moved m)) =
      match s.run ts with
      | .ok qs => .ok (qs.map (Quantity.moved m))
      | .error e => .error (e.moved m) := by
  induction ts generalizing s with
  | nil => rfl
  | cons t ts ih =>
      have ht := hts t List.mem_cons_self
      rw [List.map_cons, run, run, next_moved hs ht]
      cases hnext : s.next t with
      | error e => rfl
      | ok r =>
          obtain ⟨s', line⟩ := r
          have hrest := ih (fits_of_next hnext hs ht) fun t ht => hts t (List.mem_cons_of_mem _ ht)
          simp only [Next.moved, bind, Except.bind, hrest]
          cases s'.run ts with
          | error e => rfl
          | ok qs => cases line <;> rfl

end Stage

end UnitCalc
