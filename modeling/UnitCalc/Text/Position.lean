import UnitCalc.Text.Glyph

namespace UnitCalc

-- Both count from zero; displayed text counts from one.
structure Position where
  line : Nat
  column : Nat
  deriving DecidableEq, Repr

namespace Position

def origin : Position := ⟨0, 0⟩

-- The position after one more glyph.
def next (p : Position) : Glyph → Position
  | .lineEnd _ => ⟨p.line + 1, 0⟩
  | .char _ => ⟨p.line, p.column + 1⟩

-- The position after a run of glyphs.
def after (p : Position) (gs : List Glyph) : Position :=
  gs.foldl next p

@[simp] theorem after_nil (p : Position) : p.after [] = p := rfl

@[simp] theorem after_cons (p : Position) (g : Glyph) (gs : List Glyph) :
    p.after (g :: gs) = (p.next g).after gs := rfl

@[simp] theorem after_append (p : Position) (as bs : List Glyph) :
    p.after (as ++ bs) = (p.after as).after bs := by
  simp [after]

-- Each line ending starts a line.
theorem line_after (p : Position) (gs : List Glyph) :
    (p.after gs).line = p.line + gs.countP Glyph.isLineEnd := by
  induction gs generalizing p with
  | nil => rfl
  | cons g gs ih =>
      rw [after_cons, ih, List.countP_cons]
      cases g with
      | char c => simp [next, Glyph.isLineEnd]
      | lineEnd e =>
          simp only [next, Glyph.isLineEnd, if_true]
          omega

-- Reading order: by line, then by column.
instance : LT Position where
  lt p q := p.line < q.line ∨ p.line = q.line ∧ p.column < q.column

instance : LE Position where
  le p q := p.line < q.line ∨ p.line = q.line ∧ p.column ≤ q.column

instance (p q : Position) : Decidable (p < q) :=
  inferInstanceAs (Decidable (p.line < q.line ∨ p.line = q.line ∧ p.column < q.column))

instance (p q : Position) : Decidable (p ≤ q) :=
  inferInstanceAs (Decidable (p.line < q.line ∨ p.line = q.line ∧ p.column ≤ q.column))

theorem lt_def {p q : Position} :
    p < q ↔ p.line < q.line ∨ p.line = q.line ∧ p.column < q.column := Iff.rfl

theorem le_def {p q : Position} :
    p ≤ q ↔ p.line < q.line ∨ p.line = q.line ∧ p.column ≤ q.column := Iff.rfl

-- Every glyph moves the position on.
theorem lt_next (p : Position) (g : Glyph) : p < p.next g := by
  cases g with
  | char c => exact Or.inr ⟨rfl, Nat.lt_succ_self _⟩
  | lineEnd e => exact Or.inl (Nat.lt_succ_self _)

def sort (ps : List Position) : List Position :=
  ps.mergeSort fun p q => decide (p ≤ q)

def display (p : Position) : String :=
  "Ln: " ++ toString (p.line + 1) ++ " Ch: " ++ toString (p.column + 1)

end Position

end UnitCalc
