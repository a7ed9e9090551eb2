import UnitCalc.Proofs.Token.Piece

namespace UnitCalc

-- How far a text is moved.
structure Shift where
  bytes : Nat
  lines : Nat

section

variable (m : Shift)

def Position.moved (p : Position) : Position :=
  ⟨p.line + m.lines, p.column⟩

def Span.moved (s : Span) : Span :=
  ⟨s.start + m.bytes, s.length⟩

def Cursor.moved (c : Cursor) : Cursor :=
  ⟨c.rest, c.offset + m.bytes, c.pos.moved m⟩

def Token.moved (t : Token) : Token :=
  ⟨t.kind, t.pos.moved m, t.start + m.bytes, t.text⟩

def LexError.moved (e : LexError) : LexError :=
  ⟨e.fault, e.pos.moved m, e.span.moved m⟩

theorem Position.after_moved (p : Position) (gs : List Glyph) :
    (p.moved m).after gs = (p.after gs).moved m := by
  induction gs generalizing p with
  | nil => rfl
  | cons g gs ih =>
      have hnext : (p.moved m).next g = (p.next g).moved m := by
        cases g with
        | char c => rfl
        | lineEnd e =>
            simp only [next, moved, Nat.add_right_comm]
      rw [after_cons, hnext, ih, after_cons]

theorem Span.stop_moved {s : Span} (h : s.start + s.length + m.bytes ≤ maxOffset) :
    (s.moved m).stop = s.stop + m.bytes := by
  simp only [stop, moved]
  omega

theorem Token.span_moved (t : Token) : (t.moved m).span = t.span.moved m := rfl

theorem LexError.ofToken?_moved (t : Token) :
    ofToken? (t.moved m) = (ofToken? t).map (moved m) := by
  rw [ofToken?, ofToken?, Option.map_map]
  rfl

theorem Cursor.read_moved (o : LexOptions) (c : Cursor) :
    (c.moved m).read o = ((c.read o).1.moved m, (c.read o).2.moved m) := by
  rw [read_eq o c rfl, read_eq o (c.moved m) rfl]
  simp only [moved, Token.moved, Position.after_moved, Nat.add_right_comm]

theorem Cursor.tokens_moved (o : LexOptions) (c : Cursor) :
    (c.moved m).tokens o = (c.tokens o).map (Token.moved m) := by
  fun_induction c.tokens o with
  | case1 c next hend =>
      have hkind : ((c.moved m).read o).1.kind = .endOfFile := by
        rw [read_moved]
        exact hend
      rw [tokens, if_pos hkind, read_moved]
      rfl
  | case2 c next hend ih =>
      have hkind : ((c.moved m).read o).1.kind ≠ .endOfFile := by
        rw [read_moved]
        exact hend
      rw [tokens, if_neg hkind, read_moved, ih]
      rfl

end

namespace Cursor

variable {o : LexOptions} {c : Cursor} {t : Token}

theorem stop_read_le :
    (c.read o).1.start + (c.read o).1.text.utf8ByteSize ≤ c.offset + Glyph.size c.rest := by
  have hend := c.end_read o
  rw [read_eq o c rfl] at hend ⊢
  simp only [Glyph.utf8ByteSize_text, Piece.glyphs, Glyph.size_append] at hend ⊢
  omega

-- No token goes past the end of the text.
theorem stop_le_of_mem_tokens (h : t ∈ c.tokens o) :
    t.start + t.text.utf8ByteSize ≤ c.offset + Glyph.size c.rest := by
  fun_induction c.tokens o with
  | case1 c next hend =>
      obtain rfl := List.mem_singleton.mp h
      exact stop_read_le
  | case2 c next hend ih =>
      rcases List.mem_cons.mp h with rfl | h
      · exact stop_read_le
      · exact c.end_read o ▸ ih h

theorem stop_le_of_mem_lex {source : String} (h : t ∈ lex o source) :
    t.start + t.text.utf8ByteSize ≤ source.utf8ByteSize := by
  have hstop := stop_le_of_mem_tokens h
  rwa [ofText, Glyph.size_ofString, Nat.zero_add] at hstop

end Cursor

end UnitCalc
