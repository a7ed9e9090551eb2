import UnitCalc.Text.Cursor
import UnitCalc.Token.Basic
import UnitCalc.Token.Piece

namespace UnitCalc

namespace Piece

theorem word_lexeme_ne_nil {c : Char} {r : List Glyph} (h : isIdentifierStart c) :
    (word (.char c :: r)).lexeme ≠ [] := by
  have hp : isIdentifierPart c := by
    simp only [isIdentifierStart, isIdentifierPart, Char.isAlphanum, Bool.or_eq_true] at h ⊢
    rcases h with h | h <;> simp [h]
  simp [word, Glyph.is, hp]

theorem number_ne_nil {c : Char} {r : List Glyph} (h : startsNumber c r.head?) :
    number (.char c :: r) ≠ [] := by
  simp only [startsNumber, Bool.or_eq_true, Bool.and_eq_true, beq_iff_eq] at h
  suffices hm : mantissa (.char c :: r) ≠ [] by simp [number, hm]
  unfold mantissa
  split
  · simp
  · rename_i hdot
    have hd : c.isDigit := by
      rcases h with h | ⟨rfl, _⟩
      · exact h
      · exact absurd rfl (hdot r)
    have hw : digits (.char c :: r) = .char c :: digits r := by simp [digits, Glyph.is, hd]
    simp only [hw]
    split <;> simp

theorem one_le_mark (c : Char) (next : Option Glyph) : 1 ≤ (mark c next).2 := by
  unfold mark
  split <;> (try exact Nat.le_refl 1) <;> (dsimp only; split <;> simp)

-- A piece is empty only at the end of the text.
theorem glyphs_atGlyph_ne_nil (o : LexOptions) {gs : List Glyph} (h : gs ≠ []) :
    (atGlyph o gs).glyphs ≠ [] := by
  match gs with
  | [] => exact absurd rfl h
  | .lineEnd e :: _ => simp [atGlyph, glyphs]
  | .char c :: r =>
      simp only [atGlyph]
      split
      · simp [glyphs]
      split
      · simp [glyphs]
      split
      · simp [glyphs, literal]
      split
      · rename_i hs
        simp [glyphs, word_lexeme_ne_nil hs]
      split
      · rename_i hn
        simp [glyphs, number_ne_nil hn]
      · have hm := one_le_mark c r.head?
        obtain ⟨n, hn⟩ : ∃ n, (mark c r.head?).2 = n + 1 := ⟨_, (Nat.sub_add_cancel hm).symm⟩
        simp [glyphs, hn]

end Piece

namespace Cursor

@[simp] theorem rest_pass (c : Cursor) (n : Nat) : (c.pass n).rest = c.rest.drop n := rfl

-- Passes a piece, giving its token.
def take (c : Cursor) (p : Piece) : Token × Cursor :=
  let first := c.pass p.skipped.length
  let last := first.pass p.lexeme.length
  (⟨p.kind, first.pos, first.offset, Glyph.text p.lexeme⟩, last.pass p.closing.length)

theorem rest_take (c : Cursor) (p : Piece) :
    (c.take p).2.rest = c.rest.drop p.glyphs.length := by
  simp [take, Piece.glyphs, List.drop_drop, Nat.add_assoc]

-- Reads the next token. At the end of the text this is the end token, again and again.
def read (o : LexOptions) (c : Cursor) : Token × Cursor :=
  c.take (.ofGlyphs o c.rest)

-- Every token but the end token leaves less to read.
theorem length_rest_read_lt {o : LexOptions} {c : Cursor}
    (h : (c.read o).1.kind ≠ .endOfFile) : (c.read o).2.rest.length < c.rest.length := by
  have hrest : c.rest.drop (Piece.trivia o.comments c.rest).length ≠ [] := by
    intro hnil
    apply h
    simp [read, take, Piece.ofGlyphs, hnil, Piece.atGlyph]
  have hpiece := Piece.glyphs_atGlyph_ne_nil o hrest
  have hlen := List.length_pos_iff.mpr hpiece
  have hpos := List.length_pos_iff.mpr hrest
  simp only [List.length_drop] at hpos
  rw [read, rest_take]
  simp only [Piece.ofGlyphs, Piece.glyphs, List.length_drop, List.length_append] at hlen ⊢
  omega

-- All tokens from a cursor on, the end token last.
def tokens (o : LexOptions) (c : Cursor) : List Token :=
  let next := c.read o
  if next.1.kind = .endOfFile then [next.1] else next.1 :: tokens o next.2
termination_by c.rest.length
decreasing_by exact length_rest_read_lt ‹_›

end Cursor

-- All tokens of a text, the end token last.
def lex (o : LexOptions) (source : String) : List Token :=
  (Cursor.ofText source).tokens o

-- The tokens of a text without faults, or else the first fault.
def tokenize (o : LexOptions) (source : String) : Except LexError (List Token) :=
  match (lex o source).findSome? LexError.ofToken? with
  | some e => .error e
  | none => .ok (lex o source)

-- A text being read, which can be read again from any place a cursor stops at.
structure Reader where
  source : String
  options : LexOptions
  cursor : Cursor
  deriving DecidableEq, Repr

namespace Reader

def ofText (o : LexOptions) (source : String) : Reader :=
  ⟨source, o, .ofText source⟩

def read (r : Reader) : Token × Reader :=
  let (t, c) := r.cursor.read r.options
  (t, { r with cursor := c })

-- The next token, or none at the end of the text.
def next? (r : Reader) : Option Token × Reader :=
  let (t, r) := r.read
  (if t.isEnd then none else some t, r)

-- Reads a word right here, with no blanks before it.
def readWord (r : Reader) : Except TokenError (Token × Reader) :=
  if r.cursor.rest.head?.any (Glyph.is Piece.isIdentifierStart) then
    let (t, c) := r.cursor.take (.word r.cursor.rest)
    .ok (t, { r with cursor := c })
  else
    .error (.notAtIdentifier r.cursor.offset)

-- Reads a string literal right here, whether or not the options allow for them.
def readLiteral (r : Reader) (escapes : Bool) : Except TokenError (Token × Reader) :=
  match r.cursor.rest with
  | .char q :: gs =>
      if Piece.isQuote q then
        let (t, c) := r.cursor.take (.literal escapes q gs)
        .ok (t, { r with cursor := c })
      else
        .error (.notAtQuote r.cursor.offset)
  | _ => .error (.notAtQuote r.cursor.offset)

def reset (r : Reader) : Reader :=
  ofText r.options r.source

-- Goes to a byte offset, which must be one that a cursor stops at.
def moveTo (r : Reader) (offset : Nat) : Except TokenError Reader :=
  let size := r.source.utf8ByteSize
  if size < offset then
    .error (.pastEnd offset size)
  else
    match Cursor.at? r.source offset with
    | some c => .ok { r with cursor := c }
    | none => .error (.insideGlyph offset)

-- Goes to a line and column, or as near before it as the text allows.
def moveToPosition (r : Reader) (pos : Position) : Reader :=
  { r with cursor := .atPosition r.source pos }

end Reader

end UnitCalc
