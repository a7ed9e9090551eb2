import UnitCalc.Text.Position
import UnitCalc.Text.Span

namespace UnitCalc

-- A place in a text: the glyphs ahead, with the byte offset, line and column. A cursor moves by
-- whole glyphs, so the offsets it stops at are the sums of the widths of the glyphs passed.
structure Cursor where
  rest : List Glyph
  offset : Nat
  pos : Position
  deriving DecidableEq, Repr

namespace Cursor

-- The start of a text.
def ofText (source : String) : Cursor :=
  ⟨Glyph.ofString source, 0, .origin⟩

def atEnd (c : Cursor) : Bool :=
  c.rest.isEmpty

-- Passes the first `n` glyphs ahead.
def pass (c : Cursor) (n : Nat) : Cursor :=
  ⟨c.rest.drop n, c.offset + Glyph.size (c.rest.take n), c.pos.after (c.rest.take n)⟩

def advance (c : Cursor) : Cursor :=
  match c.rest with
  | [] => c
  | g :: gs => ⟨gs, c.offset + g.width, c.pos.next g⟩

theorem pass_zero (c : Cursor) : c.pass 0 = c := by
  simp [pass]

theorem pass_pass (c : Cursor) (m n : Nat) : (c.pass m).pass n = c.pass (m + n) := by
  simp [pass, List.take_add, List.drop_drop, Nat.add_assoc]

-- Advancing stays where it is at the end of the text.
theorem pass_one (c : Cursor) : c.pass 1 = c.advance := by
  unfold pass advance
  cases h : c.rest with
  | nil => cases c; simp_all
  | cons g gs => simp [Position.after]

-- Passes glyphs while they satisfy `p`.
def advanceWhile (c : Cursor) (p : Glyph → Bool) : Cursor :=
  c.pass (c.rest.takeWhile p).length

-- The `n`-th byte ahead.
def byteAt? (c : Cursor) (n : Nat) : Option UInt8 :=
  (c.rest.flatMap Glyph.bytes)[n]?

def byte? (c : Cursor) : Option UInt8 :=
  c.byteAt? 0

-- The first cursor from here on at which `stop` holds, or the end of the text.
def seekFrom (stop : Cursor → Bool) : List Glyph → Nat → Position → Cursor
  | [], offset, pos => ⟨[], offset, pos⟩
  | g :: gs, offset, pos =>
      if stop ⟨g :: gs, offset, pos⟩ then ⟨g :: gs, offset, pos⟩
      else seekFrom stop gs (offset + g.width) (pos.next g)

def seekUntil (c : Cursor) (stop : Cursor → Bool) : Cursor :=
  seekFrom stop c.rest c.offset c.pos

-- The cursor at a byte offset of a text; none when no cursor stops there.
def at? (source : String) (offset : Nat) : Option Cursor :=
  let c := (ofText source).seekUntil fun c => offset ≤ c.offset
  if c.offset = offset then some c else none

-- The cursor at a line and column of a text, at the end of that line when it is shorter, or at the
-- end of the text when it has fewer lines.
def atPosition (source : String) (target : Position) : Cursor :=
  let line := (ofText source).seekUntil fun c => target.line ≤ c.pos.line
  line.seekUntil fun c => target.column ≤ c.pos.column || c.rest.head?.any Glyph.isLineEnd

-- The text from a byte offset up to the cursor.
def textFrom (c : Cursor) (source : String) (start : Nat) : String :=
  String.ofList (Text.slice start c.offset source.toList)

end Cursor

end UnitCalc
