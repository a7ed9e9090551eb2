import UnitCalc.Text.Utf8

namespace UnitCalc

inductive LineEnding where
  | crlf
  | lfcr
  | lf
  | cr
  deriving DecidableEq, Repr

namespace LineEnding

def chars : LineEnding → List Char
  | crlf => ['\r', '\n']
  | lfcr => ['\n', '\r']
  | lf => ['\n']
  | cr => ['\r']

end LineEnding

-- Text as it is counted in lines and columns: each line ending is one glyph, whichever of its four
-- spellings is used, and each other character is one glyph.
inductive Glyph where
  | char (c : Char)
  | lineEnd (e : LineEnding)
  deriving DecidableEq, Repr

namespace Glyph

def chars : Glyph → List Char
  | char c => [c]
  | lineEnd e => e.chars

theorem chars_ne_nil (g : Glyph) : g.chars ≠ [] := by
  cases g with
  | char c => simp [chars]
  | lineEnd e => cases e <;> simp [chars, LineEnding.chars]

-- Reads a text from the left; a pair of the two line-ending characters, in either order, is taken
-- together.
def ofChars : List Char → List Glyph
  | '\r' :: '\n' :: cs => lineEnd .crlf :: ofChars cs
  | '\n' :: '\r' :: cs => lineEnd .lfcr :: ofChars cs
  | '\n' :: cs => lineEnd .lf :: ofChars cs
  | '\r' :: cs => lineEnd .cr :: ofChars cs
  | c :: cs => char c :: ofChars cs
  | [] => []

-- No character is lost.
theorem flatMap_chars_ofChars (cs : List Char) : (ofChars cs).flatMap chars = cs := by
  fun_induction ofChars cs <;> simp_all [chars, LineEnding.chars]

theorem ofChars_cons {c : Char} (hc : c ≠ '\r' ∧ c ≠ '\n') (cs : List Char) :
    ofChars (c :: cs) = char c :: ofChars cs := by
  rw [ofChars]
  · exact fun _ h => absurd h hc.1
  · exact fun _ h => absurd h hc.2
  · exact hc.2
  · exact hc.1

-- A text that ends no line is a run of characters.
theorem ofChars_append {cs : List Char} (h : ∀ c ∈ cs, c ≠ '\r' ∧ c ≠ '\n') (ds : List Char) :
    ofChars (cs ++ ds) = cs.map char ++ ofChars ds := by
  induction cs with
  | nil => rfl
  | cons c cs ih =>
      have hcs := ih fun d hd => h d (List.mem_cons_of_mem c hd)
      rw [List.cons_append, ofChars_cons (h c List.mem_cons_self), hcs, List.map_cons,
        List.cons_append]

theorem exists_tail_ofChars (cs : List Char) : ∃ ds, (ofChars cs).tail = ofChars ds := by
  fun_cases ofChars cs with
  | case6 => exact ⟨[], rfl⟩
  | _ => exact ⟨_, rfl⟩

-- What is left after some glyphs is read as a text of its own.
theorem drop_ofChars (cs : List Char) (n : Nat) :
    (ofChars cs).drop n = ofChars (((ofChars cs).drop n).flatMap chars) := by
  induction n generalizing cs with
  | zero => rw [List.drop_zero, flatMap_chars_ofChars]
  | succ n ih =>
      obtain ⟨ds, hds⟩ := exists_tail_ofChars cs
      rw [← List.drop_tail, hds]
      exact ih ds

def ofString (s : String) : List Glyph :=
  ofChars s.toList

-- The text that some glyphs spell.
def text (gs : List Glyph) : String :=
  String.ofList (gs.flatMap chars)

theorem flatMap_chars_map_char (cs : List Char) : (cs.map char).flatMap chars = cs := by
  induction cs with
  | nil => rfl
  | cons c cs ih =>
      rw [List.map_cons, List.flatMap_cons, ih]
      rfl

theorem text_map_char (cs : List Char) : text (cs.map char) = String.ofList cs := by
  rw [text, flatMap_chars_map_char]

theorem text_ofString (s : String) : text (ofString s) = s := by
  simp [text, ofString, flatMap_chars_ofChars]

-- The number of bytes of a glyph.
def width (g : Glyph) : Nat :=
  Text.byteSize g.chars

theorem width_pos (g : Glyph) : 0 < g.width :=
  Text.byteSize_pos g.chars_ne_nil

-- The number of bytes of a run of glyphs.
def size : List Glyph → Nat
  | [] => 0
  | g :: gs => g.width + size gs

@[simp] theorem size_nil : size [] = 0 := rfl

@[simp] theorem size_cons (g : Glyph) (gs : List Glyph) : size (g :: gs) = g.width + size gs := rfl

@[simp] theorem size_append (as bs : List Glyph) : size (as ++ bs) = size as + size bs := by
  induction as with
  | nil => simp
  | cons a as ih => simp [ih, Nat.add_assoc]

theorem byteSize_flatMap_chars (gs : List Glyph) :
    Text.byteSize (gs.flatMap chars) = size gs := by
  induction gs with
  | nil => rfl
  | cons g gs ih => simp [ih, width]

theorem utf8ByteSize_text (gs : List Glyph) : (text gs).utf8ByteSize = size gs := by
  rw [text, Text.utf8ByteSize_ofList, byteSize_flatMap_chars]

theorem size_ofString (s : String) : size (ofString s) = s.utf8ByteSize := by
  rw [← utf8ByteSize_text, text_ofString]

def bytes (g : Glyph) : List UInt8 :=
  Text.bytes g.chars

-- Whether a glyph is a character of the given class; a line ending is in none.
def is (p : Char → Bool) : Glyph → Bool
  | char c => p c
  | lineEnd _ => false

def isLineEnd : Glyph → Bool
  | char _ => false
  | lineEnd _ => true

end Glyph

end UnitCalc
