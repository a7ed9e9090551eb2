import UnitCalc.Proofs.Token.Numeral
import UnitCalc.Proofs.Token.Tiling

namespace UnitCalc

namespace Text

-- Whether a byte offset is one between two characters of a text, or at an end of it.
def IsBoundary (source : String) (offset : Nat) : Prop :=
  ∃ before after, source.toList = before ++ after ∧ offset = byteSize before

theorem IsBoundary.le {source : String} {offset : Nat} (h : IsBoundary source offset) :
    offset ≤ source.utf8ByteSize := by
  obtain ⟨before, after, hsplit, rfl⟩ := h
  rw [← byteSize_toList, hsplit, byteSize_append]
  exact Nat.le_add_right _ _

end Text

open Text

namespace Span

def LiesIn (s : Span) (source : String) : Prop :=
  IsBoundary source s.start ∧ IsBoundary source (s.start + s.length)

-- Whether a span is that of a part of a text.
def Covers (s : Span) (part source : String) : Prop :=
  ∃ before after, source.toList = before ++ part.toList ++ after ∧
    s = ⟨byteSize before, part.utf8ByteSize⟩

variable {s a b : Span} {part source : String}

theorem stop_of_le (h : s.start + s.length ≤ maxOffset) : s.stop = s.start + s.length :=
  Nat.min_eq_left h

theorem Covers.liesIn (h : s.Covers part source) : s.LiesIn source := by
  obtain ⟨before, after, hsplit, rfl⟩ := h
  refine ⟨⟨before, part.toList ++ after, ?_, rfl⟩, ⟨before ++ part.toList, after, hsplit, ?_⟩⟩
  · rw [hsplit, List.append_assoc]
  · rw [byteSize_append, byteSize_toList]

theorem Covers.stop_eq (h : s.Covers part source) (hsize : source.utf8ByteSize ≤ maxOffset) :
    s.stop = s.start + s.length :=
  stop_of_le (Nat.le_trans h.liesIn.2.le hsize)

theorem Covers.textIn (h : s.Covers part source) (hsize : source.utf8ByteSize ≤ maxOffset) :
    s.textIn source = part := by
  have hstop := h.stop_eq hsize
  have hle := h.liesIn.2.le
  obtain ⟨before, after, hsplit, rfl⟩ := h
  simp only at hstop hle
  by_cases hlt : byteSize before < source.utf8ByteSize
  · have hslice := slice_append before part.toList after
    rw [byteSize_toList, ← List.append_assoc, ← hsplit] at hslice
    simp only [Span.textIn, if_pos hlt, hstop, Nat.min_eq_left hle, hslice, String.ofList_toList]
  · have hempty : part.utf8ByteSize = 0 := by omega
    simp only [Span.textIn, if_neg hlt]
    exact (String.utf8ByteSize_eq_zero_iff.mp hempty).symm

-- Parts in a row make up a part.
theorem Covers.append {first second : String} (ha : a.Covers first source)
    (hb : b.Covers second source) (h : b.start = a.start + a.length) :
    (⟨a.start, a.length + b.length⟩ : Span).Covers (first ++ second) source := by
  obtain ⟨before, after, hsplit, rfl⟩ := ha
  obtain ⟨before', after', hsplit', rfl⟩ := hb
  simp only at h
  have hsize : byteSize (before ++ first.toList) = byteSize before' := by
    rw [byteSize_append, byteSize_toList, h]
  have hsame := hsplit.symm.trans hsplit'
  rw [List.append_assoc before'] at hsame
  obtain ⟨rfl, rfl⟩ := append_inj_of_byteSize hsame hsize
  refine ⟨before, after', ?_, ?_⟩
  · rw [hsplit', String.toList_append, List.append_assoc before]
  · rw [String.utf8ByteSize_append]

-- The least span over two of which the second one ends last.
theorem join_of_le (hstart : a.start ≤ b.start) (hstop : a.stop ≤ b.stop) :
    a.join b = ⟨a.start, b.stop - a.start⟩ := by
  simp only [join, Nat.min_eq_left hstart, Nat.max_eq_right hstop]

end Span

namespace Cursor

theorem stop_read_le_offset (o : LexOptions) (c : Cursor) :
    (c.read o).1.span.stop ≤ (c.read o).2.offset := by
  rw [read_eq o c rfl]
  simp only [Span.stop, Token.span, Glyph.utf8ByteSize_text, Piece.glyphs, Glyph.size_append]
  omega

-- Each token ends before the next one starts.
theorem pairwise_stop_tokens (o : LexOptions) (c : Cursor) :
    (c.tokens o).Pairwise fun a b => a.span.stop ≤ b.start := by
  fun_induction c.tokens o with
  | case1 c next hend => exact List.pairwise_singleton _ _
  | case2 c next hend ih =>
      refine List.pairwise_cons.mpr ⟨fun t ht => ?_, ih⟩
      exact (c.stop_read_le_offset o).trans (offset_le_start t ht)

end Cursor

section

variable {o : LexOptions} {source : String} {t : Token}

theorem covers_of_mem_lex (h : t ∈ lex o source) : t.span.Covers t.text source := by
  have hproper : ∀ g ∈ (Cursor.ofText source).rest, g.Proper := Glyph.proper_ofChars _
  obtain ⟨tiles, htiles⟩ := (Cursor.ofText source).exists_tiled_tokens source o hproper
  obtain ⟨i, hi⟩ := List.getElem?_of_mem h
  obtain ⟨before, after, hsplit, hstart, -, -⟩ := htiles.exists_eq_append rfl hi
  have hchars : tiles.flatMap Tile.chars = source.toList :=
    htiles.chars.trans (Glyph.flatMap_chars_ofChars source.toList)
  exact ⟨before, after, by rw [← hchars, hsplit], by rw [Token.span, hstart]⟩

-- Only the end token and literals can be empty.
theorem text_ne_empty_of_mem_lex (h : t ∈ lex o source) (hend : t.kind ≠ .endOfFile)
    (hquoted : t.kind.isQuoted = false) : t.text ≠ "" := by
  obtain ⟨c, rfl⟩ := Cursor.exists_read_of_mem_tokens h
  rw [c.read_eq o rfl] at hend hquoted ⊢
  have hne : c.rest.drop (Piece.trivia o.comments c.rest).length ≠ [] := by
    intro hnil
    apply hend
    simp only [Piece.ofGlyphs, hnil]
    rfl
  have hglyphs := Piece.glyphs_atGlyph_ne_nil o hne
  obtain ⟨hskipped, hclosing⟩ := (Piece.fits_atGlyph o _).of_not_isQuoted hquoted
  rw [Piece.glyphs, hskipped, hclosing, List.nil_append, List.append_nil] at hglyphs
  intro htext
  have hnil := congrArg String.toList htext
  rw [Glyph.text, String.toList_ofList] at hnil
  exact Piece.flatMap_chars_ne_nil hglyphs hnil

end

end UnitCalc
