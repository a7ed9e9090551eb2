import UnitCalc.Prompt.Highlight
import UnitCalc.Proofs.Token.Shift
import UnitCalc.Proofs.Token.Tiling

namespace UnitCalc

namespace Style

-- The escapes before a text in some styles. The outermost style comes first.
def opening (styles : List Style) : String :=
  String.join (styles.reverse.map start)

-- The escapes after a text in some styles.
def closing (styles : List Style) : String :=
  String.join (styles.map stop)

end Style

theorem Painted.render_eq (p : Painted) :
    p.render = Style.opening p.styles ++ p.text ++ Style.closing p.styles := by
  obtain ⟨text, styles⟩ := p
  induction styles generalizing text with
  | nil => simp [render, Style.opening, Style.closing]
  | cons s styles ih =>
      have hrest : render ⟨text, s :: styles⟩ = render ⟨s.paint text, styles⟩ := rfl
      rw [hrest, ih]
      simp [Style.opening, Style.closing, Style.paint, String.append_assoc]

namespace Prompt

-- All the ways to colour a piece of a line. The first is to leave it plain.
def palette : List (List Style) :=
  [[], [.yellow], [.blue, .bold], [.brightBlack], [.green], [.red, .underline], [.cyan],
    [.brightBlue]]

theorem styles_mem_palette (r : Registry Float) (t : Token) : styles r t ∈ palette := by
  unfold styles
  split
  case h_6 => split <;> decide
  all_goals decide

variable {o : LexOptions} {r : Registry Float}

theorem mem_palette_of_mem_paintTokens {line : List Char} {last : Nat} {ts : List Token}
    {p : Painted} (h : p ∈ paintTokens r line last ts) : p.styles ∈ palette := by
  have hplain (text : String) : (Painted.plain text).styles ∈ palette := List.mem_cons_self
  induction ts generalizing last with
  | nil =>
      obtain rfl := List.mem_singleton.mp h
      exact hplain _
  | cons t ts ih =>
      simp only [paintTokens, List.mem_cons] at h
      rcases h with rfl | rfl | h
      · exact hplain _
      · exact styles_mem_palette r t
      · exact ih h

theorem mem_palette_of_mem_paintLine {line : String} {p : Painted} (h : p ∈ paintLine o r line) :
    p.styles ∈ palette := by
  unfold paintLine at h
  split at h
  · obtain rfl := List.mem_singleton.mp h
    exact List.mem_of_elem_eq_true rfl
  · exact mem_palette_of_mem_paintTokens h

-- The text of some pieces in order.
def plainText (pieces : List Painted) : List Char :=
  pieces.flatMap fun p => p.text.toList

theorem plainText_paintTokens_nil {line passed rest : List Char} (hline : line = passed ++ rest) :
    passed ++ plainText (paintTokens r line (Text.byteSize passed) []) = line := by
  subst hline
  have hrest := Text.slice_append passed rest []
  rw [List.append_nil, ← Text.byteSize_append] at hrest
  rw [paintTokens, hrest]
  simp [plainText, Painted.plain]

-- The pieces of a token are what is left before it and the token itself.
theorem plainText_paintTokens_cons {line passed between lexeme rest : List Char} {t : Token}
    (hline : line = passed ++ (between ++ rest))
    (hstart : t.start = Text.byteSize (passed ++ between)) (htext : t.text = String.ofList lexeme)
    (hstop : t.start + Text.byteSize lexeme ≤ Span.maxOffset) (ts : List Token) :
    passed ++ plainText (paintTokens r line (Text.byteSize passed) (t :: ts)) =
      passed ++ between ++ lexeme ++
        plainText (paintTokens r line (Text.byteSize (passed ++ between ++ lexeme)) ts) := by
  have hlast : max (Text.byteSize passed) t.span.stop =
      Text.byteSize (passed ++ between ++ lexeme) := by
    simp only [Text.byteSize_append] at hstart ⊢
    simp only [Span.stop, Token.span, htext, Text.utf8ByteSize_ofList]
    omega
  have hbetween := Text.slice_append passed between rest
  rw [← hline] at hbetween
  rw [Text.byteSize_append] at hstart
  rw [paintTokens, hlast, hstart, hbetween]
  simp [plainText, Painted.plain, htext]

-- After a token the pieces go on where it ends. A closing quote is left for the next piece.
theorem exists_plainText_paintTokens_read {c : Cursor} {line passed gap : List Char}
    (hline : line = passed ++ (gap ++ c.rest.flatMap Glyph.chars))
    (hproper : ∀ g ∈ c.rest, g.Proper) (hoffset : c.offset = Text.byteSize (passed ++ gap))
    (hsize : c.offset + Glyph.size c.rest ≤ Span.maxOffset) (ts : List Token) :
    ∃ passed' gap', line = passed' ++ (gap' ++ (c.read o).2.rest.flatMap Glyph.chars) ∧
      (c.read o).2.offset = Text.byteSize (passed' ++ gap') ∧
      passed ++ plainText (paintTokens r line (Text.byteSize passed) ((c.read o).1 :: ts)) =
        passed' ++ plainText (paintTokens r line (Text.byteSize passed') ts) := by
  have hcarries := c.carries_ofGlyphs o hproper
  have hchars := c.chars_ofGlyphs_append o
  have hnext := c.offset_read o
  generalize Tile.ofGlyphs o c.rest = tile at hcarries hchars hnext
  have hstart : (c.read o).1.start =
      Text.byteSize (passed ++ (gap ++ (tile.trivia ++ tile.opening))) := by
    have hspan := congrArg Span.start hcarries.span
    simp only [Token.span, hoffset] at hspan
    simp only [hspan, Text.byteSize_append, Nat.add_assoc]
  have hstop : (c.read o).1.start + Text.byteSize tile.lexeme ≤ Span.maxOffset := by
    have hle := Cursor.stop_read_le (o := o) (c := c)
    rw [hcarries.text, Text.utf8ByteSize_ofList] at hle
    exact Nat.le_trans hle hsize
  have hsplit : line = passed ++ ((gap ++ (tile.trivia ++ tile.opening)) ++
      (tile.lexeme ++ tile.closing ++ (c.read o).2.rest.flatMap Glyph.chars)) := by
    rw [hline, ← hchars]
    simp [Tile.chars]
  refine ⟨passed ++ (gap ++ (tile.trivia ++ tile.opening)) ++ tile.lexeme, tile.closing, ?_, ?_,
    plainText_paintTokens_cons hsplit hstart hcarries.text hstop ts⟩
  · rw [hsplit]
    simp
  · rw [hnext, hoffset]
    simp only [Tile.chars, Text.byteSize_append, Nat.add_assoc]

theorem plainText_paintTokens {c : Cursor} {line passed gap : List Char}
    (hline : line = passed ++ (gap ++ c.rest.flatMap Glyph.chars))
    (hproper : ∀ g ∈ c.rest, g.Proper) (hoffset : c.offset = Text.byteSize (passed ++ gap))
    (hsize : c.offset + Glyph.size c.rest ≤ Span.maxOffset) :
    passed ++ plainText (paintTokens r line (Text.byteSize passed) (c.tokens o)) = line := by
  fun_induction c.tokens o generalizing passed gap with
  | @case1 c next hend =>
      obtain ⟨passed', gap', hline', -, hpieces⟩ :=
        exists_plainText_paintTokens_read (o := o) (r := r) hline hproper hoffset hsize []
      rw [hpieces]
      exact plainText_paintTokens_nil hline'
  | @case2 c next hend ih =>
      obtain ⟨passed', gap', hline', hoffset', hpieces⟩ :=
        exists_plainText_paintTokens_read (r := r) hline hproper hoffset hsize (next.2.tokens o)
      rw [hpieces]
      exact ih hline' (Cursor.proper_read hproper) hoffset' (c.end_read o ▸ hsize)

theorem plainText_paintLine {line : String} (hsize : line.utf8ByteSize ≤ Span.maxOffset) :
    plainText (paintLine o r line) = line.toList := by
  unfold paintLine
  split
  · simp [plainText]
  · have hline : line.toList = [] ++ ([] ++ (Cursor.ofText line).rest.flatMap Glyph.chars) :=
      (Glyph.flatMap_chars_ofChars line.toList).symm
    have hfits : (Cursor.ofText line).offset + Glyph.size (Cursor.ofText line).rest ≤
        Span.maxOffset := by
      simpa [Cursor.ofText, Glyph.size_ofString] using hsize
    exact plainText_paintTokens hline (Glyph.proper_ofChars _) rfl hfits

-- A line is coloured piece by piece. Each piece stays plain or gets the escapes of one of the few
-- styles there are, and without the escapes the pieces make up the line. The line is one that can
-- be held, which has no more bytes than the largest offset.
theorem highlightLine_keeps_text (o : LexOptions) (r : Registry Float) {line : String}
    (hsize : line.utf8ByteSize ≤ Span.maxOffset) :
    ∃ pieces : List Painted,
      highlightLine o r line = String.join (pieces.map fun p =>
        Style.opening p.styles ++ p.text ++ Style.closing p.styles) ∧
      (∀ p ∈ pieces, p.styles ∈ palette) ∧ String.join (pieces.map Painted.text) = line := by
  refine ⟨paintLine o r line, ?_, fun p hp => mem_palette_of_mem_paintLine hp, ?_⟩
  · rw [highlightLine, List.map_congr_left fun p _ => p.render_eq]
  · apply String.toList_inj.mp
    rw [← plainText_paintLine (o := o) (r := r) hsize]
    simp [plainText, List.flatMap_map]

theorem highlightLine_keeps_text_literal :
    "5 \"a\"".utf8ByteSize ≤ Span.maxOffset ∧
    highlightLine { quotedStrings := true } .empty "5 \"a\"" =
      "\x1b[33m5\x1b[39m \"\x1b[32ma\x1b[39m\"" ∧
    ∃ pieces : List Painted,
      highlightLine { quotedStrings := true } .empty "5 \"a\"" = String.join (pieces.map fun p =>
        Style.opening p.styles ++ p.text ++ Style.closing p.styles) ∧
      (∀ p ∈ pieces, p.styles ∈ palette) ∧
      String.join (pieces.map Painted.text) = "5 \"a\"" := by
  have hsize : "5 \"a\"".utf8ByteSize ≤ Span.maxOffset := by decide
  refine ⟨hsize, ?_, highlightLine_keeps_text { quotedStrings := true } .empty hsize⟩
  decide +kernel

end Prompt

end UnitCalc
