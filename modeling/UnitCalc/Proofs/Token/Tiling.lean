import UnitCalc.Proofs.Token.Trivia

namespace UnitCalc

-- What one read takes up of a text.
structure Tile where
  -- Spaces and comments.
  trivia : List Char
  -- The opening quote of a string literal.
  opening : List Char
  -- The text of the token.
  lexeme : List Char
  -- The closing quote of a string literal.
  closing : List Char

namespace Tile

def chars (tile : Tile) : List Char :=
  tile.trivia ++ tile.opening ++ tile.lexeme ++ tile.closing

-- Whether a tile is that of a token, when it starts at byte `start` and `rest` follows it. Literals
-- have the same quote at both ends, unless they break off.
structure Carries (tile : Tile) (o : LexOptions) (start : Nat) (rest : List Char) (t : Token) :
    Prop where
  text : t.text = String.ofList tile.lexeme
  span : t.span = ⟨start + Text.byteSize (tile.trivia ++ tile.opening), Text.byteSize tile.lexeme⟩
  trivia : Trivia o.comments tile.trivia (tile.opening ++ tile.lexeme ++ tile.closing ++ rest)
  quoted : t.kind.isQuoted = true → ∃ quote, Piece.isQuote quote = true ∧
    tile.opening = [quote] ∧ tile.closing = if t.kind = .string then [quote] else []
  bare : t.kind.isQuoted = false → tile.opening = [] ∧ tile.closing = []

-- The tile of the next piece.
def ofGlyphs (o : LexOptions) (gs : List Glyph) : Tile :=
  let skipped := Piece.trivia o.comments gs
  let piece := Piece.atGlyph o (gs.drop skipped.length)
  { trivia := skipped.flatMap Glyph.chars
    opening := piece.skipped.flatMap Glyph.chars
    lexeme := piece.lexeme.flatMap Glyph.chars
    closing := piece.closing.flatMap Glyph.chars }

theorem chars_ofGlyphs (o : LexOptions) (gs : List Glyph) :
    (ofGlyphs o gs).chars = (Piece.ofGlyphs o gs).glyphs.flatMap Glyph.chars := by
  simp [chars, ofGlyphs, Piece.ofGlyphs, Piece.glyphs]

end Tile

namespace Cursor

theorem chars_ofGlyphs_append (o : LexOptions) (c : Cursor) :
    (Tile.ofGlyphs o c.rest).chars ++ (c.read o).2.rest.flatMap Glyph.chars =
      c.rest.flatMap Glyph.chars := by
  rw [read_eq o c rfl, Tile.chars_ofGlyphs, ← List.flatMap_append,
    List.prefix_iff_eq_append.mp (Piece.ofGlyphs_isPrefix o c.rest)]

theorem offset_read (o : LexOptions) (c : Cursor) :
    (c.read o).2.offset = c.offset + Text.byteSize (Tile.ofGlyphs o c.rest).chars := by
  rw [read_eq o c rfl, Tile.chars_ofGlyphs, Glyph.byteSize_flatMap_chars]

-- Every read but that of the end token moves the cursor on.
theorem offset_lt_offset_read {o : LexOptions} {c : Cursor}
    (h : (c.read o).1.kind ≠ .endOfFile) : c.offset < (c.read o).2.offset := by
  have hlt := length_rest_read_lt h
  rw [read_eq o c rfl] at hlt ⊢
  have hne : (Piece.ofGlyphs o c.rest).glyphs ≠ [] := by
    intro hnil
    simp [hnil] at hlt
  have hpos : (Piece.ofGlyphs o c.rest).glyphs.flatMap Glyph.chars ≠ [] := by
    obtain ⟨g, gs, hg⟩ := List.exists_cons_of_ne_nil hne
    simp [hg, g.chars_ne_nil]
  have hsize := Text.byteSize_pos hpos
  rw [Glyph.byteSize_flatMap_chars] at hsize
  exact Nat.lt_add_of_pos_right hsize

-- At the end token nothing is left.
theorem read_of_endOfFile {o : LexOptions} {c : Cursor} (h : (c.read o).1.kind = .endOfFile) :
    (c.read o).2.rest = [] ∧ (c.read o).1.span = ⟨c.offset + Glyph.size c.rest, 0⟩ := by
  rw [read_eq o c rfl] at h ⊢
  obtain ⟨hrest, hpiece⟩ := (Piece.fits_atGlyph o _).eq_of_endOfFile h
  have htrivia := List.prefix_iff_eq_append.mp (Piece.trivia_isPrefix o.comments c.rest)
  rw [hrest, List.append_nil] at htrivia
  simp only [Piece.ofGlyphs, Piece.glyphs, Token.span, hpiece, List.append_nil]
  rw [htrivia]
  exact ⟨List.drop_length, rfl⟩

theorem carries_ofGlyphs (o : LexOptions) (c : Cursor) (hproper : ∀ g ∈ c.rest, g.Proper) :
    (Tile.ofGlyphs o c.rest).Carries o c.offset ((c.read o).2.rest.flatMap Glyph.chars)
      (c.read o).1 := by
  have hfits := Piece.fits_atGlyph o (c.rest.drop (Piece.trivia o.comments c.rest).length)
  constructor
  · rw [read_eq o c rfl]
    rfl
  · rw [read_eq o c rfl]
    simp [Token.span, Tile.ofGlyphs, Piece.ofGlyphs, Glyph.utf8ByteSize_text,
      Glyph.byteSize_flatMap_chars]
  · have hrest : (c.rest.drop (Piece.trivia o.comments c.rest).length).flatMap Glyph.chars =
        (Tile.ofGlyphs o c.rest).opening ++ (Tile.ofGlyphs o c.rest).lexeme ++
          (Tile.ofGlyphs o c.rest).closing ++ (c.read o).2.rest.flatMap Glyph.chars := by
      apply (List.append_right_inj (Tile.ofGlyphs o c.rest).trivia).mp
      have h := chars_ofGlyphs_append o c
      simp only [Tile.chars, List.append_assoc] at h ⊢
      rw [h, Tile.ofGlyphs, ← List.flatMap_append,
        List.prefix_iff_eq_append.mp (Piece.trivia_isPrefix o.comments c.rest)]
    rw [← hrest]
    exact Piece.trivia_run o.comments hproper
  · intro hquoted
    rw [read_eq o c rfl] at hquoted ⊢
    obtain ⟨quote, hquote, hskipped, hclosing⟩ := hfits.of_isQuoted hquoted
    refine ⟨quote, hquote, ?_, ?_⟩
    · simp only [Tile.ofGlyphs, hskipped]
      rfl
    · simp only [Tile.ofGlyphs, hclosing, Piece.ofGlyphs]
      split <;> rfl
  · intro hbare
    rw [read_eq o c rfl] at hbare
    obtain ⟨hskipped, hclosing⟩ := hfits.of_not_isQuoted hbare
    simp [Tile.ofGlyphs, hskipped, hclosing]

end Cursor

namespace Reader

-- A reader after some reads.
def after (r : Reader) : Nat → Reader
  | 0 => r
  | n + 1 => (r.after n).read.2

theorem after_succ (r : Reader) (n : Nat) : r.after (n + 1) = r.read.2.after n := by
  induction n with
  | zero => rfl
  | succ n ih => rw [after, ih, after]

end Reader

-- How the tokens from a reader on and some tiles belong together. The tile of a token starts where
-- the reader stands before its read and ends where it stands after it.
structure Tiled (r : Reader) (ts : List Token) (tiles : List Tile) : Prop where
  length : tiles.length = ts.length
  chars : tiles.flatMap Tile.chars = r.cursor.rest.flatMap Glyph.chars
  read : ∀ (i : Nat) (t : Token), ts[i]? = some t → (r.after i).read.1 = t
  offset : ∀ i ≤ ts.length, (r.after i).cursor.offset =
    r.cursor.offset + Text.byteSize ((tiles.take i).flatMap Tile.chars)
  carries : ∀ (i : Nat) (t : Token) (tile : Tile), ts[i]? = some t → tiles[i]? = some tile →
    tile.Carries r.options (r.after i).cursor.offset ((tiles.drop (i + 1)).flatMap Tile.chars) t

namespace Tiled

theorem nil {r : Reader} (h : r.cursor.rest = []) : Tiled r [] [] where
  length := rfl
  chars := by simp [h]
  read := nofun
  offset := by
    intro i hi
    obtain rfl := Nat.le_zero.mp hi
    rfl
  carries := nofun

theorem cons {r : Reader} {ts : List Token} {tiles : List Tile}
    (hproper : ∀ g ∈ r.cursor.rest, g.Proper) (h : Tiled r.read.2 ts tiles) :
    Tiled r (r.read.1 :: ts) (Tile.ofGlyphs r.options r.cursor.rest :: tiles) where
  length := by simp [h.length]
  chars := by
    rw [List.flatMap_cons, h.chars]
    exact r.cursor.chars_ofGlyphs_append r.options
  read := by
    intro i t ht
    cases i with
    | zero => exact Option.some.inj ht
    | succ i =>
        rw [Reader.after_succ]
        exact h.read i t ht
  offset := by
    intro i hi
    cases i with
    | zero => rfl
    | succ i =>
        have hoffset := r.cursor.offset_read r.options
        rw [Reader.after_succ, h.offset i (Nat.le_of_succ_le_succ hi), List.take_succ_cons,
          List.flatMap_cons, Text.byteSize_append, ← Nat.add_assoc, ← hoffset]
        rfl
  carries := by
    intro i t tile ht htile
    cases i with
    | zero =>
        obtain rfl := Option.some.inj ht
        obtain rfl := Option.some.inj htile
        rw [Nat.zero_add, List.drop_one, List.tail_cons, h.chars]
        exact r.cursor.carries_ofGlyphs r.options hproper
    | succ i =>
        rw [Reader.after_succ]
        exact h.carries i t tile ht htile

-- The text of a token stands in the source where its span says, between the two places where the
-- reader stops around it.
theorem exists_eq_append {r : Reader} {ts : List Token} {tiles : List Tile}
    (h : Tiled r ts tiles) (hzero : r.cursor.offset = 0) {i : Nat} {t : Token}
    (ht : ts[i]? = some t) :
    ∃ before rest, tiles.flatMap Tile.chars = before ++ t.text.toList ++ rest ∧
      t.start = Text.byteSize before ∧ (r.after i).cursor.offset ≤ t.start ∧
      t.start + t.text.utf8ByteSize ≤ (r.after (i + 1)).cursor.offset := by
  obtain ⟨hi, rfl⟩ := List.getElem?_eq_some_iff.mp ht
  have hi' : i < tiles.length := by rw [h.length]; exact hi
  have htile := List.getElem?_eq_getElem hi'
  have hc := h.carries i ts[i] tiles[i] ht htile
  have hstart := congrArg Span.start hc.span
  have hsplit : tiles.flatMap Tile.chars = (tiles.take i).flatMap Tile.chars ++
      (tiles[i].chars ++ (tiles.drop (i + 1)).flatMap Tile.chars) := by
    rw [← List.flatMap_cons, ← List.drop_eq_getElem_cons hi', ← List.flatMap_append,
      List.take_append_drop]
  have hbefore := h.offset i (Nat.le_of_lt hi)
  have hafter := h.offset (i + 1) hi
  rw [hzero, Nat.zero_add] at hbefore hafter
  rw [List.take_succ_eq_append_getElem hi', List.flatMap_append, List.flatMap_singleton,
    Text.byteSize_append, ← hbefore] at hafter
  simp only [Token.span] at hstart
  refine ⟨(tiles.take i).flatMap Tile.chars ++ (tiles[i].trivia ++ tiles[i].opening),
    tiles[i].closing ++ (tiles.drop (i + 1)).flatMap Tile.chars, ?_, ?_, ?_, ?_⟩
  · rw [hsplit, hc.text, String.toList_ofList, Tile.chars]
    simp only [List.append_assoc]
  · simp only [hstart, hbefore, Text.byteSize_append]
  · omega
  · rw [hafter, hstart, hc.text, Text.utf8ByteSize_ofList]
    simp only [Tile.chars, Text.byteSize_append]
    omega

end Tiled

namespace Cursor

theorem proper_read {o : LexOptions} {c : Cursor} (hproper : ∀ g ∈ c.rest, g.Proper) :
    ∀ g ∈ (c.read o).2.rest, g.Proper := by
  intro g hg
  rw [read_eq o c rfl] at hg
  exact hproper g (List.mem_of_mem_drop hg)

theorem exists_tiled_tokens (source : String) (o : LexOptions) (c : Cursor)
    (hproper : ∀ g ∈ c.rest, g.Proper) : ∃ tiles, Tiled ⟨source, o, c⟩ (c.tokens o) tiles := by
  fun_induction c.tokens o with
  | case1 c next h =>
      exact ⟨_, .cons hproper (.nil (read_of_endOfFile h).1)⟩
  | case2 c next h ih =>
      obtain ⟨tiles, htiles⟩ := ih (proper_read hproper)
      exact ⟨_, .cons hproper htiles⟩

-- The tokens end with the one end token, which stands at the end of the text.
theorem exists_tokens_eq_append (o : LexOptions) (c : Cursor) :
    ∃ ts e, c.tokens o = ts ++ [e] ∧ (∀ t ∈ ts, t.kind ≠ .endOfFile) ∧ e.kind = .endOfFile ∧
      e.span = ⟨c.offset + Glyph.size c.rest, 0⟩ := by
  fun_induction c.tokens o with
  | case1 c next h => exact ⟨[], next.1, rfl, nofun, h, (read_of_endOfFile h).2⟩
  | case2 c next h ih =>
      obtain ⟨ts, e, htokens, hts, he, hspan⟩ := ih
      refine ⟨next.1 :: ts, e, by rw [htokens]; rfl, ?_, he, ?_⟩
      · intro t ht
        rcases List.mem_cons.mp ht with rfl | ht
        · exact h
        · exact hts t ht
      · rw [hspan]
        exact congrArg (Span.mk · 0) (c.end_read o)

theorem offset_le_start_read (o : LexOptions) (c : Cursor) : c.offset ≤ (c.read o).1.start := by
  rw [read_eq o c rfl]
  exact Nat.le_add_right _ _

theorem start_read_le_offset (o : LexOptions) (c : Cursor) :
    (c.read o).1.start ≤ (c.read o).2.offset := by
  rw [read_eq o c rfl]
  simp only [Piece.glyphs, Glyph.size_append]
  omega

theorem offset_le_start {o : LexOptions} {c : Cursor} : ∀ t ∈ c.tokens o, c.offset ≤ t.start := by
  fun_induction c.tokens o with
  | case1 c next h =>
      intro t ht
      obtain rfl := List.mem_singleton.mp ht
      exact c.offset_le_start_read o
  | case2 c next h ih =>
      intro t ht
      have hstart := c.offset_le_start_read o
      have hoffset := c.start_read_le_offset o
      rcases List.mem_cons.mp ht with rfl | ht
      · exact hstart
      · exact Nat.le_trans (Nat.le_trans hstart hoffset) (ih t ht)

-- Tokens come in the order of their places.
theorem pairwise_start_tokens (o : LexOptions) (c : Cursor) :
    (c.tokens o).Pairwise fun a b => a.start ≤ b.start := by
  fun_induction c.tokens o with
  | case1 c next h => exact List.pairwise_singleton _ _
  | case2 c next h ih =>
      refine List.pairwise_cons.mpr ⟨fun t ht => ?_, ih⟩
      exact Nat.le_trans (c.start_read_le_offset o) (offset_le_start t ht)

end Cursor

-- The tokens of a text are those of the reads one after the other, and their tiles make up the
-- text. Each token stands between the places where the reader stops around it. The end token is the
-- last and stands at the end of the text, and every other read moves the reader on.
theorem lex_tiles (o : LexOptions) (source : String) :
    (∃ tiles, tiles.flatMap Tile.chars = source.toList ∧
      Tiled (.ofText o source) (lex o source) tiles) ∧
    (∀ (i : Nat) (t : Token), (lex o source)[i]? = some t →
      ∃ before rest, source.toList = before ++ t.text.toList ++ rest ∧
        t.start = Text.byteSize before ∧
        ((Reader.ofText o source).after i).cursor.offset ≤ t.start ∧
        t.start + t.text.utf8ByteSize ≤ ((Reader.ofText o source).after (i + 1)).cursor.offset) ∧
    (∃ ts e, lex o source = ts ++ [e] ∧ (∀ t ∈ ts, t.kind ≠ .endOfFile) ∧ e.kind = .endOfFile ∧
      e.span = ⟨source.utf8ByteSize, 0⟩) ∧
    ∀ i, ((Reader.ofText o source).after i).read.1.kind ≠ .endOfFile →
      ((Reader.ofText o source).after i).cursor.offset <
        ((Reader.ofText o source).after (i + 1)).cursor.offset := by
  have hproper : ∀ g ∈ (Cursor.ofText source).rest, g.Proper := Glyph.proper_ofChars _
  obtain ⟨tiles, htiles⟩ := (Cursor.ofText source).exists_tiled_tokens source o hproper
  have hchars : tiles.flatMap Tile.chars = source.toList := by
    rw [htiles.chars]
    exact Glyph.flatMap_chars_ofChars source.toList
  refine ⟨⟨tiles, hchars, htiles⟩, ?_, ?_, ?_⟩
  · intro i t ht
    rw [← hchars]
    exact htiles.exists_eq_append rfl ht
  · obtain ⟨ts, e, htokens, hts, he, hspan⟩ := (Cursor.ofText source).exists_tokens_eq_append o
    refine ⟨ts, e, htokens, hts, he, ?_⟩
    rw [hspan, Cursor.ofText, Nat.zero_add, ← Glyph.utf8ByteSize_text, Glyph.text_ofString]
  · intro i h
    exact Cursor.offset_lt_offset_read h

end UnitCalc
