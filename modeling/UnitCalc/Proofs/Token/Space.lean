import UnitCalc.Proofs.Token.Seam

namespace UnitCalc

theorem Glyph.ofChars_append_space (cs ds : List Char) :
    ofChars (cs ++ ' ' :: ds) = ofChars cs ++ .char ' ' :: ofChars ds := by
  have hspace : ofChars (' ' :: ds) = .char ' ' :: ofChars ds := ofChars_cons (by decide) ds
  fun_induction ofChars cs with
  | case1 cs ih => rw [List.cons_append, List.cons_append, ofChars, ih, List.cons_append]
  | case2 cs ih => rw [List.cons_append, List.cons_append, ofChars, ih, List.cons_append]
  | case3 cs h ih =>
      rw [List.cons_append, ofChars, ih, List.cons_append]
      intro rest hrest
      cases cs with
      | nil => cases hrest
      | cons c cs => exact h cs (by rw [(List.cons.inj hrest).1])
  | case4 cs h ih =>
      rw [List.cons_append, ofChars, ih, List.cons_append]
      intro rest hrest
      cases cs with
      | nil => cases hrest
      | cons c cs => exact h cs (by rw [(List.cons.inj hrest).1])
  | case5 c cs h1 h2 hfeed hreturn ih =>
      rw [List.cons_append, ofChars_cons ⟨hreturn, hfeed⟩, ih, List.cons_append]
  | case6 => exact hspace

namespace Piece

variable {o : LexOptions} {gs ds : List Glyph}

theorem trivia_without_comments (gs : List Glyph) :
    trivia false gs = gs.takeWhile (Glyph.is (· == ' ')) := by
  fun_induction trivia false gs with
  | case1 r ih => rw [ih, List.takeWhile_cons_of_pos rfl]
  | case2 r hc ih | case4 r hc inside hi ih => cases hc
  | case5 r hc hi => cases hc
  | case3 r hc | case6 r hc => rfl
  | case7 gs hspace hline hblock =>
      cases gs with
      | nil => rfl
      | cons g gs =>
          refine (List.takeWhile_cons_of_neg fun hg => ?_).symm
          cases g with
          | lineEnd e => cases hg
          | char c => exact hspace gs (by rw [beq_iff_eq.mp hg])

-- Before the end token there are only spaces.
theorem trivia_append_space (hend : (ofGlyphs o gs).kind = .endOfFile)
    (hcomments : o.comments = false) :
    trivia o.comments (gs ++ .char ' ' :: ds) = gs ++ .char ' ' :: trivia o.comments ds := by
  obtain ⟨hrest, -⟩ := (fits_atGlyph o _).eq_of_endOfFile hend
  have hall := List.prefix_iff_eq_append.mp (trivia_isPrefix o.comments gs)
  rw [hrest, List.append_nil, hcomments, trivia_without_comments] at hall
  rw [hcomments, trivia_without_comments, trivia_without_comments, List.takeWhile_append,
    if_pos (by rw [hall]), List.takeWhile_cons_of_pos rfl]

-- What comes before a space is read as if nothing followed.
theorem ofGlyphs_append_space (hcomments : o.comments = false) (hquoted : o.quotedStrings = false)
    (hend : (ofGlyphs o gs).kind ≠ .endOfFile) :
    ofGlyphs o (gs ++ .char ' ' :: ds) = ofGlyphs o gs := by
  have hprefix := trivia_isPrefix o.comments gs
  have hne : gs.drop (trivia o.comments gs).length ≠ [] := by
    intro hnil
    apply hend
    simp [ofGlyphs, hnil, atGlyph]
  have htrivia : trivia o.comments (gs ++ .char ' ' :: ds) = trivia o.comments gs := by
    rw [hcomments, trivia_without_comments] at hne ⊢
    rw [trivia_without_comments, List.takeWhile_append, if_neg]
    intro hall
    rw [hall, List.drop_length] at hne
    exact hne rfl
  have hkind : (atGlyph o (gs.drop (trivia o.comments gs).length)).kind ≠
      .fault .unterminatedComment := by
    intro hfault
    have hon := (exists_of_unterminatedComment hfault).1
    rw [hcomments] at hon
    cases hon
  have hstop := atGlyph_append_of_apart hne (isQuoted_atGlyph hquoted _) hkind
    (apart_cons rfl ds : Apart (.char ' ' :: ds))
  rw [ofGlyphs, htrivia, List.drop_append_of_le_length hprefix.length_le, hstop, ofGlyphs]

end Piece

namespace Cursor

variable {o : LexOptions} {c : Cursor}

-- The cursor with a space and more text after its own.
def spaced (c : Cursor) (ds : List Glyph) : Cursor :=
  { c with rest := c.rest ++ .char ' ' :: ds }

theorem read_spaced (hcomments : o.comments = false) (hquoted : o.quotedStrings = false)
    (ds : List Glyph) (hend : (c.read o).1.kind ≠ .endOfFile) :
    (c.spaced ds).read o = ((c.read o).1, (c.read o).2.spaced ds) := by
  rw [read_eq o c rfl] at hend ⊢
  have hle := (Piece.ofGlyphs_isPrefix o c.rest).length_le
  rw [read_eq o _ (Piece.ofGlyphs_append_space hcomments hquoted hend)]
  simp only [spaced, List.drop_append_of_le_length hle]

theorem tokens_spaced_of_endOfFile (hcomments : o.comments = false) (ds : List Glyph)
    (hend : (c.read o).1.kind = .endOfFile) :
    (c.spaced ds).tokens o = ((c.spaced ds).pass (c.rest.length + 1)).tokens o := by
  rw [read_eq o c rfl] at hend
  have hrest : (c.spaced ds).rest = (c.rest ++ [.char ' ']) ++ ds := by simp [spaced]
  have hlength : c.rest.length + 1 = (c.rest ++ [Glyph.char ' ']).length := by simp
  refine (tokens_pass ?_ ?_).symm
  · simp [spaced]
  · rw [hrest, hlength, List.take_left, List.drop_left, List.append_assoc, List.append_assoc]
    exact Piece.trivia_append_space hend hcomments

theorem exists_tokens_spaced (hcomments : o.comments = false) (hquoted : o.quotedStrings = false)
    (c : Cursor) (ds : List Glyph) :
    ∃ ts last, ∃ d : Cursor, c.tokens o = ts ++ [last] ∧ last.kind = .endOfFile ∧ d.rest = ds ∧
      (c.spaced ds).tokens o = ts ++ d.tokens o := by
  fun_induction c.tokens o with
  | case1 c next hend =>
      refine ⟨[], next.1, (c.spaced ds).pass (c.rest.length + 1), rfl, hend, ?_,
        tokens_spaced_of_endOfFile hcomments ds hend⟩
      simp [spaced, ← List.drop_drop]
  | case2 c next hend ih =>
      obtain ⟨ts, last, d, htokens, hlast, hd, hrest⟩ := ih
      refine ⟨next.1 :: ts, last, d, by rw [htokens]; rfl, hlast, hd, ?_⟩
      rw [tokens, read_spaced hcomments hquoted ds hend]
      simp only
      rw [if_neg hend, hrest]
      rfl

-- The tokens of a text with a space in it are those before the space, without the end token there,
-- and then those after it.
theorem exists_tokens_of_space (hcomments : o.comments = false) (hquoted : o.quotedStrings = false)
    {gs ds : List Glyph} (h : c.rest = gs ++ .char ' ' :: ds) :
    ∃ ts last, ∃ b d : Cursor, b.rest = gs ∧ b.tokens o = ts ++ [last] ∧ last.kind = .endOfFile ∧
      d.rest = ds ∧ c.tokens o = ts ++ d.tokens o := by
  obtain ⟨ts, last, d, htokens, hlast, hd, hboth⟩ :=
    exists_tokens_spaced hcomments hquoted { c with rest := gs } ds
  refine ⟨ts, last, { c with rest := gs }, d, rfl, htokens, hlast, hd, ?_⟩
  rw [← hboth, spaced]
  simp only [← h]

theorem read_of_rest_eq (o : LexOptions) {d : Cursor} (h : d.rest = c.rest) :
    (d.read o).1.kind = (c.read o).1.kind ∧ (d.read o).1.text = (c.read o).1.text ∧
      (d.read o).2.rest = (c.read o).2.rest := by
  simp only [read_eq o _ rfl, h, and_self]

-- Where a text stands does not count for the kinds and the texts of its tokens.
theorem map_tokens_of_rest_eq {d : Cursor} (h : d.rest = c.rest) :
    (d.tokens o).map (fun t => (t.kind, t.text)) = (c.tokens o).map fun t => (t.kind, t.text) := by
  fun_induction c.tokens o generalizing d with
  | @case1 c next hend =>
      have hread := read_of_rest_eq o h
      rw [tokens, if_pos (hread.1.trans hend)]
      simp [hread, next]
  | @case2 c next hend ih =>
      have hread := read_of_rest_eq o h
      rw [tokens, if_neg (hread.1.trans_ne hend)]
      simp [hread, next, ih hread.2.2]

end Cursor

end UnitCalc
