import Mathlib.Data.List.TakeWhile
import UnitCalc.Proofs.Token.Seam

namespace UnitCalc

namespace Text

def untab (c : Char) : Char :=
  if c = '\t' then ' ' else c

-- A text with each tab made a space.
def untabbed (source : String) : String :=
  String.ofList (source.toList.map untab)

theorem untab_eq_iff {c d : Char} (htab : d ≠ '\t') (hspace : d ≠ ' ') :
    untab c = d ↔ c = d := by
  by_cases hc : c = '\t'
  · subst hc
    simp [untab, htab.symm, hspace.symm]
  · rw [untab, if_neg hc]

theorem utf8Size_untab (c : Char) : (untab c).utf8Size = c.utf8Size := by
  by_cases hc : c = '\t'
  · subst hc
    decide
  · rw [untab, if_neg hc]

theorem utf8ByteSize_untabbed (source : String) :
    (untabbed source).utf8ByteSize = source.utf8ByteSize := by
  rw [untabbed, utf8ByteSize_ofList, ← byteSize_toList]
  induction source.toList with
  | nil => rfl
  | cons c cs ih => rw [List.map_cons, byteSize_cons, byteSize_cons, utf8Size_untab, ih]

end Text

namespace Glyph

def untab : Glyph → Glyph
  | char c => char (Text.untab c)
  | lineEnd e => lineEnd e

theorem untab_eq_char_iff {c : Char} (htab : c ≠ '\t') (hspace : c ≠ ' ') (g : Glyph) :
    g.untab = char c ↔ g = char c := by
  cases g with
  | char d => simp [untab, Text.untab_eq_iff htab hspace]
  | lineEnd e => simp [untab]

theorem eq_of_untab_eq_space {g : Glyph} (h : g.untab = char ' ') (htab : g ≠ char '\t') :
    g = char ' ' := by
  cases g with
  | lineEnd e => cases h
  | char c =>
      have hc : c ≠ '\t' := fun hc => htab (congrArg char hc)
      rwa [untab, Text.untab, if_neg hc] at h

theorem isLineEnd_untab (g : Glyph) : g.untab.isLineEnd = g.isLineEnd := by
  cases g <;> rfl

theorem untab_of_ne {g : Glyph} (h : g ≠ char '\t') : g.untab = g := by
  cases g with
  | char c =>
      have hc : c ≠ '\t' := fun hc => h (congrArg char hc)
      rw [untab, Text.untab, if_neg hc]
  | lineEnd e => rfl

theorem map_untab_of_ne {gs : List Glyph} (h : ∀ g ∈ gs, g ≠ char '\t') : gs.map untab = gs := by
  rw [List.map_congr_left fun g hg => untab_of_ne (h g hg), List.map_id']

theorem ofChars_map_untab (cs : List Char) :
    ofChars (cs.map Text.untab) = (ofChars cs).map untab := by
  have hreturn {c : Char} : Text.untab c = '\r' ↔ c = '\r' :=
    Text.untab_eq_iff (by decide) (by decide)
  have hfeed {c : Char} : Text.untab c = '\n' ↔ c = '\n' :=
    Text.untab_eq_iff (by decide) (by decide)
  fun_induction ofChars cs with
  | case1 cs ih | case2 cs ih =>
      rw [List.map_cons, List.map_cons, List.map_cons, ← ih]
      rfl
  | case3 cs h ih =>
      rw [List.map_cons, List.map_cons, ← ih]
      apply ofChars.eq_3
      intro rest hrest
      obtain ⟨c, cs', rfl, hc, -⟩ := List.map_eq_cons_iff.mp hrest
      exact h cs' (by rw [hreturn.mp hc])
  | case4 cs h ih =>
      rw [List.map_cons, List.map_cons, ← ih]
      apply ofChars.eq_4
      intro rest hrest
      obtain ⟨c, cs', rfl, hc, -⟩ := List.map_eq_cons_iff.mp hrest
      exact h cs' (by rw [hfeed.mp hc])
  | case5 c cs h1 h2 h3 h4 ih =>
      rw [List.map_cons, List.map_cons, ← ih]
      exact ofChars_cons ⟨mt hreturn.mp h4, mt hfeed.mp h3⟩ _
  | case6 => rfl

theorem width_untab (g : Glyph) : g.untab.width = g.width := by
  cases g with
  | char c => simp [untab, width, chars, Text.utf8Size_untab]
  | lineEnd e => rfl

theorem size_map_untab (gs : List Glyph) : size (gs.map untab) = size gs := by
  induction gs with
  | nil => rfl
  | cons g gs ih => rw [List.map_cons, size_cons, size_cons, width_untab, ih]

theorem text_map_untab (gs : List Glyph) : text (gs.map untab) = Text.untabbed (text gs) := by
  have hchars (g : Glyph) : g.untab.chars = g.chars.map Text.untab := by
    cases g with
    | char c => rfl
    | lineEnd e => cases e <;> rfl
  rw [text, text, Text.untabbed, String.toList_ofList, List.flatMap_map, List.map_flatMap]
  simp only [hchars]

end Glyph

theorem Position.after_map_untab (p : Position) (gs : List Glyph) :
    p.after (gs.map Glyph.untab) = p.after gs := by
  induction gs generalizing p with
  | nil => rfl
  | cons g gs ih =>
      have hnext : p.next g.untab = p.next g := by
        cases g <;> rfl
      rw [List.map_cons, after_cons, hnext, ih, after_cons]

namespace Piece

variable {o : LexOptions} {gs : List Glyph}

-- What is skipped from a tab on when it is a space.
def triviaFromTab (comments : Bool) : List Glyph → List Glyph
  | .char '\t' :: gs => .char ' ' :: trivia comments (gs.map Glyph.untab)
  | _ => []

theorem triviaFromTab_of_ne {comments : Bool} (h : ∀ r, gs ≠ .char '\t' :: r) :
    triviaFromTab comments gs = [] := by
  unfold triviaFromTab
  split
  · exact absurd rfl (h _)
  · rfl

-- The trivia of a text go on where those of the text with its tabs end at one.
theorem trivia_map_untab (comments : Bool) (gs : List Glyph) :
    trivia comments (gs.map Glyph.untab) = (trivia comments gs).map Glyph.untab ++
      triviaFromTab comments (gs.drop (trivia comments gs).length) := by
  have hline := lineComment_map Glyph.isLineEnd_untab
  have hisStar := Glyph.untab_eq_char_iff (c := '*') (by decide) (by decide)
  have hisSlash := Glyph.untab_eq_char_iff (c := '/') (by decide) (by decide)
  have hblock := blockComment?_map hisStar hisSlash
  have hslash : (Glyph.char '/').untab = .char '/' := rfl
  have hstar : (Glyph.char '*').untab = .char '*' := rfl
  have hspace : (Glyph.char ' ').untab = .char ' ' := rfl
  fun_induction trivia comments gs with
  | case1 r ih => simp [hspace, trivia, ih]
  | case2 r hc ih =>
      subst hc
      rw [List.map_drop] at ih
      simp [hslash, trivia, hline, ih]
  | case3 r hc => simp [hslash, trivia, hc, triviaFromTab]
  | case4 r hc inside hi ih =>
      subst hc
      rw [List.map_drop] at ih
      simp [hslash, hstar, trivia, hblock, hi, ih]
  | case5 r hc hi => simp [hslash, hstar, trivia, hc, hblock, hi, triviaFromTab]
  | case6 r hc => simp [hslash, hstar, trivia, hc, triviaFromTab]
  | case7 gs hno hnoLine hnoBlock =>
      rw [List.map_nil, List.nil_append, List.length_nil, List.drop_zero]
      by_cases htab : gs.head? = some (.char '\t')
      · obtain ⟨r, rfl⟩ := List.head?_eq_some_iff.mp htab
        rw [List.map_cons, triviaFromTab]
        exact (trivia.eq_def _ _).trans rfl
      have hnil : triviaFromTab comments gs = [] :=
        triviaFromTab_of_ne fun r hr => htab (by rw [hr]; rfl)
      have hpair {c : Char} (hc : ∀ g, Glyph.untab g = .char c ↔ g = .char c)
          (hno : ∀ r, gs = .char '/' :: .char c :: r → False) (r : List Glyph)
          (h : gs.map Glyph.untab = .char '/' :: .char c :: r) : False := by
        obtain ⟨g, gs', rfl, hg, h⟩ := List.map_eq_cons_iff.mp h
        obtain ⟨g', gs', rfl, hg', -⟩ := List.map_eq_cons_iff.mp h
        exact hno gs' (by rw [(hisSlash g).mp hg, (hc g').mp hg'])
      rw [hnil, trivia]
      · intro r h
        obtain ⟨g, gs', rfl, hg, -⟩ := List.map_eq_cons_iff.mp h
        exact hno gs' (by rw [Glyph.eq_of_untab_eq_space hg fun hg => htab (congrArg some hg)])
      · exact hpair hisSlash hnoLine
      · exact hpair hisStar hnoBlock

-- Up to the first tab, a text stays as it is.
theorem exists_append_tab (gs : List Glyph) :
    ∃ as bs, gs = as ++ bs ∧ as.map Glyph.untab = as ∧ (bs = [] ∨ ∃ r, bs = .char '\t' :: r) := by
  refine ⟨gs.takeWhile (· ≠ .char '\t'), gs.dropWhile (· ≠ .char '\t'),
    List.takeWhile_append_dropWhile.symm, ?_, ?_⟩
  · refine Glyph.map_untab_of_ne fun g hg => ?_
    simpa using List.mem_takeWhile_imp hg
  · have hfirst := List.head?_dropWhile_not (· ≠ Glyph.char '\t') gs
    cases hrest : gs.dropWhile (· ≠ .char '\t') with
    | nil => exact .inl rfl
    | cons g rest =>
        rw [hrest] at hfirst
        obtain rfl : g = .char '\t' := by simpa using hfirst
        exact .inr ⟨rest, rfl⟩

-- A token that is no tab is read as it was, unless it is a comment without an end.
theorem atGlyph_map_untab (hquoted : o.quotedStrings = false)
    (htab : ∀ r, gs ≠ .char '\t' :: r)
    (hcomment : (atGlyph o gs).kind ≠ .fault .unterminatedComment) :
    atGlyph o (gs.map Glyph.untab) = atGlyph o gs := by
  obtain ⟨as, bs, rfl, has, hbs⟩ := exists_append_tab gs
  rcases hbs with rfl | ⟨r, rfl⟩
  · rw [List.append_nil, has]
  cases as with
  | nil => exact absurd rfl (htab r)
  | cons g as =>
      have hclosed : (atGlyph o (g :: as)).kind ≠ .fault .unterminatedComment := by
        intro h
        obtain ⟨hon, r, hr⟩ := exists_of_unterminatedComment h
        refine hcomment ?_
        rw [hr]
        simp [atGlyph, hon]
      have hread {c : Char} (hc : (Glyph.char c).goesOn = false) (r : List Glyph) :
          atGlyph o (g :: as ++ .char c :: r) = atGlyph o (g :: as) :=
        atGlyph_append_of_apart (List.cons_ne_nil g as) (isQuoted_atGlyph hquoted _) hclosed
          (apart_cons hc r)
      rw [List.map_append, has, List.map_cons, hread rfl]
      exact hread rfl _

-- A tab is read where there is one.
theorem exists_of_tab (h : (atGlyph o gs).kind = .tab) :
    ∃ r, gs = .char '\t' :: r ∧ (atGlyph o gs).lexeme = [.char '\t'] := by
  have hfound := found_atGlyph o gs
  generalize atGlyph o gs = p at hfound h ⊢
  cases hfound with
  | tab => exact ⟨_, rfl, rfl⟩
  | @literal c r hon hc =>
      have hquoted := kind_literal o.escapes c r
      rw [h] at hquoted
      cases hquoted
  | @word c r hc => rcases kind_word (.char c :: r) with hk | ⟨k, hk⟩ <;> rw [hk] at h <;> cases h
  | mark hword hnumber => exact absurd h (kind_mark_ne rfl _ _)
  | endOfFile | lineBreak | comment | number => cases h

theorem ofGlyphs_map_untab (hquoted : o.quotedStrings = false) (h : (ofGlyphs o gs).kind ≠ .tab) :
    ofGlyphs o (gs.map Glyph.untab) =
      ⟨(trivia o.comments gs).map Glyph.untab, (ofGlyphs o gs).kind,
        if (ofGlyphs o gs).kind = .fault .unterminatedComment
          then (ofGlyphs o gs).lexeme.map Glyph.untab else (ofGlyphs o gs).lexeme, []⟩ := by
  have hrest : (gs.map Glyph.untab).drop ((trivia o.comments gs).map Glyph.untab).length =
      (gs.drop (trivia o.comments gs).length).map Glyph.untab := by
    rw [List.length_map, List.map_drop]
  have htrivia := trivia_map_untab o.comments gs
  rw [ofGlyphs_of_plain hquoted gs] at h ⊢
  rw [ofGlyphs_of_plain hquoted]
  generalize gs.drop (trivia o.comments gs).length = rest at h hrest htrivia ⊢
  have htab : ∀ r, rest ≠ .char '\t' :: r := by
    rintro r rfl
    exact h (by simp [atGlyph])
  rw [triviaFromTab_of_ne htab, List.append_nil] at htrivia
  rw [htrivia, hrest]
  by_cases hcomment : (atGlyph o rest).kind = .fault .unterminatedComment
  · obtain ⟨hon, r, rfl⟩ := exists_of_unterminatedComment hcomment
    simp [atGlyph, hon, Glyph.untab, Text.untab]
  · rw [if_neg hcomment, atGlyph_map_untab hquoted htab hcomment]

end Piece

-- A token with the tabs in it made spaces. Of the tokens other than tabs only a comment without an
-- end can have tabs in it.
def Token.untabbed (t : Token) : Token :=
  if t.kind = .fault .unterminatedComment then { t with text := Text.untabbed t.text } else t

@[simp] theorem Token.kind_untabbed (t : Token) : t.untabbed.kind = t.kind := by
  unfold untabbed
  split <;> rfl

namespace Cursor

variable {o : LexOptions} {c : Cursor}

def untabbed (c : Cursor) : Cursor :=
  { c with rest := c.rest.map Glyph.untab }

theorem pass_untabbed (c : Cursor) (n : Nat) : c.untabbed.pass n = (c.pass n).untabbed := by
  simp only [pass, untabbed, ← List.map_take, ← List.map_drop, Glyph.size_map_untab,
    Position.after_map_untab]

-- A tab that is made a space is skipped.
theorem tokens_untabbed_of_tab (hquoted : o.quotedStrings = false)
    (h : (c.read o).1.kind = .tab) :
    c.untabbed.tokens o = (c.read o).2.untabbed.tokens o := by
  have hpiece := Piece.ofGlyphs_of_plain hquoted c.rest
  have htrivia := Piece.trivia_map_untab o.comments c.rest
  have hsplit := List.prefix_iff_eq_append.mp (Piece.trivia_isPrefix o.comments c.rest)
  rw [read, hpiece] at h
  obtain ⟨r, hr, hlexeme⟩ := Piece.exists_of_tab h
  have hread : (c.read o).2 = c.pass ((Piece.trivia o.comments c.rest).length + 1) := by
    simp [read, take, hpiece, hlexeme, pass_pass]
  rw [hr] at hsplit htrivia
  generalize Piece.trivia o.comments c.rest = skipped at hsplit htrivia hread
  rw [hread, ← pass_untabbed]
  refine (tokens_pass ?_ ?_).symm
  · simp [untabbed, ← hsplit]
  · have hlength : skipped.length = (skipped.map Glyph.untab).length := (List.length_map _).symm
    have hrest : c.untabbed.rest = skipped.map Glyph.untab ++ .char ' ' :: r.map Glyph.untab := by
      rw [untabbed, ← hsplit, List.map_append]
      rfl
    rw [hrest, hlength, List.take_length_add_append, List.drop_length_add_append, ← hrest]
    rw [untabbed, htrivia]
    simp [Piece.triviaFromTab]

theorem read_untabbed (hquoted : o.quotedStrings = false) (h : (c.read o).1.kind ≠ .tab) :
    c.untabbed.read o = ((c.read o).1.untabbed, (c.read o).2.untabbed) := by
  rw [c.read_eq o rfl] at h
  have hpiece := Piece.ofGlyphs_map_untab hquoted h
  rw [c.untabbed.read_eq o hpiece, c.read_eq o rfl]
  have hplain := Piece.ofGlyphs_of_plain hquoted c.rest
  generalize Piece.ofGlyphs o c.rest = p at hplain ⊢
  subst hplain
  simp only [Token.untabbed, Piece.glyphs, Position.after_map_untab, Glyph.size_map_untab]
  split
  · simp [untabbed, Glyph.text_map_untab, Position.after_map_untab, Glyph.size_map_untab]
  · simp [untabbed, Position.after_map_untab, Glyph.size_map_untab]

theorem tokens_untabbed (hquoted : o.quotedStrings = false) (c : Cursor) :
    c.untabbed.tokens o = ((c.tokens o).filter fun t => t.kind ≠ .tab).map Token.untabbed := by
  fun_induction c.tokens o with
  | case1 c next hend =>
      have htab : next.1.kind ≠ .tab := by simp [hend]
      rw [Cursor.tokens, read_untabbed hquoted htab, if_pos ((Token.kind_untabbed _).trans hend)]
      simp [htab, next]
  | case2 c next hend ih =>
      by_cases htab : next.1.kind = .tab
      · rw [tokens_untabbed_of_tab hquoted htab, ih]
        simp [htab]
      · rw [Cursor.tokens, read_untabbed hquoted htab, if_neg (by rwa [Token.kind_untabbed]), ih]
        simp [htab, next]

end Cursor

-- With its tabs made spaces a text has its own tokens but for the tabs.
theorem lex_untabbed {o : LexOptions} (hquoted : o.quotedStrings = false) (source : String) :
    lex o (Text.untabbed source) =
      ((lex o source).filter fun t => t.kind ≠ .tab).map Token.untabbed := by
  have hstart : Cursor.ofText (Text.untabbed source) = (Cursor.ofText source).untabbed := by
    rw [Cursor.ofText, Glyph.ofString, Text.untabbed, String.toList_ofList,
      Glyph.ofChars_map_untab]
    rfl
  rw [lex, hstart, Cursor.tokens_untabbed hquoted, lex]

end UnitCalc
