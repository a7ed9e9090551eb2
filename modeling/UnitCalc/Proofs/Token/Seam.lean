import UnitCalc.Proofs.Token.Boundary

namespace UnitCalc

namespace Glyph

-- A line feed between two texts is a line ending of its own when no carriage return touches it.
theorem ofChars_append_lineFeed {cs ds : List Char} (hlast : ¬ ['\r'] <:+ cs)
    (hfirst : ¬ ['\r'] <+: ds) :
    ofChars (cs ++ '\n' :: ds) = ofChars cs ++ .lineEnd .lf :: ofChars ds := by
  have htail {c : Char} {cs : List Char} (h : ¬ ['\r'] <:+ c :: cs) : ¬ ['\r'] <:+ cs :=
    fun hsuffix => h (hsuffix.trans (List.suffix_cons c cs))
  have hfeed (ds : List Char) (h : ¬ ['\r'] <+: ds) :
      ofChars ('\n' :: ds) = .lineEnd .lf :: ofChars ds := by
    cases ds with
    | nil => rfl
    | cons d ds =>
        have hd : d ≠ '\r' := by
          rintro rfl
          exact h ⟨ds, rfl⟩
        rw [ofChars]
        intro rest heq
        exact hd (List.cons.inj heq).1
  fun_induction ofChars cs with
  | case1 cs ih =>
      rw [List.cons_append, List.cons_append, ofChars, ih (htail (htail hlast)), List.cons_append]
  | case2 cs ih =>
      rw [List.cons_append, List.cons_append, ofChars, ih (htail (htail hlast)), List.cons_append]
  | case3 cs h ih =>
      rw [List.cons_append, hfeed, ih (htail hlast), List.cons_append]
      rintro ⟨rest, hrest⟩
      cases cs with
      | nil => simp at hrest
      | cons c cs => exact h cs (by rw [(List.cons.inj hrest).1])
  | case4 cs h ih =>
      cases cs with
      | nil => exact absurd (List.suffix_refl _) hlast
      | cons c cs =>
          rw [List.cons_append, ofChars, ih (htail hlast), List.cons_append]
          rintro rest hrest
          exact h cs (by rw [(List.cons.inj hrest).1])
  | case5 c cs h1 h2 hfeed hreturn ih =>
      rw [List.cons_append, ofChars, ih (htail hlast), List.cons_append]
      · exact fun _ hc => absurd hc hreturn
      · exact fun _ hc => absurd hc hfeed
      · exact hfeed
      · exact hreturn
  | case6 => exact hfeed ds hfirst

end Glyph

namespace Piece

variable {gs ds : List Glyph} {e : LineEnding}

theorem takeWhile_append_lineEnd {p : Glyph → Bool} (hp : p (.lineEnd e) = false) :
    (gs ++ .lineEnd e :: ds).takeWhile p = gs.takeWhile p := by
  induction gs with
  | nil => simp [hp]
  | cons g gs ih => simp [List.takeWhile_cons, ih]

theorem lineComment_append_lineEnd : lineComment (gs ++ .lineEnd e :: ds) = lineComment gs :=
  takeWhile_append_lineEnd rfl

theorem blockComment?_append_lineEnd {inside : List Glyph} (h : blockComment? gs = some inside) :
    blockComment? (gs ++ .lineEnd e :: ds) = some inside := by
  fun_induction blockComment? gs generalizing inside with
  | case1 r => exact h
  | case2 g gs hg ih =>
      obtain ⟨rest, hrest, rfl⟩ := Option.map_eq_some_iff.mp h
      rw [List.cons_append, blockComment?, ih hrest]
      · rfl
      · rintro r rfl hslash
        cases gs with
        | nil => simp at hslash
        | cons g' gs => exact hg gs rfl (by rw [(List.cons.inj hslash).1])
  | case3 => cases h

theorem append_lineEnd_ne_pair {c d : Char} (hno : ∀ r, gs = .char c :: .char d :: r → False)
    (r : List Glyph) (h : gs ++ .lineEnd e :: ds = .char c :: .char d :: r) : False := by
  rcases gs with _ | ⟨g, _ | ⟨g', gs⟩⟩
  · simp at h
  · simp at h
  · simp only [List.cons_append, List.cons.injEq] at h
    exact hno gs (by rw [h.1, h.2.1])

-- Where nothing is skipped, nothing is before more text either.
theorem trivia_append_of_stop {comments : Bool} (hspace : ∀ r, gs = .char ' ' :: r → False)
    (hline : ∀ r, gs = .char '/' :: .char '/' :: r → False)
    (hblock : ∀ r, gs = .char '/' :: .char '*' :: r → False) :
    trivia comments (gs ++ .lineEnd e :: ds) = [] := by
  rw [trivia]
  · intro r h
    cases gs with
    | nil => simp at h
    | cons g gs => exact hspace gs (by rw [(List.cons.inj h).1])
  · exact append_lineEnd_ne_pair hline
  · exact append_lineEnd_ne_pair hblock

-- What is skipped is so too, unless a comment without an end comes after it.
theorem trivia_append_lineEnd {comments : Bool}
    (hclosed : comments = true →
      ∀ r, gs.drop (trivia comments gs).length ≠ .char '/' :: .char '*' :: r) :
    trivia comments (gs ++ .lineEnd e :: ds) = trivia comments gs := by
  fun_induction trivia comments gs with
  | case1 r ih => rw [List.cons_append, trivia, ih hclosed]
  | case2 r hc ih =>
      have hle := (lineComment_isPrefix r).length_le
      have hrest := ih fun hon r' => by simpa using hclosed hon r'
      rw [List.cons_append, List.cons_append, trivia, if_pos hc, lineComment_append_lineEnd,
        List.drop_append_of_le_length hle, hrest]
  | case3 r hc => rw [List.cons_append, List.cons_append, trivia, if_neg hc]
  | case4 r hc inside hi ih =>
      have hle := (blockComment?_isPrefix hi).length_le
      have hrest := ih fun hon r' => by simpa using hclosed hon r'
      rw [List.cons_append, List.cons_append, trivia, if_pos hc, blockComment?_append_lineEnd hi]
      simp only [List.drop_append_of_le_length hle, hrest]
  | case5 r hc hi => exact absurd rfl (hclosed hc r)
  | case6 r hc => rw [List.cons_append, List.cons_append, trivia, if_neg hc]
  | case7 gs hspace hline hblock => exact trivia_append_of_stop hspace hline hblock

-- A comment that is closed after a text was closed in it, or goes on past its end.
theorem blockComment?_of_append_lineEnd {inside : List Glyph}
    (h : blockComment? (gs ++ .lineEnd e :: ds) = some inside) :
    blockComment? gs = some inside ∨ gs.length < inside.length := by
  fun_induction blockComment? gs generalizing inside with
  | case1 r => exact .inl h
  | case2 g gs hg ih =>
      rw [List.cons_append, blockComment?] at h
      · obtain ⟨rest, hrest, rfl⟩ := Option.map_eq_some_iff.mp h
        rcases ih hrest with hsome | hlt
        · rw [hsome]
          exact .inl rfl
        · exact .inr (Nat.succ_lt_succ hlt)
      · rintro r rfl hslash
        cases gs with
        | nil => simp at hslash
        | cons g' gs => exact hg gs rfl (by rw [(List.cons.inj hslash).1])
  | case3 =>
      obtain ⟨rest, -, rfl⟩ := Option.map_eq_some_iff.mp h
      exact .inr (Nat.succ_pos _)

-- If no more is skipped than a text, the same is skipped without more text after it.
theorem trivia_of_append_lineEnd {comments : Bool}
    (h : (trivia comments (gs ++ .lineEnd e :: ds)).length ≤ gs.length) :
    trivia comments gs = trivia comments (gs ++ .lineEnd e :: ds) := by
  fun_induction trivia comments gs with
  | case1 r ih =>
      rw [List.cons_append, trivia] at h ⊢
      rw [ih (Nat.le_of_succ_le_succ h)]
  | case2 r hc ih =>
      have hle := (lineComment_isPrefix r).length_le
      have hfull : trivia comments (.char '/' :: .char '/' :: r ++ .lineEnd e :: ds) =
          .char '/' :: .char '/' :: lineComment r ++
            trivia comments (r.drop (lineComment r).length ++ .lineEnd e :: ds) := by
        rw [List.cons_append, List.cons_append, trivia, if_pos hc, lineComment_append_lineEnd,
          List.drop_append_of_le_length hle]
      rw [hfull] at h ⊢
      simp only [List.length_append, List.length_cons] at h
      rw [ih (by rw [List.length_drop]; omega)]
  | case3 r hc => rw [List.cons_append, List.cons_append, trivia, if_neg hc]
  | case4 r hc inside hi ih =>
      have hle := (blockComment?_isPrefix hi).length_le
      have hfull : trivia comments (.char '/' :: .char '*' :: r ++ .lineEnd e :: ds) =
          .char '/' :: .char '*' :: inside ++
            trivia comments (r.drop inside.length ++ .lineEnd e :: ds) := by
        rw [List.cons_append, List.cons_append, trivia, if_pos hc, blockComment?_append_lineEnd hi]
        simp only [List.drop_append_of_le_length hle]
      rw [hfull] at h ⊢
      simp only [List.length_append, List.length_cons] at h
      rw [ih (by rw [List.length_drop]; omega)]
  | case5 r hc hi =>
      cases hinside : blockComment? (r ++ .lineEnd e :: ds) with
      | none => rw [List.cons_append, List.cons_append, trivia, if_pos hc, hinside]
      | some inside =>
          rw [List.cons_append, List.cons_append, trivia, if_pos hc, hinside] at h
          simp only [List.cons_append, List.length_append, List.length_cons] at h
          rcases blockComment?_of_append_lineEnd hinside with hsome | hlt
          · rw [hi] at hsome
            cases hsome
          · omega
  | case6 r hc => rw [List.cons_append, List.cons_append, trivia, if_neg hc]
  | case7 gs hspace hline hblock => exact (trivia_append_of_stop hspace hline hblock).symm

end Piece

-- Tokens that cannot run on to another line.
def TokenKind.StaysInLine (k : TokenKind) : Prop :=
  k.isQuoted = false ∧ k ≠ .fault .unterminatedComment

instance (k : TokenKind) : Decidable k.StaysInLine :=
  inferInstanceAs (Decidable (_ ∧ _))

namespace Piece

variable {o : LexOptions} {gs ds : List Glyph} {e : LineEnding}

-- A comment without an end takes up all that is left.
theorem exists_of_unterminatedComment (h : (atGlyph o gs).kind = .fault .unterminatedComment) :
    o.comments = true ∧ ∃ r, gs = .char '/' :: .char '*' :: r := by
  have hfound := found_atGlyph o gs
  generalize atGlyph o gs = p at hfound h
  cases hfound with
  | @comment r hon => exact ⟨hon, r, rfl⟩
  | @literal c r hon hc =>
      have hquoted := kind_literal o.escapes c r
      rw [h] at hquoted
      cases hquoted
  | @word c r hc => rcases kind_word (.char c :: r) with hk | ⟨k, hk⟩ <;> rw [hk] at h <;> cases h
  | mark hword hnumber => exact absurd h (kind_mark_ne rfl _ _)
  | endOfFile | lineBreak | tab | number => cases h

theorem exists_of_isQuoted (h : (atGlyph o gs).kind.isQuoted = true) :
    o.quotedStrings = true ∧ ∃ c r, gs = .char c :: r ∧ isQuote c = true := by
  have hfound := found_atGlyph o gs
  generalize atGlyph o gs = p at hfound h
  cases hfound with
  | literal hon hc => exact ⟨hon, _, _, rfl, hc⟩
  | @word c r hc => rcases kind_word (.char c :: r) with hk | ⟨k, hk⟩ <;> rw [hk] at h <;> cases h
  | mark hword hnumber =>
      rw [isQuoted_mark] at h
      cases h
  | endOfFile | lineBreak | comment | tab | number => cases h

theorem isQuoted_atGlyph (h : o.quotedStrings = false) (gs : List Glyph) :
    (atGlyph o gs).kind.isQuoted = false := by
  by_contra hquoted
  obtain ⟨hon, -⟩ := exists_of_isQuoted (Bool.of_not_eq_false hquoted)
  rw [h] at hon
  cases hon

-- Without quoted strings the piece after the trivia is a lexeme and nothing else.
theorem ofGlyphs_of_plain (hquoted : o.quotedStrings = false) (gs : List Glyph) :
    ofGlyphs o gs = ⟨trivia o.comments gs,
      (atGlyph o (gs.drop (trivia o.comments gs).length)).kind,
      (atGlyph o (gs.drop (trivia o.comments gs).length)).lexeme, []⟩ := by
  have hfits := fits_atGlyph o (gs.drop (trivia o.comments gs).length)
  obtain ⟨hskipped, hclosing⟩ := hfits.of_not_isQuoted (isQuoted_atGlyph hquoted _)
  simp [ofGlyphs, hskipped, hclosing]

theorem lexeme_isPrefix (hquoted : o.quotedStrings = false) (gs : List Glyph) :
    (atGlyph o gs).lexeme <+: gs := by
  have hfits := fits_atGlyph o gs
  obtain ⟨hskipped, hclosing⟩ := hfits.of_not_isQuoted (isQuoted_atGlyph hquoted _)
  simpa [glyphs, hskipped, hclosing] using hfits.glyphs_isPrefix

theorem atGlyph_of_isQuote {c : Char} (hon : o.quotedStrings = true) (hc : isQuote c = true)
    (r : List Glyph) : atGlyph o (.char c :: r) = literal o.escapes c r := by
  have hne : ∀ d : Char, isQuote d = false → c ≠ d := by
    rintro d hd rfl
    rw [hc] at hd
    cases hd
  simp [atGlyph, hon, hc, hne '/' rfl, hne '\t' rfl]

-- With more text after it, a literal or a comment without an end does not stay in its line either.
theorem staysInLine_of_atGlyph_append
    (h : (atGlyph o (gs ++ .lineEnd e :: ds)).kind.StaysInLine) :
    (atGlyph o gs).kind.StaysInLine := by
  constructor
  · rw [← Bool.not_eq_true]
    intro hquoted
    obtain ⟨hon, c, r, rfl, hc⟩ := exists_of_isQuoted hquoted
    have hkind := h.1
    rw [List.cons_append, atGlyph_of_isQuote hon hc, kind_literal] at hkind
    cases hkind
  · intro hcomment
    obtain ⟨hon, r, rfl⟩ := exists_of_unterminatedComment hcomment
    apply h.2
    simp [atGlyph, hon]

theorem closed_of_staysInLine (h : (ofGlyphs o gs).kind.StaysInLine) (hon : o.comments = true)
    (r : List Glyph) : gs.drop (trivia o.comments gs).length ≠ .char '/' :: .char '*' :: r := by
  intro hopen
  have hkind : (ofGlyphs o gs).kind = .fault .unterminatedComment := by
    rw [ofGlyphs, hopen]
    simp [atGlyph, hon]
  exact h.2 hkind

theorem ofGlyphs_append_lineEnd (h : (ofGlyphs o gs).kind.StaysInLine)
    (hend : (ofGlyphs o gs).kind ≠ .endOfFile) :
    ofGlyphs o (gs ++ .lineEnd e :: ds) = ofGlyphs o gs := by
  have htrivia : trivia o.comments (gs ++ .lineEnd e :: ds) = trivia o.comments gs :=
    trivia_append_lineEnd (closed_of_staysInLine h)
  have hle := (trivia_isPrefix o.comments gs).length_le
  have hne : gs.drop (trivia o.comments gs).length ≠ [] := by
    intro hnil
    apply hend
    simp [ofGlyphs, hnil, atGlyph]
  unfold ofGlyphs at h ⊢
  simp only [htrivia, List.drop_append_of_le_length hle,
    atGlyph_append_of_apart hne h.1 h.2 (apart_lineEnd e ds)]

-- A piece that ends with a text is read off that text alone.
theorem ofGlyphs_of_append_lineEnd
    (h : (ofGlyphs o (gs ++ .lineEnd e :: ds)).kind.StaysInLine)
    (hlength : (ofGlyphs o (gs ++ .lineEnd e :: ds)).glyphs.length ≤ gs.length) :
    ofGlyphs o gs = ofGlyphs o (gs ++ .lineEnd e :: ds) := by
  have hle : (trivia o.comments (gs ++ .lineEnd e :: ds)).length ≤ gs.length := by
    simp only [ofGlyphs, glyphs, List.length_append] at hlength
    omega
  have htrivia := trivia_of_append_lineEnd hle
  have hdrop : (gs ++ .lineEnd e :: ds).drop (trivia o.comments (gs ++ .lineEnd e :: ds)).length =
      gs.drop (trivia o.comments gs).length ++ .lineEnd e :: ds := by
    rw [List.drop_append_of_le_length hle, htrivia]
  unfold ofGlyphs at h hlength ⊢
  simp only [hdrop] at h hlength ⊢
  have hne : gs.drop (trivia o.comments gs).length ≠ [] := by
    intro hnil
    have hall := List.drop_eq_nil_iff.mp hnil
    rw [hnil, ← htrivia] at hlength
    simp only [List.nil_append, atGlyph, glyphs, List.length_append, List.append_nil,
      List.length_singleton] at hlength
    omega
  have hplain := staysInLine_of_atGlyph_append h
  rw [atGlyph_append_of_apart hne hplain.1 hplain.2 (apart_lineEnd e ds), htrivia]

theorem exists_of_lineBreak {o : LexOptions} {gs : List Glyph}
    (h : (atGlyph o gs).kind = .lineBreak) :
    ∃ e ds, gs = .lineEnd e :: ds ∧ (atGlyph o gs).lexeme = [.lineEnd e] ∧
      (atGlyph o gs).skipped = [] := by
  have hfound := found_atGlyph o gs
  generalize atGlyph o gs = p at hfound h ⊢
  cases hfound with
  | lineBreak => exact ⟨_, _, rfl, rfl, rfl⟩
  | @literal c r hon hc =>
      have hquoted := kind_literal o.escapes c r
      rw [h] at hquoted
      cases hquoted
  | @word c r hc => rcases kind_word (.char c :: r) with hk | ⟨k, hk⟩ <;> rw [hk] at h <;> cases h
  | mark hword hnumber => exact absurd h (kind_mark_ne rfl _ _)
  | endOfFile | comment | tab | number => cases h

-- If the end of a line is read right after a text, nothing is left of the text alone.
theorem kind_ofGlyphs_of_lineBreak {o : LexOptions} {gs ds : List Glyph} {e : LineEnding}
    (h : trivia o.comments (gs ++ .lineEnd e :: ds) = gs) :
    (ofGlyphs o gs).kind = .endOfFile := by
  have htrivia := trivia_of_append_lineEnd (Nat.le_of_eq (congrArg List.length h))
  rw [h] at htrivia
  rw [ofGlyphs, htrivia, List.drop_length]
  rfl

-- At the end of its line a text has the token for that.
theorem ofGlyphs_append_of_endOfFile (hend : (ofGlyphs o gs).kind = .endOfFile) :
    ofGlyphs o (gs ++ .lineEnd e :: ds) = ⟨gs, .lineBreak, [.lineEnd e], []⟩ := by
  have hplain : (ofGlyphs o gs).kind.StaysInLine := by
    rw [hend]
    decide
  have htrivia : trivia o.comments (gs ++ .lineEnd e :: ds) = trivia o.comments gs :=
    trivia_append_lineEnd (closed_of_staysInLine hplain)
  obtain ⟨hrest, -⟩ := (fits_atGlyph o _).eq_of_endOfFile hend
  have hall := List.prefix_iff_eq_append.mp (trivia_isPrefix o.comments gs)
  rw [hrest, List.append_nil] at hall
  have hdrop : (gs ++ .lineEnd e :: ds).drop gs.length = .lineEnd e :: ds := List.drop_left
  rw [ofGlyphs, htrivia, hall, hdrop, atGlyph, List.append_nil]

end Piece

namespace Cursor

variable {o : LexOptions} {c : Cursor} (e : LineEnding) (ds : List Glyph)

-- The cursor with a line end and more text after its own.
def before (c : Cursor) (e : LineEnding) (ds : List Glyph) : Cursor :=
  { c with rest := c.rest ++ .lineEnd e :: ds }

-- The cursor after its text and a line end, at the start of more text.
def pastLine (c : Cursor) (e : LineEnding) (ds : List Glyph) : Cursor :=
  ⟨ds, c.offset + Glyph.size c.rest + (Glyph.lineEnd e).width,
    (c.pos.after c.rest).next (.lineEnd e)⟩

theorem pastLine_read : (c.read o).2.pastLine e ds = c.pastLine e ds := by
  have hglyphs := List.prefix_iff_eq_append.mp (Piece.ofGlyphs_isPrefix o c.rest)
  have hsize := congrArg Glyph.size hglyphs
  have hpos := congrArg c.pos.after hglyphs
  rw [Glyph.size_append] at hsize
  rw [Position.after_append] at hpos
  rw [read_eq o c rfl]
  simp only [pastLine, hpos]
  congr 1
  omega

-- What stands before the end of a line is read as if nothing followed, unless it breaks off inside
-- a literal or a comment.
theorem read_before (h : (c.read o).1.kind.StaysInLine) (hend : (c.read o).1.kind ≠ .endOfFile) :
    (c.before e ds).read o = ((c.read o).1, (c.read o).2.before e ds) := by
  rw [read_eq o c rfl] at h hend ⊢
  have hle := (Piece.ofGlyphs_isPrefix o c.rest).length_le
  rw [read_eq o _ (Piece.ofGlyphs_append_lineEnd h hend)]
  simp only [before, List.drop_append_of_le_length hle]

theorem read_before_of_endOfFile (hend : (c.read o).1.kind = .endOfFile) :
    ((c.before e ds).read o).1.kind = .lineBreak ∧
      ((c.before e ds).read o).2 = c.pastLine e ds := by
  rw [read_eq o c rfl] at hend
  rw [read_eq o _ (Piece.ofGlyphs_append_of_endOfFile hend)]
  refine ⟨rfl, ?_⟩
  simp [before, pastLine, Piece.glyphs, Nat.add_assoc]

-- The tokens of a text with a line end after it are its own, a line break for its end token, and
-- those from the next line on.
theorem tokens_before (h : ∀ t ∈ c.tokens o, t.kind.StaysInLine) :
    ∃ ts last lineBreak, c.tokens o = ts ++ [last] ∧ last.kind = .endOfFile ∧
      lineBreak.kind = .lineBreak ∧
      (c.before e ds).tokens o = ts ++ lineBreak :: (c.pastLine e ds).tokens o := by
  fun_induction c.tokens o with
  | case1 c next hend =>
      obtain ⟨hbreak, hnext⟩ := read_before_of_endOfFile e ds hend
      refine ⟨[], next.1, ((c.before e ds).read o).1, rfl, hend, hbreak, ?_⟩
      rw [tokens, if_neg (by simp [hbreak]), hnext]
      rfl
  | case2 c next hend ih =>
      obtain ⟨ts, last, lineBreak, htokens, hlast, hbreak, hrest⟩ :=
        ih fun t ht => h t (List.mem_cons_of_mem _ ht)
      have hread := read_before e ds (h next.1 List.mem_cons_self) hend
      refine ⟨next.1 :: ts, last, lineBreak, by rw [htokens]; rfl, hlast, hbreak, ?_⟩
      rw [tokens, hread]
      simp only
      rw [if_neg hend, hrest, pastLine_read]
      rfl

-- The text before a line break has the tokens before it, when they stay in their lines.
theorem exists_before_of_tokens {ts us : List Token} {b : Token}
    (h : c.tokens o = ts ++ b :: us) (hts : ∀ t ∈ ts, t.kind.StaysInLine)
    (hb : b.kind = .lineBreak) :
    ∃ d e ds last, c = Cursor.before d e ds ∧ d.tokens o = ts ++ [last] ∧ last.kind = .endOfFile ∧
      b.start = d.offset + Glyph.size d.rest ∧ b.text = Glyph.text [.lineEnd e] := by
  induction ts generalizing c with
  | nil =>
      have hread : (c.read o).1 = b := by
        rw [tokens] at h
        split at h <;> exact (List.cons.inj h).1
      rw [read_eq o c rfl] at hread
      subst hread
      obtain ⟨e, ds, hrest, hlexeme, hskipped⟩ := Piece.exists_of_lineBreak hb
      have hsplit := List.prefix_iff_eq_append.mp (Piece.trivia_isPrefix o.comments c.rest)
      rw [hrest] at hsplit
      have hend :
          (read o { c with rest := Piece.trivia o.comments c.rest }).1.kind = .endOfFile := by
        rw [read_eq o _ rfl]
        exact Piece.kind_ofGlyphs_of_lineBreak (congrArg (Piece.trivia o.comments) hsplit)
      refine ⟨{ c with rest := Piece.trivia o.comments c.rest }, e, ds, _, ?_, ?_, hend, ?_, ?_⟩
      · rw [before, hsplit]
      · rw [tokens, if_pos hend]
        rfl
      · simp only [Piece.ofGlyphs, hskipped, List.append_nil]
      · simp only [Piece.ofGlyphs, hlexeme]
  | cons t ts ih =>
      rw [tokens] at h
      split at h
      · simp at h
      rename_i hend
      obtain ⟨rfl, hrest⟩ := List.cons.inj h
      obtain ⟨d, e, ds, last, hbefore, htokens, hlast, hstart, htext⟩ :=
        ih hrest fun t ht => hts t (List.mem_cons_of_mem _ ht)
      have hplain := hts _ List.mem_cons_self
      have hall := List.prefix_iff_eq_append.mp (Piece.ofGlyphs_isPrefix o c.rest)
      rw [read_eq o c rfl] at hbefore hplain
      obtain ⟨hd, hoffset, hpos⟩ := Cursor.mk.inj hbefore
      generalize hp : Piece.ofGlyphs o c.rest = p at hd hoffset hpos hplain hall
      rw [hd, ← List.append_assoc] at hall
      have hpiece : Piece.ofGlyphs o (p.glyphs ++ d.rest) = p := by
        rw [← hall] at hp
        refine (Piece.ofGlyphs_of_append_lineEnd ?_ ?_).trans hp
        · rw [hp]
          exact hplain
        · rw [hp, List.length_append]
          exact Nat.le_add_right _ _
      have hread : read o { c with rest := p.glyphs ++ d.rest } = ((c.read o).1, d) := by
        rw [read_eq o _ hpiece, read_eq o c hp]
        simp only [List.drop_left, hoffset, hpos]
      refine ⟨{ c with rest := p.glyphs ++ d.rest }, e, ds, last, ?_, ?_, hlast, ?_, htext⟩
      · rw [before, hall]
      · rw [tokens, hread]
        simp only
        rw [if_neg hend, htokens]
        rfl
      · rw [hstart, Glyph.size_append, ← Nat.add_assoc]
        exact congrArg (· + _) hoffset.symm

end Cursor

end UnitCalc
