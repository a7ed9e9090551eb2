import UnitCalc.Proofs.Prompt.Continuation

namespace UnitCalc

namespace Text

theorem getLast?_trimEnd (cs : List Char) :
    (trimEnd cs).getLast? = cs.reverse.find? fun c => !isBlank c := by
  rw [trimEnd, List.getLast?_reverse, List.find?_eq_head?_dropWhile_not]
  simp

-- The last character of a text that is not blank is in its last part, if there is one in it.
theorem getLast?_trimEnd_append (as bs : List Char) :
    (trimEnd (as ++ bs)).getLast? = (trimEnd bs).getLast?.or (trimEnd as).getLast? := by
  simp only [getLast?_trimEnd, List.reverse_append, List.find?_append]

theorem getLast?_trimEnd_spaces {cs : List Char} (h : ∀ c ∈ cs, c = ' ') :
    (trimEnd ('\\' :: cs)).getLast? = some '\\' := by
  have hnone : (trimEnd cs).getLast? = none := by
    rw [getLast?_trimEnd, List.find?_eq_none]
    intro c hc
    rw [h c (List.mem_reverse.mp hc)]
    decide
  rw [← List.singleton_append, getLast?_trimEnd_append, hnone]
  rfl

end Text

namespace Cursor

open Prompt

variable {o : LexOptions} {c : Cursor} {ts us : List Token} {t a last : Token}

theorem read_eq_pass (o : LexOptions) (c : Cursor) : ∃ n, (c.read o).2 = c.pass n :=
  ⟨_, by rw [read, take, pass_pass, pass_pass]⟩

theorem exists_pass_of_tokens (h : c.tokens o = ts ++ t :: us) :
    ∃ n, ((c.pass n).read o).1 = t ∧
      (t.kind ≠ .endOfFile → ((c.pass n).read o).2.tokens o = us) := by
  induction ts generalizing c with
  | nil =>
      rw [tokens] at h
      refine ⟨0, ?_⟩
      rw [pass_zero]
      split at h
      · rename_i hend
        obtain ⟨rfl, -⟩ := List.cons.inj h
        exact ⟨rfl, fun hne => absurd hend hne⟩
      · obtain ⟨rfl, hrest⟩ := List.cons.inj h
        exact ⟨rfl, fun _ => hrest⟩
  | cons u ts ih =>
      rw [tokens] at h
      split at h
      · simp at h
      · obtain ⟨m, hm⟩ := read_eq_pass o c
        obtain ⟨n, hn⟩ := ih (List.cons.inj h).2
        rw [hm, pass_pass] at hn
        exact ⟨m + n, hn⟩

theorem trivia_of_endOfFile (hproper : ∀ g ∈ c.rest, g.Proper)
    (h : (c.read o).1.kind = .endOfFile) : Trivia o.comments (c.rest.flatMap Glyph.chars) [] := by
  rw [kind_read] at h
  have hnil : c.atToken o = [] := ((Piece.fits_atGlyph o _).eq_of_endOfFile h).1
  have hall := List.prefix_iff_eq_append.mp (Piece.trivia_isPrefix o.comments c.rest)
  have hrun := Piece.trivia_run o.comments hproper
  rw [atToken] at hnil
  rw [hnil, List.append_nil] at hall
  rwa [hnil, hall] at hrun

-- Where the text of a token in its line stands.
theorem start_read (h : (c.read o).1.kind.StaysInLine) :
    (c.read o).1.start = c.offset + Glyph.size (Piece.trivia o.comments c.rest) ∧
      c.rest.flatMap Glyph.chars = (Piece.trivia o.comments c.rest).flatMap Glyph.chars ++
        ((c.read o).1.text.toList ++ (c.read o).2.rest.flatMap Glyph.chars) := by
  have hsplit := List.prefix_iff_eq_append.mp (Piece.trivia_isPrefix o.comments c.rest)
  have htoken := atToken_eq_append h
  have hskipped := ((Piece.fits_atGlyph o (c.atToken o)).of_not_isQuoted (kind_read o c ▸ h.1)).1
  have htext : (c.read o).1.text = Glyph.text (Piece.atGlyph o (c.atToken o)).lexeme := by
    rw [read_eq o c rfl]
    rfl
  constructor
  · rw [read_eq o c rfl]
    simp only [atToken] at hskipped
    simp only [Piece.ofGlyphs, hskipped, List.append_nil]
  · rw [htext, Glyph.text, String.toList_ofList, ← List.flatMap_append, ← htoken,
      ← List.flatMap_append, atToken, hsplit]

-- Nothing but trivia stands between the last token of a text and its end.
theorem exists_of_last_backslash (hproper : ∀ g ∈ c.rest, g.Proper)
    (h : c.tokens o = ts ++ [a, last]) (ha : a.isBackslash = true)
    (hlast : last.kind = .endOfFile) :
    ∃ before gap, c.rest.flatMap Glyph.chars = before ++ '\\' :: gap ∧
      a.start = c.offset + Text.byteSize before ∧ Trivia o.comments gap [] := by
  obtain ⟨n, hread, htokens⟩ := exists_pass_of_tokens h
  simp only [Token.isBackslash, Bool.and_eq_true, beq_iff_eq] at ha
  have hrest := htokens (by rw [ha.1]; decide)
  subst hread
  have hplain : ((c.pass n).read o).1.kind.StaysInLine := by
    rw [ha.1]
    decide
  obtain ⟨hstart, hchars⟩ := start_read hplain
  have hnext : (((c.pass n).read o).2.read o).1 = last := by
    rw [tokens] at hrest
    split at hrest <;> exact (List.cons.inj hrest).1
  have hproper' : ∀ g ∈ ((c.pass n).read o).2.rest, g.Proper :=
    proper_read fun g hg => hproper g (List.mem_of_mem_drop hg)
  have hgap := trivia_of_endOfFile hproper' (by rw [hnext, hlast])
  rw [ha.2] at hchars
  refine ⟨(c.rest.take n).flatMap Glyph.chars ++
    (Piece.trivia o.comments (c.pass n).rest).flatMap Glyph.chars, _, ?_, ?_, hgap⟩
  · have hall := congrArg (List.flatMap Glyph.chars) (List.take_append_drop n c.rest)
    rw [List.flatMap_append] at hall
    rw [← hall, List.append_assoc]
    exact congrArg _ hchars
  · rw [hstart, Text.byteSize_append, Glyph.byteSize_flatMap_chars, Glyph.byteSize_flatMap_chars,
      ← Nat.add_assoc]
    rfl

-- A text and a line end have the tokens of the text and one for the line break.
theorem exists_tokens_before_end (e : LineEnding) (h : c.tokens o = ts ++ [last])
    (hts : ∀ t ∈ ts, t.kind.StaysInLine) (hlast : last.kind = .endOfFile) :
    ∃ lineBreak last', lineBreak.kind = .lineBreak ∧ last'.kind = .endOfFile ∧
      (c.before e []).tokens o = ts ++ [lineBreak] ++ [last'] := by
  have hall : ∀ t ∈ c.tokens o, t.kind.StaysInLine := by
    rw [h]
    refine List.forall_mem_append.mpr ⟨hts, List.forall_mem_singleton.mpr ?_⟩
    rw [hlast]
    decide
  obtain ⟨ts', last', lineBreak, htokens, -, hbreak, hbefore⟩ := tokens_before e [] hall
  obtain ⟨rfl, -⟩ := List.append_inj' (h.symm.trans htokens) rfl
  have hend : ((c.pastLine e []).read o).1.kind = .endOfFile := by
    rw [kind_read, atToken, pastLine, List.drop_nil]
    rfl
  refine ⟨lineBreak, _, hbreak, hend, ?_⟩
  rw [hbefore, tokens, if_pos hend, List.append_cons]

theorem leftOpen_of_tokens (hproper : ∀ g ∈ c.rest, g.Proper) (h : c.tokens o = ts ++ [last])
    (hts : ∀ t ∈ ts, t.kind.StaysInLine) (hlast : last.kind = .endOfFile) :
    leftOpen o.comments 0 (c.rest.flatMap Glyph.chars) = (false, tokenNesting ts) := by
  obtain ⟨d, hd, hread, hscan⟩ := exists_leftOpen_of_tokens_eq_append hproper h hts 0
  rw [hscan, Int.zero_add, leftOpen_read_endOfFile hd (by rw [hread, hlast])]

end Cursor

namespace Prompt

open Cursor

variable {o : LexOptions} {s t : String} {ts us : List Token} {a b : Token}

-- The part of a text up to a line ending that a line feed in it belongs to: only the first half of
-- the line ending can be missing.
theorem eq_append_of_lineEnd {cs cs' ds ds' : List Char} {e : LineEnding}
    (h : cs' ++ '\n' :: ds' = cs ++ (e.chars ++ ds)) (hle : Text.byteSize cs ≤ Text.byteSize cs')
    (hlt : Text.byteSize cs' < Text.byteSize cs + Text.byteSize e.chars) :
    cs' = cs ∨ cs' = cs ++ ['\r'] := by
  rcases List.append_eq_append_iff.mp h with ⟨as, rfl, -⟩ | ⟨as, rfl, hrest⟩
  · rw [Text.byteSize_append] at hle
    by_cases has : as = []
    · subst has
      exact .inl (List.append_nil _).symm
    · have hpos := Text.byteSize_pos has
      omega
  · rw [Text.byteSize_append] at hlt
    match as with
    | [] => exact .inl (List.append_nil _)
    | [x] =>
        have hx := x.utf8Size_pos
        cases e with
        | crlf => exact .inr (by rw [(List.cons.inj hrest).1])
        | lfcr => cases (List.cons.inj (List.cons.inj hrest).2).1
        | lf | cr =>
            have hone : Text.byteSize [x] < 1 := Nat.lt_of_add_lt_add_left hlt
            simp only [Text.byteSize_cons, Text.byteSize_nil] at hone
            omega
    | x :: y :: as =>
        have hx := x.utf8Size_pos
        have hy := y.utf8Size_pos
        have htwo : Text.byteSize e.chars ≤ 2 := by
          cases e <;> decide
        simp only [Text.byteSize_cons] at hlt
        omega

-- A text and the first half of a line ending leave the same open.
theorem leftOpen_of_backslash {d : Cursor} {last : Token} {cs : List Char}
    (hproper : ∀ g ∈ d.rest, g.Proper) (h : d.tokens o = (ts ++ [a]) ++ [last])
    (hts : ∀ u ∈ ts ++ [a], u.kind.StaysInLine) (ha : a.isBackslash = true)
    (hlast : last.kind = .endOfFile)
    (hcs : cs = d.rest.flatMap Glyph.chars ∨ cs = d.rest.flatMap Glyph.chars ++ ['\r']) :
    leftOpen o.comments 0 cs = (false, tokenNesting ts) := by
  simp only [Token.isBackslash, Bool.and_eq_true, beq_iff_eq] at ha
  have hnesting : tokenNesting (ts ++ [a]) = tokenNesting ts := by
    simp [tokenNesting_append, ha.1, TokenKind.nesting]
  rcases hcs with rfl | rfl
  · rw [leftOpen_of_tokens hproper h hts hlast, hnesting]
  · obtain ⟨lineBreak, last', hbreak, hlast', hbefore⟩ := exists_tokens_before_end .cr h hts hlast
    have hproper' : ∀ g ∈ (d.before .cr []).rest, g.Proper :=
      List.forall_mem_append.mpr ⟨hproper, List.forall_mem_singleton.mpr trivial⟩
    have hts' : ∀ u ∈ ts ++ [a] ++ [lineBreak], u.kind.StaysInLine :=
      List.forall_mem_append.mpr ⟨hts, List.forall_mem_singleton.mpr (hbreak ▸ by decide)⟩
    have hscan := leftOpen_of_tokens hproper' hbefore hts' hlast'
    rw [tokenNesting_append, hnesting] at hscan
    simpa [before, Glyph.chars, LineEnding.chars, hbreak, TokenKind.nesting] using hscan

-- Blanks and the first half of a line ending aside, a text ends as what follows a backslash in it.
theorem getLast?_trimEnd_backslash {before gap cs : List Char}
    (h : cs = before ++ '\\' :: gap ∨ cs = before ++ '\\' :: gap ++ ['\r']) :
    (Text.trimEnd cs).getLast? = (Text.trimEnd ('\\' :: gap)).getLast? := by
  have hsome : (Text.trimEnd ('\\' :: gap)).getLast?.isSome = true := by
    rw [← List.singleton_append, Text.getLast?_trimEnd_append]
    cases (Text.trimEnd gap).getLast? <;> rfl
  have hbefore : (Text.trimEnd (before ++ '\\' :: gap)).getLast? =
      (Text.trimEnd ('\\' :: gap)).getLast? := by
    rw [Text.getLast?_trimEnd_append, Option.or_of_isSome hsome]
  rcases h with rfl | rfl
  · exact hbefore
  · rw [Text.getLast?_trimEnd_append, hbefore]
    rfl

theorem exists_cursor_of_lineBreak (hlex : lex o (s ++ "\n" ++ t) = ts ++ b :: us)
    (hts : ∀ u ∈ ts, u.kind.StaysInLine) (hb : b.kind = .lineBreak)
    (hplace : b.start ≤ s.utf8ByteSize ∧ s.utf8ByteSize < b.start + b.text.utf8ByteSize) :
    ∃ (d : Cursor) (last : Token), (∀ g ∈ d.rest, g.Proper) ∧ d.tokens o = ts ++ [last] ∧
      last.kind = .endOfFile ∧ d.offset = 0 ∧
      b.start = Text.byteSize (d.rest.flatMap Glyph.chars) ∧
      (s.toList = d.rest.flatMap Glyph.chars ∨
        s.toList = d.rest.flatMap Glyph.chars ++ ['\r']) := by
  obtain ⟨d, e, ds, last, hbefore, htokens, hlast, hstart, htext⟩ :=
    exists_before_of_tokens hlex hts hb
  obtain ⟨hrest, hzero, -⟩ := Cursor.mk.inj hbefore
  rw [Glyph.ofString] at hrest
  have hproper : ∀ g ∈ d.rest, g.Proper := by
    intro g hg
    have hall := Glyph.proper_ofChars (s ++ "\n" ++ t).toList
    rw [hrest] at hall
    exact hall g (List.mem_append_left _ hg)
  have hchars : s.toList ++ '\n' :: t.toList =
      d.rest.flatMap Glyph.chars ++ (e.chars ++ ds.flatMap Glyph.chars) := by
    have hall := congrArg (List.flatMap Glyph.chars) hrest
    rw [Glyph.flatMap_chars_ofChars, List.flatMap_append] at hall
    simpa [Glyph.chars] using hall
  have hsize : b.start = Text.byteSize (d.rest.flatMap Glyph.chars) := by
    rw [hstart, ← hzero, Glyph.byteSize_flatMap_chars]
    exact Nat.zero_add _
  have hwidth : b.text.utf8ByteSize = Text.byteSize e.chars := by
    rw [htext, Glyph.text, Text.utf8ByteSize_ofList, List.flatMap_singleton, Glyph.chars]
  rw [hsize, hwidth, ← Text.byteSize_toList] at hplace
  exact ⟨d, last, hproper, htokens, hlast, hzero.symm, hsize,
    eq_append_of_lineEnd hchars hplace.1 hplace.2⟩

-- The line editor, against a parser that goes on past a backslash at the end of a line: `gap` is
-- what stands between the two.
theorem needsMore_of_backslash {qs : List Quantity}
    (hparse : parseLines o (s ++ "\n" ++ t) = .ok qs)
    (hlex : lex o (s ++ "\n" ++ t) = ts ++ a :: b :: us) (ha : a.isBackslash = true)
    (hb : b.kind = .lineBreak)
    (hplace : b.start ≤ s.utf8ByteSize ∧ s.utf8ByteSize < b.start + b.text.utf8ByteSize) :
    ∃ before gap, before ++ '\\' :: gap <+: s.toList ∧ a.start = Text.byteSize before ∧
      b.start = a.start + 1 + Text.byteSize gap ∧ Trivia o.comments gap [] ∧
      (o.comments = false → needsMore o s = true) ∧
      (needsMore o s = true ↔
        0 < tokenNesting ts ∨ (Text.trimEnd ('\\' :: gap)).getLast? = some '\\') := by
  have hplain := staysInLine_of_parseLines hparse
  rw [hlex, List.append_cons] at hplain
  rw [List.append_cons] at hlex
  have hstays : ∀ u ∈ ts ++ [a], u.kind.StaysInLine := fun u hu =>
    hplain u (List.mem_append_left _ hu)
  obtain ⟨d, last, hproper, htokens, hlast, hzero, hsize, hchars⟩ :=
    exists_cursor_of_lineBreak hlex hstays hb hplace
  have hscan := leftOpen_of_backslash hproper htokens hstays ha hlast hchars
  rw [List.append_assoc] at htokens
  obtain ⟨before, gap, hsplit, hstart, hgap⟩ := exists_of_last_backslash hproper htokens ha hlast
  rw [hzero, Nat.zero_add] at hstart
  rw [hsplit] at hchars hsize
  have hmore : needsMore o s = true ↔
      0 < tokenNesting ts ∨ (Text.trimEnd ('\\' :: gap)).getLast? = some '\\' := by
    rw [needsMore_iff, hscan, getLast?_trimEnd_backslash hchars]
    simp
  refine ⟨before, gap, ?_, hstart, ?_, hgap, ?_, hmore⟩
  · rcases hchars with h | h
    · exact h ▸ List.prefix_rfl
    · exact h ▸ List.prefix_append _ _
  · have hslash : ('\\').utf8Size = 1 := rfl
    rw [Text.byteSize_append, Text.byteSize_cons, hslash, ← hstart] at hsize
    rw [hsize, Nat.add_assoc]
  · intro hoff
    rcases hgap.spaces_or_slash with hspaces | ⟨hon, -⟩
    · exact hmore.mpr (.inr (Text.getLast?_trimEnd_spaces hspaces))
    · rw [hoff] at hon
      cases hon

theorem needsMore_of_backslash_spaces :
    parseLines {} ("1 m \\  " ++ "\n" ++ "as ft") =
        .ok [⟨1, some (.name "m" ⟨2, 1⟩), some (.name "ft" ⟨11, 2⟩)⟩] ∧
      ((lex {} ("1 m \\  " ++ "\n" ++ "as ft")).drop 2).take 2 =
        [⟨.undefined, ⟨0, 4⟩, 4, "\\"⟩, ⟨.lineBreak, ⟨0, 7⟩, 7, "\n"⟩] ∧
      needsMore {} "1 m \\  " = true := by
  have hparse : parseLines {} ("1 m \\  " ++ "\n" ++ "as ft") =
      .ok [⟨1, some (.name "m" ⟨2, 1⟩), some (.name "ft" ⟨11, 2⟩)⟩] := by
    decide +kernel
  have hlex : lex {} ("1 m \\  " ++ "\n" ++ "as ft") =
      (lex {} ("1 m \\  " ++ "\n" ++ "as ft")).take 2 ++
        ⟨.undefined, ⟨0, 4⟩, 4, "\\"⟩ :: ⟨.lineBreak, ⟨0, 7⟩, 7, "\n"⟩ ::
          (lex {} ("1 m \\  " ++ "\n" ++ "as ft")).drop 4 := by
    decide +kernel
  obtain ⟨before, gap, -, -, -, -, hmore, -⟩ :=
    needsMore_of_backslash hparse hlex (by decide) rfl (by decide)
  exact ⟨hparse, by decide +kernel, hmore rfl⟩

-- With comments, one may stand between the backslash and the line break.
theorem not_forall_needsMore_of_backslash :
    ¬ ∀ (o : LexOptions) (s t : String) (ts us : List Token) (a b : Token),
      (∃ qs, parseLines o (s ++ "\n" ++ t) = .ok qs) →
      lex o (s ++ "\n" ++ t) = ts ++ a :: b :: us → a.isBackslash = true → b.kind = .lineBreak →
      b.start ≤ s.utf8ByteSize ∧ s.utf8ByteSize < b.start + b.text.utf8ByteSize →
      needsMore o s = true := by
  intro h
  have hparse : parseLines { comments := true } ("1 m \\ // note" ++ "\n" ++ "as ft") =
      .ok [⟨1, some (.name "m" ⟨2, 1⟩), some (.name "ft" ⟨17, 2⟩)⟩] := by
    decide +kernel
  have hlex : lex { comments := true } ("1 m \\ // note" ++ "\n" ++ "as ft") =
      (lex { comments := true } ("1 m \\ // note" ++ "\n" ++ "as ft")).take 2 ++
        ⟨.undefined, ⟨0, 4⟩, 4, "\\"⟩ :: ⟨.lineBreak, ⟨0, 13⟩, 13, "\n"⟩ ::
          (lex { comments := true } ("1 m \\ // note" ++ "\n" ++ "as ft")).drop 4 := by
    decide +kernel
  have hmore := h { comments := true } "1 m \\ // note" "as ft" _ _ _ _ ⟨_, hparse⟩ hlex
    (by decide) rfl (by decide)
  have hless : needsMore { comments := true } "1 m \\ // note" = false := by
    decide
  rw [hless] at hmore
  cases hmore

end Prompt

end UnitCalc
