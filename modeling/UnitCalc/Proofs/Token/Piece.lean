import UnitCalc.Token.Reader

namespace UnitCalc

namespace TokenKind

-- The kinds of a string literal, whole or broken off.
def isQuoted : TokenKind → Bool
  | string | fault .unterminatedString | fault .invalidEscape => true
  | _ => false

-- The kinds of a single mark or a pair of them.
def isMark : TokenKind → Bool
  | opening _ | closing _ | operator _ | undefined => true
  | _ => false

end TokenKind

namespace Piece

-- A first part of what is left after a first part makes a longer first part.
theorem append_isPrefix {as bs gs : List Glyph} (ha : as <+: gs) (hb : bs <+: gs.drop as.length) :
    as ++ bs <+: gs := by
  obtain ⟨rest, rfl⟩ := ha
  rw [List.drop_left] at hb
  exact (List.prefix_append_right_inj as).mpr hb

theorem digits_isPrefix (gs : List Glyph) : digits gs <+: gs :=
  List.takeWhile_prefix _

theorem mantissa_isPrefix (gs : List Glyph) : mantissa gs <+: gs := by
  unfold mantissa
  split
  · exact (List.prefix_cons_inj _).mpr (digits_isPrefix _)
  · dsimp only
    split
    · rename_i r hr
      apply append_isPrefix (digits_isPrefix gs)
      rw [hr]
      exact (List.prefix_cons_inj _).mpr (digits_isPrefix r)
    · exact digits_isPrefix gs

theorem exponent_isPrefix (gs : List Glyph) : exponent gs <+: gs := by
  unfold exponent
  split
  · rename_i e s r
    have hd : .char e :: .char s :: digits r <+: .char e :: .char s :: r :=
      (List.prefix_cons_inj _).mpr ((List.prefix_cons_inj _).mpr (digits_isPrefix r))
    repeat' split
    all_goals first | exact hd | exact List.nil_prefix
  · exact List.nil_prefix

theorem number_isPrefix (gs : List Glyph) : number gs <+: gs :=
  append_isPrefix (mantissa_isPrefix gs) (exponent_isPrefix _)

-- How the content of a literal ends: at its quote, or where it breaks off.
inductive Ends (quote : Char) (gs : List Glyph) : List Glyph → TokenKind → Prop where
  | closed {content rest : List Glyph} (h : gs = content ++ .char quote :: rest) :
      Ends quote gs content .string
  | unterminated {content : List Glyph} (h : content <+: gs) :
      Ends quote gs content (.fault .unterminatedString)
  | invalidEscape {content : List Glyph} (h : content <+: gs) :
      Ends quote gs content (.fault .invalidEscape)

theorem Ends.append {quote : Char} {gs content : List Glyph} {kind : TokenKind}
    (h : Ends quote gs content kind) (as : List Glyph) :
    Ends quote (as ++ gs) (as ++ content) kind := by
  cases h with
  | closed h => exact .closed (by rw [h, List.append_assoc])
  | unterminated h => exact .unterminated ((List.prefix_append_right_inj as).mpr h)
  | invalidEscape h => exact .invalidEscape ((List.prefix_append_right_inj as).mpr h)

theorem plainContent_ends (quote : Char) (gs : List Glyph) :
    Ends quote gs (plainContent quote gs).1 (plainContent quote gs).2 := by
  have hp := List.takeWhile_prefix (l := gs) (Glyph.is (· != quote))
  unfold plainContent
  dsimp only
  split
  · rename_i h
    obtain ⟨rest, hr⟩ := List.head?_eq_some_iff.mp h
    exact .closed (by rw [← hr, List.prefix_iff_eq_append.mp hp])
  · exact .unterminated hp

theorem escapedContent_ends (quote : Char) (gs : List Glyph) :
    Ends quote gs (escapedContent quote gs).1 (escapedContent quote gs).2 := by
  fun_induction escapedContent quote gs with
  | case1 => exact .unterminated List.nil_prefix
  | case2 => exact .unterminated List.prefix_rfl
  | case3 g gs hg content kind he ih =>
      rw [he] at ih
      exact ih.append [.char '\\', g]
  | case4 g gs hg => exact .invalidEscape ⟨gs, rfl⟩
  | case5 gs => exact .closed rfl
  | case6 g gs h1 h2 hq content kind he ih =>
      rw [he] at ih
      exact ih.append [g]

-- What a piece without trivia can be, read off some glyphs.
inductive Fits (gs : List Glyph) : Piece → Prop where
  | plain {kind : TokenKind} {lexeme : List Glyph} (hkind : kind.isQuoted = false)
      (hend : kind = .endOfFile ↔ gs = []) (h : lexeme <+: gs) : Fits gs ⟨[], kind, lexeme, []⟩
  | quoted {quote : Char} {rest content : List Glyph} {kind : TokenKind} (hquote : isQuote quote)
      (hgs : gs = .char quote :: rest) (h : Ends quote rest content kind) :
      Fits gs ⟨[.char quote], kind, content, if kind = .string then [.char quote] else []⟩

theorem fits_literal (escapes : Bool) {quote : Char} (gs : List Glyph) (hquote : isQuote quote) :
    Fits (.char quote :: gs) (literal escapes quote gs) := by
  cases escapes with
  | false => exact .quoted hquote rfl (plainContent_ends quote gs)
  | true => exact .quoted hquote rfl (escapedContent_ends quote gs)

theorem isIdentifierPart_of_isDigit {c : Char} (h : c.isDigit = true) :
    isIdentifierPart c = true := by
  simp [isIdentifierPart, Char.isAlphanum, h]

theorem isIdentifierStart_of_isDigit {c : Char} (h : c.isDigit = true) :
    isIdentifierStart c = false := by
  have hne : c ≠ '_' := by
    rintro rfl
    cases h
  simp only [Char.isDigit, Bool.and_eq_true, decide_eq_true_eq, UInt32.le_iff_toNat_le] at h
  have hnine : c.val.toNat ≤ 57 := h.2
  have hbeforeUpper : ¬ 65 ≤ c.val.toNat := by omega
  have hbeforeLower : ¬ 97 ≤ c.val.toNat := by omega
  have hupper : c.isUpper = false := decide_eq_false fun hletter =>
    hbeforeUpper (UInt32.le_iff_toNat_le.mp hletter.1)
  have hlower : c.isLower = false := Bool.and_eq_false_imp.mpr fun hfirst =>
    absurd (UInt32.le_iff_toNat_le.mp (of_decide_eq_true hfirst)) hbeforeLower
  have halpha : c.isAlpha = false := Bool.or_eq_false_iff.mpr ⟨hupper, hlower⟩
  simp [isIdentifierStart, halpha, hne]

theorem isIdentifierPart_of_isIdentifierStart {c : Char} (h : isIdentifierStart c = true) :
    isIdentifierPart c = true := by
  simp only [isIdentifierStart, isIdentifierPart, Char.isAlphanum, Bool.or_eq_true] at h ⊢
  rcases h with h | h <;> simp [h]

theorem atGlyph_of_isIdentifierStart (o : LexOptions) {c : Char}
    (h : isIdentifierStart c = true) (gs : List Glyph) :
    atGlyph o (.char c :: gs) = word (.char c :: gs) := by
  have hne : ∀ d : Char, isIdentifierStart d = false → c ≠ d := by
    rintro d hd rfl
    rw [h] at hd
    cases hd
  simp [atGlyph, isQuote, hne '/' rfl, hne '\t' rfl, hne '"' rfl, hne '\'' rfl, h]

theorem fits_word (c : Char) (gs : List Glyph) : Fits (.char c :: gs) (word (.char c :: gs)) := by
  unfold word
  dsimp only
  split <;> exact .plain rfl (by simp) (List.takeWhile_prefix _)

theorem isMark_mark (c : Char) (next : Option Glyph) : (mark c next).1.isMark = true := by
  unfold mark
  split <;> (try rfl) <;> (dsimp only; split <;> rfl)

theorem kind_mark_ne {kind : TokenKind} (h : kind.isMark = false) (c : Char) (next : Option Glyph) :
    (mark c next).1 ≠ kind := by
  rintro rfl
  rw [isMark_mark] at h
  cases h

theorem isQuoted_mark (c : Char) (next : Option Glyph) : (mark c next).1.isQuoted = false := by
  have hmark := isMark_mark c next
  generalize (mark c next).1 = kind at hmark ⊢
  cases kind <;> first | rfl | cases hmark

-- The tokens that there are, by the glyphs they are read from.
inductive Found (o : LexOptions) : List Glyph → Piece → Prop where
  | endOfFile : Found o [] ⟨[], .endOfFile, [], []⟩
  | lineBreak {e : LineEnding} {r : List Glyph} :
      Found o (.lineEnd e :: r) ⟨[], .lineBreak, [.lineEnd e], []⟩
  | comment {r : List Glyph} (hon : o.comments = true) :
      Found o (.char '/' :: .char '*' :: r)
        ⟨[], .fault .unterminatedComment, .char '/' :: .char '*' :: r, []⟩
  | tab {r : List Glyph} : Found o (.char '\t' :: r) ⟨[], .tab, [.char '\t'], []⟩
  | literal {c : Char} {r : List Glyph} (hon : o.quotedStrings = true) (hc : isQuote c = true) :
      Found o (.char c :: r) (literal o.escapes c r)
  | word {c : Char} {r : List Glyph} (hc : isIdentifierStart c = true) :
      Found o (.char c :: r) (word (.char c :: r))
  | number {c : Char} {r : List Glyph} (hc : startsNumber c r.head? = true) :
      Found o (.char c :: r) ⟨[], .number, number (.char c :: r), []⟩
  | mark {c : Char} {r : List Glyph} (hword : isIdentifierStart c = false)
      (hnumber : startsNumber c r.head? = false) :
      Found o (.char c :: r)
        ⟨[], (mark c r.head?).1, (.char c :: r).take (mark c r.head?).2, []⟩

theorem found_atGlyph (o : LexOptions) (gs : List Glyph) : Found o gs (atGlyph o gs) := by
  match gs with
  | [] => exact .endOfFile
  | .lineEnd e :: r => exact .lineBreak
  | .char c :: r =>
      simp only [atGlyph]
      split
      · rename_i hopen
        simp only [Bool.and_eq_true, beq_iff_eq, decide_eq_true_eq] at hopen
        obtain ⟨⟨hon, rfl⟩, hstar⟩ := hopen
        obtain ⟨r, rfl⟩ := List.head?_eq_some_iff.mp hstar
        exact .comment hon
      split
      · rename_i htab
        obtain rfl : c = '\t' := by simpa using htab
        exact .tab
      split
      · rename_i hquote
        rw [Bool.and_eq_true] at hquote
        exact .literal hquote.1 hquote.2
      split
      · rename_i hword
        exact .word hword
      split
      · rename_i hnumber
        exact .number hnumber
      · rename_i hword hnumber
        exact .mark (by simpa using hword) (by simpa using hnumber)

theorem fits_atGlyph (o : LexOptions) (gs : List Glyph) : Fits gs (atGlyph o gs) := by
  have hfound := found_atGlyph o gs
  generalize atGlyph o gs = p at hfound ⊢
  cases hfound with
  | endOfFile => exact .plain rfl (by simp) List.nil_prefix
  | @lineBreak e r => exact .plain rfl (by simp) ⟨r, rfl⟩
  | comment hon => exact .plain rfl (by simp) List.prefix_rfl
  | @tab r => exact .plain rfl (by simp) ⟨r, rfl⟩
  | literal hon hc => exact fits_literal o.escapes _ hc
  | word hc => exact fits_word _ _
  | number hc => exact .plain rfl (by simp) (number_isPrefix _)
  | @mark c r hword hnumber =>
      have hend : (Piece.mark c r.head?).1 ≠ .endOfFile := kind_mark_ne rfl c r.head?
      exact .plain (isQuoted_mark c r.head?) (by simp [hend]) (List.take_prefix _ _)

theorem Fits.glyphs_isPrefix {gs : List Glyph} {p : Piece} (h : Fits gs p) : p.glyphs <+: gs := by
  cases h with
  | plain hkind hend h => simpa [glyphs] using h
  | quoted hquote hgs h =>
      subst hgs
      cases h with
      | @closed rest h => exact ⟨rest, by simp [glyphs, h]⟩
      | unterminated h => simpa [glyphs] using h
      | invalidEscape h => simpa [glyphs] using h

-- The piece of a literal skips its quote, and the same quote closes it unless it breaks off.
theorem Fits.of_isQuoted {gs : List Glyph} {p : Piece} (h : Fits gs p)
    (hquoted : p.kind.isQuoted = true) :
    ∃ quote, isQuote quote = true ∧ p.skipped = [.char quote] ∧
      p.closing = if p.kind = .string then [.char quote] else [] := by
  cases h with
  | plain hplain hend h => simp [hplain] at hquoted
  | quoted hquote hgs h => exact ⟨_, hquote, rfl, rfl⟩

theorem Fits.of_not_isQuoted {gs : List Glyph} {p : Piece} (h : Fits gs p)
    (hplain : p.kind.isQuoted = false) : p.skipped = [] ∧ p.closing = [] := by
  cases h with
  | plain hplain hend h => exact ⟨rfl, rfl⟩
  | quoted hquote hgs h => cases h <;> simp [TokenKind.isQuoted] at hplain

-- The end token is read at the end of the text alone, and takes up nothing.
theorem Fits.eq_of_endOfFile {gs : List Glyph} {p : Piece} (h : Fits gs p)
    (hkind : p.kind = .endOfFile) : gs = [] ∧ p = ⟨[], .endOfFile, [], []⟩ := by
  cases h with
  | plain hquoted hend h =>
      obtain rfl := hend.mp hkind
      obtain rfl := List.prefix_nil.mp h
      obtain rfl : _ = TokenKind.endOfFile := hkind
      exact ⟨rfl, rfl⟩
  | quoted hquote hgs h => cases h <;> simp at hkind

theorem blockComment?_isPrefix {gs inside : List Glyph} (h : blockComment? gs = some inside) :
    inside <+: gs := by
  fun_induction blockComment? gs generalizing inside with
  | case1 r =>
      obtain rfl := Option.some.inj h
      exact ⟨r, rfl⟩
  | case2 g gs hg ih =>
      obtain ⟨rest, hrest, rfl⟩ := Option.map_eq_some_iff.mp h
      exact (List.prefix_cons_inj g).mpr (ih hrest)
  | case3 => simp at h

-- A comment ends where it did when the glyphs that end one stay as they are and no others become
-- them.
theorem lineComment_map {f : Glyph → Glyph} (hline : ∀ g, (f g).isLineEnd = g.isLineEnd)
    (gs : List Glyph) : lineComment (gs.map f) = (lineComment gs).map f := by
  have hcomp : (fun g => !g.isLineEnd) ∘ f = fun g => !g.isLineEnd :=
    funext fun g => congrArg not (hline g)
  rw [lineComment, List.takeWhile_map, hcomp, lineComment]

theorem blockComment?_map {f : Glyph → Glyph} (hstar : ∀ g, f g = .char '*' ↔ g = .char '*')
    (hslash : ∀ g, f g = .char '/' ↔ g = .char '/') (gs : List Glyph) :
    blockComment? (gs.map f) = (blockComment? gs).map (List.map f) := by
  fun_induction blockComment? gs with
  | case1 r => simp [blockComment?, (hstar _).mpr rfl, (hslash _).mpr rfl]
  | case2 g gs hg ih =>
      rw [List.map_cons, blockComment?, ih]
      · cases blockComment? gs <;> rfl
      · rintro r hfirst hsecond
        obtain ⟨g', r', rfl, hg', -⟩ := List.map_eq_cons_iff.mp hsecond
        exact hg r' ((hstar g).mp hfirst) (by rw [(hslash g').mp hg'])
  | case3 => rfl

theorem lineComment_isPrefix (gs : List Glyph) : lineComment gs <+: gs :=
  List.takeWhile_prefix _

theorem trivia_isPrefix (comments : Bool) (gs : List Glyph) : trivia comments gs <+: gs := by
  fun_induction trivia comments gs with
  | case1 r ih => exact (List.prefix_cons_inj _).mpr ih
  | case2 r hc ih =>
      exact (List.prefix_cons_inj _).mpr ((List.prefix_cons_inj _).mpr
        (append_isPrefix (lineComment_isPrefix r) ih))
  | case4 r hc inside hi ih =>
      exact (List.prefix_cons_inj _).mpr ((List.prefix_cons_inj _).mpr
        (append_isPrefix (blockComment?_isPrefix hi) ih))
  | _ => exact List.nil_prefix

theorem ofGlyphs_isPrefix (o : LexOptions) (gs : List Glyph) : (ofGlyphs o gs).glyphs <+: gs := by
  have h := append_isPrefix (trivia_isPrefix o.comments gs) (fits_atGlyph o _).glyphs_isPrefix
  simpa [ofGlyphs, glyphs] using h

end Piece

namespace Cursor

theorem pass_length (as bs : List Glyph) (offset : Nat) (pos : Position) :
    (⟨as ++ bs, offset, pos⟩ : Cursor).pass as.length =
      ⟨bs, offset + Glyph.size as, pos.after as⟩ := by
  simp [pass]

-- Taking up a piece of what is ahead passes its glyphs.
theorem take_eq (c : Cursor) {p : Piece} (hp : p.glyphs <+: c.rest) :
    c.take p = (⟨p.kind, c.pos.after p.skipped, c.offset + Glyph.size p.skipped,
      Glyph.text p.lexeme⟩,
      ⟨c.rest.drop p.glyphs.length, c.offset + Glyph.size p.glyphs, c.pos.after p.glyphs⟩) := by
  obtain ⟨gs, offset, pos⟩ := c
  obtain ⟨rest, hrest⟩ := hp
  have hgs : gs = p.skipped ++ (p.lexeme ++ (p.closing ++ rest)) := by
    rw [← show p.glyphs ++ rest = gs from hrest]
    simp [Piece.glyphs]
  rw [take]
  simp only [hgs, pass_length]
  simp [Piece.glyphs, Nat.add_assoc]

theorem read_eq (o : LexOptions) (c : Cursor) {p : Piece} (hp : Piece.ofGlyphs o c.rest = p) :
    c.read o = (⟨p.kind, c.pos.after p.skipped, c.offset + Glyph.size p.skipped,
      Glyph.text p.lexeme⟩,
      ⟨c.rest.drop p.glyphs.length, c.offset + Glyph.size p.glyphs, c.pos.after p.glyphs⟩) := by
  rw [read, hp]
  exact c.take_eq (hp ▸ Piece.ofGlyphs_isPrefix o c.rest)

-- Reading from a place in the trivia ahead is reading from before them.
theorem read_pass {o : LexOptions} {c : Cursor} {k : Nat} (hk : k ≤ c.rest.length)
    (h : Piece.trivia o.comments c.rest =
      c.rest.take k ++ Piece.trivia o.comments (c.rest.drop k)) :
    (c.pass k).read o = c.read o := by
  have hpiece : Piece.ofGlyphs o c.rest =
      { Piece.ofGlyphs o (c.rest.drop k) with
        skipped := c.rest.take k ++ (Piece.ofGlyphs o (c.rest.drop k)).skipped } := by
    simp [Piece.ofGlyphs, h, List.length_take_of_le hk, ← List.drop_drop]
  simp [read, take, hpiece, pass_pass, List.length_take_of_le hk, Nat.add_assoc]

theorem tokens_pass {o : LexOptions} {c : Cursor} {k : Nat} (hk : k ≤ c.rest.length)
    (h : Piece.trivia o.comments c.rest =
      c.rest.take k ++ Piece.trivia o.comments (c.rest.drop k)) :
    (c.pass k).tokens o = c.tokens o := by
  rw [tokens, read_pass hk h]
  conv =>
    rhs
    rw [tokens]

-- Where the text ends is the same from every place in it.
theorem end_read (o : LexOptions) (c : Cursor) :
    (c.read o).2.offset + Glyph.size (c.read o).2.rest = c.offset + Glyph.size c.rest := by
  have hglyphs := List.prefix_iff_eq_append.mp (Piece.ofGlyphs_isPrefix o c.rest)
  have hsize := congrArg Glyph.size hglyphs
  rw [Glyph.size_append] at hsize
  rw [read_eq o c rfl]
  simp only
  omega

end Cursor

end UnitCalc
