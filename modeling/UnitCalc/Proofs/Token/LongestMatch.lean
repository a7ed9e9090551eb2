import UnitCalc.Proofs.Token.Numeral
import UnitCalc.Proofs.Token.Positions

namespace UnitCalc

def Bracket.openingChar : Bracket → Char
  | .round => '('
  | .square => '['
  | .curly => '\x7b'

def Bracket.closingChar : Bracket → Char
  | .round => ')'
  | .square => ']'
  | .curly => '\x7d'

namespace TokenKind

-- The texts of each kind of token.
inductive HasText : TokenKind → List Char → Prop where
  | lineBreak (e : LineEnding) : HasText .lineBreak e.chars
  | tab : HasText .tab ['\t']
  | keyword (k : Keyword) : HasText (.keyword k) k.word.toList
  | identifier {c : Char} {cs : List Char} (hc : Piece.isIdentifierStart c = true)
      (hcs : ∀ d ∈ cs, Piece.isIdentifierPart d = true)
      (hword : ∀ k : Keyword, k.word.toList ≠ c :: cs) : HasText .identifier (c :: cs)
  | number {cs : List Char} (h : Number.Form cs) : HasText .number cs
  | operator (o : Operator) : HasText (.operator o) o.symbol.toList
  | opening (b : Bracket) : HasText (.opening b) [b.openingChar]
  | closing (b : Bracket) : HasText (.closing b) [b.closingChar]

-- The texts of each kind and, of the kind for what is in none of these classes, each other
-- character by itself.
def Matches (kind : TokenKind) (cs : List Char) : Prop :=
  HasText kind cs ∨ kind = .undefined ∧ ∃ c, cs = [c] ∧ ∀ k, ¬ HasText k [c]

end TokenKind

namespace Piece

open Number TokenKind

variable {kind : TokenKind} {c : Char} {cs : List Char} {r gs : List Glyph}

-- With no options on there are no literals and no comments.
theorem atGlyph_default (c : Char) (r : List Glyph) :
    atGlyph {} (.char c :: r) =
      if c = '\t' then ⟨[], .tab, [.char c], []⟩
      else if isIdentifierStart c then word (.char c :: r)
      else if startsNumber c r.head? then ⟨[], .number, number (.char c :: r), []⟩
      else ⟨[], (mark c r.head?).1, (.char c :: r).take (mark c r.head?).2, []⟩ := by
  simp [atGlyph]

theorem isQuoted_atGlyph_default (gs : List Glyph) : (atGlyph {} gs).kind.isQuoted = false := by
  match gs with
  | [] => rfl
  | .lineEnd e :: r => rfl
  | .char c :: r =>
      rw [atGlyph_default]
      split
      · rfl
      split
      · rcases kind_word (.char c :: r) with hk | ⟨k, hk⟩ <;> rw [hk] <;> rfl
      split
      · rfl
      · exact isQuoted_mark c r.head?

theorem glyphs_atGlyph_default (gs : List Glyph) :
    (atGlyph {} gs).glyphs = (atGlyph {} gs).lexeme := by
  obtain ⟨hskipped, hclosing⟩ :=
    (fits_atGlyph {} gs).of_not_isQuoted (isQuoted_atGlyph_default gs)
  rw [glyphs, hskipped, hclosing, List.nil_append, List.append_nil]

theorem lexeme_isPrefix_default (gs : List Glyph) : (atGlyph {} gs).lexeme <+: gs := by
  rw [← glyphs_atGlyph_default]
  exact (fits_atGlyph {} gs).glyphs_isPrefix

theorem lexeme_ne_nil_default (hgs : gs ≠ []) : (atGlyph {} gs).lexeme ≠ [] := by
  rw [← glyphs_atGlyph_default]
  exact glyphs_atGlyph_ne_nil {} hgs

theorem kind_word_eq (gs : List Glyph) :
    (word gs).kind = match Keyword.ofWord? (Glyph.text (word gs).lexeme) with
      | some k => .keyword k
      | none => .identifier := rfl

theorem hasText_word (hc : isIdentifierStart c = true) :
    HasText (word (.char c :: r)).kind ((word (.char c :: r)).lexeme.flatMap Glyph.chars) := by
  have hlexeme : (word (.char c :: r)).lexeme =
      .char c :: r.takeWhile (Glyph.is isIdentifierPart) := by
    have hpart : (Glyph.char c).is isIdentifierPart = true :=
      isIdentifierPart_of_isIdentifierStart hc
    exact List.takeWhile_cons_of_pos hpart
  have hparts : ∀ d ∈ (r.takeWhile (Glyph.is isIdentifierPart)).flatMap Glyph.chars,
      isIdentifierPart d = true := by
    intro d hd
    obtain ⟨g, hg, hdg⟩ := List.mem_flatMap.mp hd
    have hpart : g.is isIdentifierPart = true := List.all_eq_true.mp List.all_takeWhile g hg
    cases g with
    | lineEnd e => cases hpart
    | char d' =>
        obtain rfl : d = d' := by simpa [Glyph.chars] using hdg
        exact hpart
  cases hword : Keyword.ofWord? (Glyph.text (word (.char c :: r)).lexeme) with
  | some k =>
      have htext := congrArg String.toList (Keyword.word_of_ofWord? hword)
      rw [Glyph.text, String.toList_ofList] at htext
      rw [kind_word_eq, hword, ← htext]
      exact .keyword k
  | none =>
      rw [kind_word_eq, hword, hlexeme]
      refine .identifier hc hparts fun k hk => ?_
      have htext : k.word = Glyph.text (word (.char c :: r)).lexeme := by
        rw [hlexeme, Glyph.text, List.flatMap_cons, ← String.ofList_toList (s := k.word), hk]
        rfl
      rw [← htext, Keyword.ofWord?_word] at hword
      cases hword

theorem mark_none_of_undefined {next : Option Glyph} (h : (mark c next).1 = .undefined) :
    (mark c none).1 = .undefined := by
  unfold mark at h ⊢
  split at h
  all_goals first
    | rfl
    | cases h
    | (dsimp only at h; split at h <;> cases h)

theorem hasText_mark (c : Char) (r : List Glyph) :
    (mark c r.head?).1 = .undefined ∧ (mark c r.head?).2 = 1 ∨
    HasText (mark c r.head?).1
      (((Glyph.char c :: r).take (mark c r.head?).2).flatMap Glyph.chars) := by
  have hpair {d : Char} {k k' : TokenKind} (hk : HasText k [c, d])
      (hk' : k' = .undefined ∨ HasText k' [c]) :
      (if r.head? = some (.char d) then (k, 2) else (k', 1)).1 = .undefined ∧
        (if r.head? = some (.char d) then (k, 2) else (k', 1)).2 = 1 ∨
      HasText (if r.head? = some (.char d) then (k, 2) else (k', 1)).1
        (((Glyph.char c :: r).take
          (if r.head? = some (.char d) then (k, 2) else (k', 1)).2).flatMap Glyph.chars) := by
    split
    · rename_i hnext
      obtain ⟨r, rfl⟩ := List.head?_eq_some_iff.mp hnext
      exact .inr hk
    · exact hk'.imp_left fun hk' => ⟨hk', rfl⟩
  unfold mark
  split
  all_goals first
    | exact .inr (.opening _)
    | exact .inr (.closing _)
    | exact .inr (.operator _)
    | exact hpair (.operator _) (.inr (.operator _))
    | exact hpair (.operator _) (.inl rfl)
    | exact .inl ⟨rfl, rfl⟩

-- A number or a first part of one is a run of characters.
theorem ofChars_append_of_form (h : Form cs) (ds : List Char) :
    Glyph.ofChars (cs ++ ds) = cs.map .char ++ Glyph.ofChars ds := by
  apply Glyph.ofChars_append
  intro c hc
  have hmarks : ∀ d ∈ ['.', 'e', 'E', '+', '-'], d ≠ '\r' ∧ d ≠ '\n' := by simp
  rcases h.isDigit_or_mem c hc with hdigit | hmark
  · constructor <;> (rintro rfl; cases hdigit)
  · exact hmarks c hmark

-- A point starts a number only with a digit after it.
theorem exists_isDigit_of_form_point (h : Form ('.' :: cs)) :
    ∃ d ds, cs = d :: ds ∧ d.isDigit = true := by
  have hfirst {ws : List Char} (hws : AllDigits ('.' :: ws)) : False :=
    absurd (hws '.' List.mem_cons_self) (by decide)
  generalize hall : '.' :: cs = all at h
  cases h with
  | @whole ws es hws hdigits hes =>
      obtain ⟨w, ws, rfl⟩ := List.exists_cons_of_ne_nil hws
      obtain ⟨rfl, -⟩ := List.cons.inj hall
      exact absurd hdigits hfirst
  | @point ws fs es hne hws hfs hes =>
      cases ws with
      | nil =>
          obtain ⟨f, fs, rfl⟩ := List.exists_cons_of_ne_nil (hne.resolve_left (· rfl))
          exact ⟨f, fs ++ es, (List.cons.inj hall).2, hfs f List.mem_cons_self⟩
      | cons w ws =>
          obtain ⟨rfl, -⟩ := List.cons.inj hall
          exact absurd hws hfirst

theorem atGlyph_of_form (h : Form cs) (ds : List Char) :
    atGlyph {} (Glyph.ofChars (cs ++ ds)) =
      ⟨[], .number, number (cs.map .char ++ Glyph.ofChars ds), []⟩ := by
  rw [ofChars_append_of_form h]
  obtain ⟨c, cs, rfl, hc⟩ := h.exists_eq_cons
  have htab : c ≠ '\t' := by
    rcases hc with hc | rfl
    · rintro rfl
      cases hc
    · decide
  have hword : isIdentifierStart c = false := by
    rcases hc with hc | rfl
    · exact isIdentifierStart_of_isDigit hc
    · rfl
  have hstarts : startsNumber c (cs.map Glyph.char ++ Glyph.ofChars ds).head? = true := by
    rcases hc with hc | rfl
    · simp [startsNumber, hc]
    · obtain ⟨d, ds', rfl, hd⟩ := exists_isDigit_of_form_point h
      exact hd
  rw [List.map_cons, List.cons_append, atGlyph_default, if_neg htab, hword, hstarts]
  rfl

-- An identifier or a keyword, or a first part of one.
theorem atGlyph_of_word (hc : isIdentifierStart c = true)
    (hcs : ∀ d ∈ cs, isIdentifierPart d = true) (ds : List Char) :
    atGlyph {} (Glyph.ofChars (c :: cs ++ ds)) = word ((c :: cs).map .char ++ Glyph.ofChars ds) ∧
      (word ((c :: cs).map .char ++ Glyph.ofChars ds)).lexeme =
        (c :: cs).map .char ++ (Glyph.ofChars ds).takeWhile (Glyph.is isIdentifierPart) := by
  have hall : ∀ d ∈ c :: cs, isIdentifierPart d = true :=
    List.forall_mem_cons.mpr ⟨isIdentifierPart_of_isIdentifierStart hc, hcs⟩
  have hchars : ∀ d ∈ c :: cs, d ≠ '\r' ∧ d ≠ '\n' := by
    intro d hd
    have hpart := hall d hd
    constructor <;> (rintro rfl; cases hpart)
  constructor
  · rw [Glyph.ofChars_append hchars, List.map_cons, List.cons_append,
      atGlyph_of_isIdentifierStart {} hc]
  · apply List.takeWhile_append_of_pos
    intro g hg
    obtain ⟨d, hd, rfl⟩ := List.mem_map.mp hg
    exact hall d hd

theorem kind_atGlyph_of_hasText (h : HasText kind cs) :
    (atGlyph {} (Glyph.ofChars cs)).kind = kind := by
  cases h with
  | lineBreak e => cases e <;> rfl
  | tab => rfl
  | keyword k => cases k <;> rfl
  | @identifier c cs hc hcs hword =>
      obtain ⟨hread, hlexeme⟩ := atGlyph_of_word hc hcs []
      have hnone : Keyword.ofWord? (Glyph.text ((c :: cs).map .char)) = none := by
        rw [Glyph.text_map_char]
        cases hk : Keyword.ofWord? (String.ofList (c :: cs)) with
        | none => rfl
        | some k =>
            have htext := congrArg String.toList (Keyword.word_of_ofWord? hk)
            rw [String.toList_ofList] at htext
            exact absurd htext (hword k)
      simp only [List.append_nil, Glyph.ofChars, List.takeWhile_nil] at hread hlexeme
      rw [hread, kind_word_eq, hlexeme, hnone]
  | number h =>
      have hread := atGlyph_of_form h []
      rw [List.append_nil] at hread
      rw [hread]
  | operator o => cases o <;> rfl
  | opening b => cases b <;> rfl
  | closing b => cases b <;> rfl

theorem length_le_of_isPrefix (h : cs.map .char <+: gs) :
    cs.length ≤ (gs.flatMap Glyph.chars).length := by
  obtain ⟨r, rfl⟩ := h
  rw [List.flatMap_append, Glyph.flatMap_chars_map_char, List.length_append]
  exact Nat.le_add_right _ _

theorem ofChars_ne_nil (hcs : cs ≠ []) : Glyph.ofChars cs ≠ [] := by
  intro hnil
  apply hcs
  rw [← Glyph.flatMap_chars_ofChars cs, hnil]
  rfl

theorem lexeme_chars_ne_nil (hcs : cs ≠ []) :
    (atGlyph {} (Glyph.ofChars cs)).lexeme.flatMap Glyph.chars ≠ [] :=
  flatMap_chars_ne_nil (lexeme_ne_nil_default (ofChars_ne_nil hcs))

theorem exists_word_of_keyword (k : Keyword) :
    ∃ c cs, k.word.toList = c :: cs ∧ isIdentifierStart c = true ∧
      ∀ d ∈ cs, isIdentifierPart d = true := by
  cases k <;> exact ⟨_, _, rfl, rfl, List.all_eq_true.mp rfl⟩

-- Read from a text that starts with one of the texts, the token has at least that.
theorem length_le_of_hasText (h : HasText kind cs) (ds : List Char) :
    cs.length ≤ ((atGlyph {} (Glyph.ofChars (cs ++ ds))).lexeme.flatMap Glyph.chars).length := by
  have hone (c : Char) :
      1 ≤ ((atGlyph {} (Glyph.ofChars (c :: ds))).lexeme.flatMap Glyph.chars).length :=
    List.length_pos_iff.mpr (lexeme_chars_ne_nil (List.cons_ne_nil c ds))
  have hword {c : Char} {cs : List Char} (hc : isIdentifierStart c = true)
      (hcs : ∀ d ∈ cs, isIdentifierPart d = true) : (c :: cs).length ≤
        ((atGlyph {} (Glyph.ofChars (c :: cs ++ ds))).lexeme.flatMap Glyph.chars).length := by
    obtain ⟨hread, hlexeme⟩ := atGlyph_of_word hc hcs ds
    rw [hread, hlexeme]
    exact length_le_of_isPrefix (List.prefix_append _ _)
  cases h with
  | lineBreak e =>
      cases e with
      | crlf | lfcr => exact Nat.le_refl 2
      | lf | cr => exact hone _
  | tab => exact hone _
  | keyword k =>
      obtain ⟨c, cs, hk, hc, hcs⟩ := exists_word_of_keyword k
      rw [hk]
      exact hword hc hcs
  | identifier hc hcs hno => exact hword hc hcs
  | number h =>
      rw [atGlyph_of_form h]
      exact length_le_of_isPrefix (isPrefix_number_of_form h _)
  | operator o =>
      cases o with
      | equal | notEqual | lessEqual | greaterEqual | both | either => exact Nat.le_refl 2
      | _ => exact hone _
  | opening b => exact hone _
  | closing b => exact hone _

theorem matches_atGlyph (hproper : ∀ g ∈ gs, g.Proper) (hgs : gs ≠ []) :
    Matches (atGlyph {} gs).kind ((atGlyph {} gs).lexeme.flatMap Glyph.chars) := by
  match gs with
  | [] => exact absurd rfl hgs
  | .lineEnd e :: r =>
      have hchars : [Glyph.lineEnd e].flatMap Glyph.chars = e.chars := List.append_nil _
      rw [atGlyph, hchars]
      exact .inl (.lineBreak e)
  | .char c :: r =>
      have hc : c ≠ '\r' ∧ c ≠ '\n' := hproper _ List.mem_cons_self
      rw [atGlyph_default]
      split
      · rename_i htab
        subst htab
        exact .inl .tab
      split
      · rename_i hword
        exact .inl (hasText_word hword)
      split
      · rename_i hnumber
        exact .inl (.number (form_number hnumber))
      rename_i htab hword hnumber
      rcases hasText_mark c r with ⟨hkind, hlength⟩ | htext
      · have halone : (atGlyph {} (Glyph.ofChars [c])).kind = .undefined := by
          have hdigit : ¬ startsNumber c none = true := by
            simp only [startsNumber, Bool.or_eq_true, not_or] at hnumber ⊢
            exact ⟨hnumber.1, by simp⟩
          rw [Glyph.ofChars_cons hc, Glyph.ofChars, atGlyph_default, if_neg htab, if_neg hword,
            List.head?_nil, if_neg hdigit]
          exact mark_none_of_undefined hkind
        refine .inr ⟨hkind, c, by rw [hlength]; rfl, ?_⟩
        intro k hk
        obtain rfl := (kind_atGlyph_of_hasText hk).symm.trans halone
        cases hk
      · exact .inl htext

theorem isPrefix_chars_default (cs : List Char) :
    (atGlyph {} (Glyph.ofChars cs)).lexeme.flatMap Glyph.chars <+: cs := by
  obtain ⟨r, hr⟩ := lexeme_isPrefix_default (Glyph.ofChars cs)
  refine ⟨r.flatMap Glyph.chars, ?_⟩
  rw [← List.flatMap_append, hr, Glyph.flatMap_chars_ofChars]

-- A text of a kind, read by itself, is a token of that kind.
theorem kind_atGlyph_of_matches (h : Matches kind cs) :
    (atGlyph {} (Glyph.ofChars cs)).kind = kind := by
  rcases h with h | ⟨rfl, c, rfl, hno⟩
  · exact kind_atGlyph_of_hasText h
  · have hsome := lexeme_chars_ne_nil (List.cons_ne_nil c [])
    have hprefix := isPrefix_chars_default [c]
    have hmatches := matches_atGlyph (Glyph.proper_ofChars [c])
      (ofChars_ne_nil (List.cons_ne_nil c []))
    obtain ⟨d, ds, hchars⟩ := List.exists_cons_of_ne_nil hsome
    rw [hchars] at hprefix hmatches
    obtain ⟨rfl, hnil⟩ := List.cons_prefix_cons.mp hprefix
    obtain rfl := List.prefix_nil.mp hnil
    rcases hmatches with htext | ⟨hkind, -⟩
    · exact absurd htext (hno _)
    · exact hkind

theorem length_le_of_matches (h : Matches kind cs) (ds : List Char) :
    cs.length ≤ ((atGlyph {} (Glyph.ofChars (cs ++ ds))).lexeme.flatMap Glyph.chars).length := by
  rcases h with h | ⟨-, c, rfl, -⟩
  · exact length_le_of_hasText h ds
  · exact List.length_pos_iff.mpr (lexeme_chars_ne_nil (List.cons_ne_nil c ds))

-- The piece at a place is the longest first part of the text ahead that is a token, and it is one
-- of its kind alone.
theorem longest_atGlyph (hcs : cs ≠ []) :
    ∃ text, (atGlyph {} (Glyph.ofChars cs)).lexeme.flatMap Glyph.chars = text ∧ text <+: cs ∧
      (∀ kind, Matches kind text ↔ kind = (atGlyph {} (Glyph.ofChars cs)).kind) ∧
      ∀ kind text', text' <+: cs → Matches kind text' → text'.length ≤ text.length := by
  have hmatches := matches_atGlyph (Glyph.proper_ofChars cs) (ofChars_ne_nil hcs)
  refine ⟨_, rfl, isPrefix_chars_default cs, ?_, ?_⟩
  · intro kind
    constructor
    · intro h
      rw [← kind_atGlyph_of_matches h, kind_atGlyph_of_matches hmatches]
    · rintro rfl
      exact hmatches
  · rintro kind text' ⟨ds, rfl⟩ h
    exact length_le_of_matches h ds

-- Only spaces are skipped.
theorem trivia_default (gs : List Glyph) :
    trivia false gs = gs.takeWhile (Glyph.is (· == ' ')) := by
  induction gs with
  | nil => simp [trivia]
  | cons g gs ih =>
      by_cases hspace : g = .char ' '
      · subst hspace
        rw [trivia, ih]
        rfl
      · have hstop : g.is (· == ' ') = false := by
          cases g with
          | char c => simpa [Glyph.is] using hspace
          | lineEnd e => rfl
        rw [List.takeWhile_cons_of_neg (by simp [hstop])]
        unfold trivia
        split
        · rename_i heq
          exact absurd (List.cons.inj heq).1 hspace
        · rfl
        · rfl
        · rfl

end Piece

namespace Cursor

variable {source : String} {c : Cursor}

theorem StopsIn.exists_eq_append (h : c.StopsIn source) :
    ∃ before, source.toList = before ++ c.rest.flatMap Glyph.chars ∧
      c.offset = Text.byteSize before ∧ c.rest = Glyph.ofChars (c.rest.flatMap Glyph.chars) := by
  obtain ⟨m, rfl⟩ := h
  refine ⟨((Glyph.ofString source).take m).flatMap Glyph.chars, ?_, ?_, ?_⟩
  · have hall : (ofText source).rest.flatMap Glyph.chars = source.toList :=
      Glyph.flatMap_chars_ofChars source.toList
    rw [rest_pass, ← List.flatMap_append, ← hall]
    exact congrArg _ (List.take_append_drop m _).symm
  · rw [Glyph.byteSize_flatMap_chars]
    exact Nat.zero_add _
  · exact Glyph.drop_ofChars source.toList m

-- With no options on, a read skips spaces and takes up the piece after them.
theorem read_default {blanks gs : List Glyph}
    (hblanks : ∀ g ∈ blanks, g.is (· == ' ') = true)
    (hgs : ∀ g ∈ gs.head?, g.is (· == ' ') = false) (hc : c.rest = blanks ++ gs) :
    (c.read {}).1.kind = (Piece.atGlyph {} gs).kind ∧
      (c.read {}).1.start = c.offset + Glyph.size blanks ∧
      (c.read {}).1.text = Glyph.text (Piece.atGlyph {} gs).lexeme ∧
      (c.read {}).2.offset =
        c.offset + Glyph.size blanks + Glyph.size (Piece.atGlyph {} gs).lexeme := by
  have htrivia : Piece.trivia false c.rest = blanks := by
    rw [Piece.trivia_default, hc, takeWhile_append_of_head? hblanks hgs]
  have hdrop : c.rest.drop blanks.length = gs := by
    rw [hc, List.drop_left]
  obtain ⟨hskipped, hclosing⟩ := (Piece.fits_atGlyph {} gs).of_not_isQuoted
    (Piece.isQuoted_atGlyph_default gs)
  have hpiece : Piece.ofGlyphs {} c.rest = { Piece.atGlyph {} gs with skipped := blanks } := by
    simp only [Piece.ofGlyphs, htrivia, hdrop, hskipped, List.append_nil]
  rw [read_eq {} c hpiece]
  refine ⟨rfl, rfl, rfl, ?_⟩
  simp only [Piece.glyphs, hclosing, List.append_nil, Glyph.size_append, Nat.add_assoc]

-- The spaces ahead and what comes after them.
theorem exists_blanks (gs : List Glyph) :
    ∃ blanks rest : List Glyph, gs = blanks ++ rest ∧
      (∀ g ∈ blanks, g.is (· == ' ') = true) ∧ ∀ g ∈ rest.head?, g.is (· == ' ') = false := by
  refine ⟨gs.takeWhile (Glyph.is (· == ' ')), gs.dropWhile (Glyph.is (· == ' ')),
    List.takeWhile_append_dropWhile.symm, ?_, ?_⟩
  · exact fun g hg => List.all_eq_true.mp List.all_takeWhile g hg
  · intro g hg
    have hhead := List.head?_dropWhile_not (Glyph.is (· == ' ')) gs
    rw [Option.mem_def.mp hg] at hhead
    simpa using hhead

end Cursor

namespace Reader

-- The next token of a reader starts at `start`, is the longest first part of the text there that is
-- one, and has the one kind it can have. The reader goes on right after it.
structure ReadsLongest (r : Reader) (start : Nat) (rest : List Char) : Prop where
  start_eq : r.read.1.start = start
  isPrefix : r.read.1.text.toList <+: rest
  matches_iff (kind : TokenKind) : kind.Matches r.read.1.text.toList ↔ kind = r.read.1.kind
  longest (kind : TokenKind) (text : List Char) : text <+: rest → kind.Matches text →
    text.length ≤ r.read.1.text.toList.length
  offset_eq : r.read.2.cursor.offset = start + r.read.1.text.utf8ByteSize

theorem readsLongest_of_blanks (source : String) {c : Cursor} {blanks gs : List Glyph}
    (hblanks : ∀ g ∈ blanks, g.is (· == ' ') = true)
    (hhead : ∀ g ∈ gs.head?, g.is (· == ' ') = false) (hsplit : c.rest = blanks ++ gs)
    (hgs : gs = Glyph.ofChars (gs.flatMap Glyph.chars)) (hne : gs.flatMap Glyph.chars ≠ []) :
    ReadsLongest ⟨source, {}, c⟩ (c.offset + Glyph.size blanks) (gs.flatMap Glyph.chars) := by
  obtain ⟨hkind, hstart, htext, hnext⟩ := Cursor.read_default hblanks hhead hsplit
  obtain ⟨text, hlexeme, hprefix, hmatches, hlongest⟩ := Piece.longest_atGlyph hne
  rw [← hgs] at hlexeme hmatches
  have hchars : (c.read {}).1.text.toList = text := by
    rw [htext, Glyph.text, String.toList_ofList, hlexeme]
  rw [← hchars] at hprefix hmatches hlongest
  rw [← hkind] at hmatches
  rw [← Glyph.utf8ByteSize_text (Piece.atGlyph {} gs).lexeme, ← htext] at hnext
  exact ⟨hstart, hprefix, hmatches, hlongest, hnext⟩

-- Wherever reads from the start have taken a reader, it skips spaces, and then it reads the longest
-- token there is.
theorem read_longest (source : String) (n : Nat) :
    ∃ before blanks rest, source.toList = before ++ (blanks ++ rest) ∧
      ((ofText {} source).after n).cursor.offset = Text.byteSize before ∧
      (∀ c ∈ blanks, c = ' ') ∧ rest.head? ≠ some ' ' ∧
      (rest = [] → ((ofText {} source).after n).read.1.kind = .endOfFile) ∧
      (rest ≠ [] → ((ofText {} source).after n).ReadsLongest
        (Text.byteSize (before ++ blanks)) rest) := by
  obtain ⟨c, hr, hc⟩ := exists_after_eq (Cursor.stopsIn_ofText source) n
  obtain ⟨before, hsource, hoffset, hrest⟩ := hc.exists_eq_append
  obtain ⟨blanks, gs, hsplit, hblanks, hhead⟩ := Cursor.exists_blanks c.rest
  have hgs : gs = Glyph.ofChars (gs.flatMap Glyph.chars) := by
    have hdrop := Glyph.drop_ofChars (c.rest.flatMap Glyph.chars) blanks.length
    rwa [← hrest, hsplit, List.drop_left] at hdrop
  have hfirst : (ofText {} source).after n = ⟨source, {}, c⟩ := hr
  rw [hfirst]
  refine ⟨before, blanks.flatMap Glyph.chars, gs.flatMap Glyph.chars, ?_, hoffset, ?_, ?_, ?_, ?_⟩
  · rw [← List.flatMap_append, ← hsplit]
    exact hsource
  · intro d hd
    obtain ⟨g, hg, hdg⟩ := List.mem_flatMap.mp hd
    have hspace := hblanks g hg
    cases g with
    | char d' =>
        obtain rfl : d = d' := by simpa [Glyph.chars] using hdg
        exact eq_of_beq hspace
    | lineEnd e => cases hspace
  · intro hspace
    obtain ⟨rest, hrest⟩ := List.head?_eq_some_iff.mp hspace
    rw [hrest, Glyph.ofChars_cons (by decide)] at hgs
    have hno := hhead _ (by rw [hgs]; rfl)
    cases hno
  · intro hnil
    rw [hnil] at hgs
    exact (Cursor.read_default hblanks hhead hsplit).1.trans (by rw [hgs]; rfl)
  · intro hne
    rw [Text.byteSize_append, ← hoffset, Glyph.byteSize_flatMap_chars]
    exact readsLongest_of_blanks source hblanks hhead hsplit hgs hne

end Reader

end UnitCalc
