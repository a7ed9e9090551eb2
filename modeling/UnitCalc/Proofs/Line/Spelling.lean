import UnitCalc.Proofs.Line.NameTokens
import UnitCalc.Proofs.Number.Integer
import UnitCalc.Proofs.Token.Seam
import UnitCalc.Units.Expr

namespace UnitCalc

-- The kind and the text of a token.
structure Lexeme where
  kind : TokenKind
  chars : List Char
  deriving DecidableEq, Repr

def Token.Spells (t : Token) (l : Lexeme) : Prop :=
  t.kind = l.kind ∧ t.text = String.ofList l.chars

theorem Cursor.exists_tokens_of_rest_nil (o : LexOptions) {c : Cursor} (h : c.rest = []) :
    ∃ e, c.tokens o = [e] ∧ e.kind = .endOfFile := by
  have hpiece : Piece.ofGlyphs o c.rest = ⟨[], .endOfFile, [], []⟩ := by
    rw [h]
    simp [Piece.ofGlyphs, Piece.trivia, Piece.atGlyph]
  have hend : (c.read o).1.kind = .endOfFile := by rw [c.read_eq o hpiece]
  exact ⟨(c.read o).1, by rw [Cursor.tokens, if_pos hend], hend⟩

namespace Lexeme

open Piece

variable {o : LexOptions} {gs : List Glyph}

def glyphs (l : Lexeme) : List Glyph :=
  l.chars.map .char

-- A part of a name.
def part (p : List Char) : Lexeme :=
  ⟨if p.all isIdentifierPart then .identifier else .undefined, p⟩

def numeral (n : Nat) : Lexeme := ⟨.number, Nat.toDigits 10 n⟩

def opening : Lexeme := ⟨.opening .round, ['(']⟩

def closing : Lexeme := ⟨.closing .round, [')']⟩

def times : Lexeme := ⟨.operator .times, ['*']⟩

def slash : Lexeme := ⟨.operator .divide, ['/']⟩

def caret : Lexeme := ⟨.operator .power, ['^']⟩

def minus : Lexeme := ⟨.operator .minus, ['-']⟩

-- A lexeme is read as a token before some glyphs.
structure ReadBefore (o : LexOptions) (gs : List Glyph) (l : Lexeme) : Prop where
  piece : ofGlyphs o (l.glyphs ++ gs) = ⟨[], l.kind, l.glyphs, []⟩
  kind : l.kind ≠ .endOfFile

-- Each lexeme of a row is read as a token before the rest.
def Readable (o : LexOptions) : List Lexeme → Prop
  | [] => True
  | l :: ls => l.ReadBefore o (ls.flatMap glyphs) ∧ Readable o ls

-- Each lexeme of a row is read as a token before the rest of the row and what comes after it.
def ReadableBefore (o : LexOptions) (gs : List Glyph) : List Lexeme → Prop
  | [] => True
  | l :: ls => l.ReadBefore o (ls.flatMap glyphs ++ gs) ∧ ReadableBefore o gs ls

theorem Readable.readableBefore_nil {ls : List Lexeme} (h : Readable o ls) :
    ReadableBefore o [] ls := by
  induction ls with
  | nil => trivial
  | cons l ls ih => exact ⟨(List.append_nil _).symm ▸ h.1, ih h.2⟩

-- The tokens that spell a row of lexemes, from one cursor to another.
structure RowTokens (o : LexOptions) (c d : Cursor) (ls : List Lexeme) (ts : List Token) :
    Prop where
  tokens : c.tokens o = ts ++ d.tokens o
  spells : List.Forall₂ Token.Spells ts ls
  adjoin : Adjoin ts
  start : ∀ t ∈ ts.head?, t.start = c.offset
  stop : ∀ t ∈ ts, t.start + t.text.utf8ByteSize ≤ d.offset
  offset_le : c.offset ≤ d.offset

theorem exists_rowTokens {ls : List Lexeme} (h : ReadableBefore o gs ls) (c : Cursor)
    (hrest : c.rest = ls.flatMap glyphs ++ gs) :
    ∃ ts d, RowTokens o c d ls ts ∧ d.rest = gs := by
  induction ls generalizing c with
  | nil =>
      exact ⟨[], c, ⟨rfl, .nil, List.isChain_nil, nofun, nofun, Nat.le_refl _⟩, hrest⟩
  | cons l ls ih =>
      obtain ⟨hl, hls⟩ := h
      rw [List.flatMap_cons, List.append_assoc] at hrest
      have hread := c.read_eq o (hrest ▸ hl.piece)
      have hrest' : (c.read o).2.rest = ls.flatMap glyphs ++ gs := by
        rw [hread, hrest]
        simp [Piece.glyphs]
      have hspells : (c.read o).1.Spells l := by
        rw [hread]
        exact ⟨rfl, Glyph.text_map_char l.chars⟩
      have hstart : (c.read o).1.start = c.offset := by
        rw [hread]
        simp
      have hstop : (c.read o).1.start + (c.read o).1.text.utf8ByteSize = (c.read o).2.offset := by
        rw [hread, Glyph.utf8ByteSize_text]
        simp [Piece.glyphs]
      obtain ⟨ts, d, hrow, hd⟩ := ih hls (c.read o).2 hrest'
      have hle := hrow.offset_le
      refine ⟨(c.read o).1 :: ts, d, ⟨?_, .cons hspells hrow.spells, ?_, ?_, ?_, by omega⟩, hd⟩
      · rw [Cursor.tokens, if_neg (hspells.1 ▸ hl.kind), hrow.tokens, List.cons_append]
      · exact List.isChain_cons.mpr
          ⟨fun t ht => (hrow.start t ht).trans hstop.symm, hrow.adjoin⟩
      · intro t ht
        obtain rfl := Option.some.inj ht
        exact hstart
      · exact List.forall_mem_cons.mpr ⟨hstop ▸ hle, hrow.stop⟩

theorem exists_tokens_of_readable {ls : List Lexeme} (h : Readable o ls) (c : Cursor)
    (hrest : c.rest = ls.flatMap glyphs) :
    ∃ ts e, c.tokens o = ts ++ [e] ∧ e.kind = .endOfFile ∧ List.Forall₂ Token.Spells ts ls ∧
      Adjoin ts ∧ ∀ t ∈ ts.head?, t.start = c.offset := by
  obtain ⟨ts, d, hrow, hd⟩ :=
    exists_rowTokens h.readableBefore_nil c (hrest.trans (List.append_nil _).symm)
  obtain ⟨e, htokens, he⟩ := Cursor.exists_tokens_of_rest_nil o hd
  exact ⟨ts, e, by rw [hrow.tokens, htokens], he, hrow.spells, hrow.adjoin, hrow.start⟩

theorem trivia_of_ne {comments : Bool} {c : Char} (hspace : c ≠ ' ') (hslash : c ≠ '/')
    (gs : List Glyph) : trivia comments (.char c :: gs) = [] := by
  rw [trivia]
  · rintro r heq
    cases heq
    exact hspace rfl
  · rintro r heq
    cases heq
    exact hslash rfl
  · rintro r heq
    cases heq
    exact hslash rfl

theorem ofGlyphs_of_ne {c : Char} (hspace : c ≠ ' ') (hslash : c ≠ '/') (gs : List Glyph) :
    ofGlyphs o (.char c :: gs) = atGlyph o (.char c :: gs) := by
  simp [ofGlyphs, trivia_of_ne hspace hslash]

-- A mark that is a token whatever comes after it.
structure IsLone (c : Char) (kind : TokenKind) : Prop where
  space : c ≠ ' '
  slash : c ≠ '/'
  tab : c ≠ '\t'
  quote : isQuote c = false
  word : isIdentifierStart c = false
  number : ∀ next, startsNumber c next = false
  mark : ∀ next, mark c next = (kind, 1)

theorem readBefore_of_isLone {c : Char} {kind : TokenKind} (h : IsLone c kind)
    (hend : kind ≠ .endOfFile) : ReadBefore o gs ⟨kind, [c]⟩ where
  piece := by
    rw [glyphs, List.map_singleton, List.singleton_append, ofGlyphs_of_ne h.space h.slash]
    simp [atGlyph, h.slash, h.tab, h.quote, h.word, h.number, h.mark]
  kind := hend

theorem readBefore_of_mem {l : Lexeme} (h : l ∈ [opening, closing, times, caret, minus]) :
    ReadBefore o gs l := by
  simp only [List.mem_cons, List.not_mem_nil, or_false] at h
  rcases h with rfl | rfl | rfl | rfl | rfl
  all_goals
    exact readBefore_of_isLone ⟨by decide, by decide, by decide, by decide, by decide,
      fun _ => rfl, fun _ => rfl⟩ nofun

-- A slash does not divide where it opens a comment.
theorem readBefore_slash (hline : gs.head? ≠ some (.char '/'))
    (hblock : gs.head? ≠ some (.char '*')) : ReadBefore o gs slash where
  piece := by
    have htrivia : trivia o.comments (.char '/' :: gs) = [] := by
      rw [trivia]
      · rintro r ⟨⟩
      · rintro r heq
        cases heq
        exact hline rfl
      · rintro r heq
        cases heq
        exact hblock rfl
    simp [glyphs, slash, ofGlyphs, htrivia, atGlyph, hblock, isQuote, isIdentifierStart,
      startsNumber, mark]
  kind := by decide

-- What can come after a unit or a part of one.
def Delimited (gs : List Glyph) : Prop :=
  ∀ g ∈ gs.head?, g = .char '*' ∨ g = .char '/' ∨ g = .char '^' ∨ g = .char ')'

theorem Delimited.is_eq_false (h : Delimited gs) {p : Char → Bool} (hp : p '*' = false)
    (hs : p '/' = false) (hc : p '^' = false) (hb : p ')' = false) :
    ∀ g ∈ gs.head?, g.is p = false := by
  intro g hg
  rcases h g hg with rfl | rfl | rfl | rfl <;> assumption

theorem exponent_of_ne (h : ∀ g ∈ gs.head?, g.is (fun c => c == 'e' || c == 'E') = false) :
    exponent gs = [] := by
  unfold exponent
  split
  · rename_i e s r
    have he := h _ rfl
    simp only [Glyph.is] at he
    simp [he]
  · rfl

-- A numeral is a number unless it goes on with a digit, a point or an exponent.
theorem readBefore_numeral (n : Nat) (hdigit : ∀ g ∈ gs.head?, g.is Char.isDigit = false)
    (hpoint : ∀ g ∈ gs.head?, g ≠ .char '.')
    (hexponent : ∀ g ∈ gs.head?, g.is (fun c => c == 'e' || c == 'E') = false) :
    ReadBefore o gs (numeral n) where
  piece := by
    have hne : (numeral n).glyphs ≠ [] := by simp [glyphs, numeral, Nat.toDigits_ne_nil]
    have hall : ∀ g ∈ (numeral n).glyphs, g.is Char.isDigit = true := by
      intro g hg
      obtain ⟨c, hc, rfl⟩ := List.mem_map.mp hg
      exact Nat.isDigit_of_mem_toDigits (by decide) (by decide) hc
    have hnumber : number ((numeral n).glyphs ++ gs) = (numeral n).glyphs := by
      rw [number, mantissa_of_digits hne hall hdigit hpoint, List.drop_left,
        exponent_of_ne hexponent, List.append_nil]
    obtain ⟨c, cs, hcs⟩ := List.exists_cons_of_ne_nil (Nat.toDigits_ne_nil (b := 10) (n := n))
    have hglyphs : (numeral n).glyphs = .char c :: cs.map .char := by
      rw [glyphs, numeral, hcs, List.map_cons]
    have hc : c.isDigit = true := hall (.char c) (by rw [hglyphs]; exact List.mem_cons_self)
    have hne : ∀ d : Char, d.isDigit = false → c ≠ d := by
      rintro d hd rfl
      rw [hc] at hd
      cases hd
    rw [hglyphs] at hnumber ⊢
    rw [List.cons_append] at hnumber ⊢
    rw [ofGlyphs_of_ne (hne ' ' rfl) (hne '/' rfl)]
    simp [atGlyph, isQuote, hne '/' rfl, hne '\t' rfl, hne '"' rfl, hne '\'' rfl,
      isIdentifierStart_of_isDigit hc, startsNumber, hc, hnumber, numeral]
  kind := nofun

-- A part of a name is a token unless the part goes on.
theorem readBefore_part {p : List Char} (h : IsNamePart p)
    (hword : Keyword.ofWord? (String.ofList p) = none)
    (hgs : ∀ last ∈ p.getLast?, ∀ g ∈ gs.head?,
      (isIdentifierPart last && g.is isIdentifierPart) = false) : ReadBefore o gs (part p) := by
  cases h with
  | @word c cs hc hcs =>
      have hkind : (part (c :: cs)).kind = .identifier := if_pos (List.all_eq_true.mpr hcs)
      have hstop : ∀ g ∈ gs.head?, g.is isIdentifierPart = false := by
        intro g hg
        have hlast := hgs _ (List.getLast_mem_getLast? (List.cons_ne_nil c cs)) g hg
        rwa [hcs _ (List.getLast_mem (List.cons_ne_nil c cs)), Bool.true_and] at hlast
      have hlexeme := (word_append hcs hstop).1
      have hne : ∀ d : Char, isIdentifierStart d = false → c ≠ d := by
        rintro d hd rfl
        rw [hc] at hd
        cases hd
      refine ⟨?_, by rw [hkind]; decide⟩
      rw [hkind, glyphs]
      change ofGlyphs o ((c :: cs).map .char ++ gs) = ⟨[], .identifier, (c :: cs).map .char, []⟩
      rw [List.map_cons, List.cons_append, ofGlyphs_of_ne (hne ' ' rfl) (hne '/' rfl),
        atGlyph_of_isIdentifierStart o hc, ← List.cons_append, ← List.map_cons]
      simp only [word] at hlexeme
      simp only [word, hlexeme, Glyph.text_map_char, hword]
  | @char c hc =>
      have hkind : (part [c]).kind = .undefined := by
        simp [part, isIdentifierPart_of_isBeyondAscii hc]
      have hne : ∀ d : Char, isBeyondAscii d = false → c ≠ d := by
        rintro d hd rfl
        rw [hc] at hd
        cases hd
      refine ⟨?_, by rw [hkind]; decide⟩
      rw [hkind]
      exact (ofGlyphs_of_ne (hne ' ' rfl) (hne '/' rfl) gs).trans (atGlyph_of_isBeyondAscii o hc gs)

theorem readable_parts {ps : List (List Char)} (hparts : ∀ p ∈ ps, IsNamePart p)
    (hword : ∀ p ∈ ps, Keyword.ofWord? (String.ofList p) = none) (hsep : ps.IsChain PartsEnd)
    {ls : List Lexeme} (hls : Readable o ls) (hnext : Delimited (ls.flatMap glyphs)) :
    Readable o (ps.map part ++ ls) := by
  induction ps with
  | nil => exact hls
  | cons p ps ih =>
      have hrest := ih (fun q hq => hparts q (List.mem_cons_of_mem p hq))
        (fun q hq => hword q (List.mem_cons_of_mem p hq)) hsep.tail
      refine ⟨readBefore_part (hparts p List.mem_cons_self) (hword p List.mem_cons_self) ?_, hrest⟩
      intro last hlast g hg
      cases ps with
      | nil =>
          have hg' : g.is isIdentifierPart = false := hnext.is_eq_false rfl rfl rfl rfl g hg
          rw [hg', Bool.and_false]
      | cons q qs =>
          obtain ⟨_, hq, hsplit⟩ := (List.isChain_cons_cons.mp hsep).1
          obtain ⟨d, q, rfl⟩ := List.exists_cons_of_ne_nil hq
          obtain rfl : Glyph.char d = g := by simpa [part, glyphs] using hg
          rw [List.getLast_of_mem_getLast? hlast] at hsplit
          exact hsplit

end Lexeme

-- A name whose parts are words, none of them a keyword, or characters that are not ASCII.
structure IsSymbol (cs : List Char) : Prop where
  ne_nil : cs ≠ []
  parts : ∀ p ∈ nameParts cs, IsNamePart p
  word : ∀ p ∈ nameParts cs, Keyword.ofWord? (String.ofList p) = none

namespace Lexeme

-- The lexemes of units.
inductive InUnit : Lexeme → Prop where
  | part {p : List Char} (h : IsNamePart p) : InUnit (part p)
  | numeral {n : Nat} : InUnit (numeral n)
  | mark {l : Lexeme} (h : l ∈ [opening, closing, times, slash, caret, minus]) : InUnit l

theorem InUnit.kind {l : Lexeme} (h : l.InUnit) :
    l.kind ≠ .lineBreak ∧ l.kind ≠ .tab ∧ l.kind ≠ .endOfFile := by
  cases h with
  | part h =>
      simp only [Lexeme.part]
      split <;> simp
  | numeral => simp [Lexeme.numeral]
  | mark h =>
      simp only [List.mem_cons, List.not_mem_nil, or_false] at h
      rcases h with rfl | rfl | rfl | rfl | rfl | rfl <;> decide

theorem InUnit.chars {l : Lexeme} (h : l.InUnit) : ∀ c ∈ l.chars, c ≠ '\r' ∧ c ≠ '\n' := by
  have hne {p : Char → Bool} {c : Char} (hc : p c = true) (hr : p '\r' = false)
      (hn : p '\n' = false) : c ≠ '\r' ∧ c ≠ '\n' := by
    constructor <;> rintro rfl
    · rw [hr] at hc
      cases hc
    · rw [hn] at hc
      cases hc
  intro c hc
  cases h with
  | part h =>
      cases h with
      | word _ hds => exact hne (hds c hc) rfl rfl
      | char hd =>
          obtain rfl := List.mem_singleton.mp hc
          exact hne hd rfl rfl
  | numeral => exact hne (Nat.isDigit_of_mem_toDigits (by decide) (by decide) hc) rfl rfl
  | mark h =>
      simp only [List.mem_cons, List.not_mem_nil, or_false] at h
      rcases h with rfl | rfl | rfl | rfl | rfl | rfl <;> obtain rfl := List.mem_singleton.mp hc <;>
        decide

-- No part of a name is in a word.
def HasNoPart (w : List Lexeme) : Prop :=
  ∀ l ∈ w, l.kind ≠ .identifier ∧ l.kind ≠ .undefined

end Lexeme

namespace Grammar

-- The trees of phrases.
inductive Tree : Category → UnitExpr → Prop where
  | name {symbol : String} {span : Span} (h : IsSymbol symbol.toList) :
      Tree .atom (.name symbol span)
  | group {e : UnitExpr} (h : Tree .unit e) : Tree .atom (.group e)
  | atom {e : UnitExpr} (h : Tree .atom e) : Tree .term e
  | power {e : UnitExpr} {n : Int} (h : Tree .atom e) (hn : n.natAbs ≤ 2 ^ 31 - 1) :
      Tree .term (.pow e n)
  | term {e : UnitExpr} (h : Tree .term e) : Tree .unit e
  | mul {e f : UnitExpr} (he : Tree .unit e) (hf : Tree .term f) : Tree .unit (.mul e f)
  | div {e f : UnitExpr} (he : Tree .unit e) (hf : Tree .term f) : Tree .unit (.div e f)

end Grammar

namespace UnitExpr

open Lexeme

-- The lexemes of a number, by words.
def spellInt : Int → List (List Lexeme)
  | .ofNat n => [[numeral n]]
  | .negSucc n => [[minus], [numeral (n + 1)]]

-- The lexemes that a unit is printed with, by words.
def spelling : UnitExpr → List (List Lexeme)
  | name symbol _ => [(nameParts symbol.toList).map part]
  | mul left right => left.spelling ++ [times] :: right.spelling
  | div left right => left.spelling ++ [slash] :: right.spelling
  | pow base exponent => base.spelling ++ [caret] :: spellInt exponent
  | group inner => [opening] :: (inner.spelling ++ [[closing]])

theorem flatMap_chars_map_part (ps : List (List Char)) :
    (ps.map part).flatMap chars = ps.flatten := by
  induction ps with
  | nil => rfl
  | cons p ps ih =>
      rw [List.map_cons, List.flatMap_cons, ih]
      rfl

theorem toList_repr (n : Int) : n.repr.toList = (spellInt n).flatten.flatMap chars := by
  cases n with
  | ofNat n => simp [Int.repr, Nat.repr, spellInt, numeral]
  | negSucc n => simp [Int.repr, Nat.repr, spellInt, numeral, minus]

-- A unit is printed as it is spelled.
theorem toList_display (e : UnitExpr) : e.display.toList = e.spelling.flatten.flatMap chars := by
  induction e with
  | name symbol span => simp [display, spelling, flatMap_chars_map_part, flatten_nameParts]
  | mul l r ihl ihr => simp [display, spelling, ihl, ihr, times]
  | div l r ihl ihr => simp [display, spelling, ihl, ihr, slash]
  | pow base n ih => simp [display, spelling, ih, toList_repr, caret]
  | group inner ih => simp [display, spelling, ih, opening, closing]

theorem isChain_append_cons {ws vs : List (List Lexeme)} {w : List Lexeme} (hw : HasNoPart w)
    (hws : ws.IsChain fun a b => HasNoPart a ∨ HasNoPart b)
    (hvs : vs.IsChain fun a b => HasNoPart a ∨ HasNoPart b) :
    (ws ++ w :: vs).IsChain fun a b => HasNoPart a ∨ HasNoPart b := by
  refine List.isChain_append.mpr ⟨hws, List.isChain_cons.mpr ⟨fun v _ => .inl hw, hvs⟩, ?_⟩
  intro a _ b hb
  obtain rfl := Option.some.inj hb
  exact .inr hw

-- No name stands next to another in a spelling.
theorem isChain_spelling (e : UnitExpr) :
    e.spelling.IsChain fun a b => HasNoPart a ∨ HasNoPart b := by
  induction e with
  | name symbol span => exact List.isChain_singleton _
  | mul l r ihl ihr => exact isChain_append_cons (by simp [HasNoPart, times]) ihl ihr
  | div l r ihl ihr => exact isChain_append_cons (by simp [HasNoPart, slash]) ihl ihr
  | pow base n ih =>
      refine isChain_append_cons (by simp [HasNoPart, caret]) ih ?_
      cases n with
      | ofNat n => exact List.isChain_singleton _
      | negSucc n =>
          exact List.isChain_cons_cons.mpr
            ⟨.inl (by simp [HasNoPart, minus]), List.isChain_singleton _⟩
  | group inner ih =>
      have hclosing := isChain_append_cons (w := [Lexeme.closing])
        (by simp [HasNoPart, Lexeme.closing]) ih List.isChain_nil
      exact isChain_append_cons (by simp [HasNoPart, opening]) List.isChain_nil hclosing

end UnitExpr

namespace Grammar

open Lexeme

variable {o : LexOptions} {k : Category} {e : UnitExpr} {ls : List Lexeme}

-- A unit starts with a name or a parenthesis.
theorem Tree.exists_first (h : Tree k e) :
    ∃ l ls, e.spelling.flatten = l :: ls ∧ (l = opening ∨ ∃ p, l = part p ∧ IsNamePart p) := by
  induction h with
  | @name symbol span h =>
      have hne : nameParts symbol.toList ≠ [] := List.splitBy_ne_nil.mpr h.ne_nil
      obtain ⟨p, ps, hp⟩ := List.exists_cons_of_ne_nil hne
      refine ⟨part p, ps.map part, by simp [UnitExpr.spelling, hp], .inr ⟨p, rfl, ?_⟩⟩
      exact h.parts p (by rw [hp]; exact List.mem_cons_self)
  | group h ih => exact ⟨opening, _, rfl, .inl rfl⟩
  | atom h ih | term h ih => exact ih
  | power h hn ih | mul h hf ih | div h hf ih =>
      obtain ⟨l, ls, hl, hfirst⟩ := ih
      exact ⟨l, _, by rw [UnitExpr.spelling, List.flatten_append, hl]; rfl, hfirst⟩

-- No comment opens where a slash stands before a unit.
theorem Tree.head?_ne (h : Tree k e) (ls : List Lexeme) {c : Char} (hc : c = '/' ∨ c = '*') :
    ((e.spelling.flatten ++ ls).flatMap glyphs).head? ≠ some (.char c) := by
  obtain ⟨l, ls', hl, hfirst⟩ := h.exists_first
  rw [hl]
  rcases hfirst with rfl | ⟨p, rfl, hp⟩
  · rcases hc with rfl | rfl <;> simp [opening, glyphs]
  · cases hp with
    | word hd hds =>
        rcases hc with rfl | rfl <;> simp [part, glyphs] <;> rintro rfl <;> cases hd
    | char hd =>
        rcases hc with rfl | rfl <;> simp [part, glyphs] <;> rintro rfl <;> cases hd

theorem readable_spellInt (n : Int) (hls : Readable o ls) (hnext : Delimited (ls.flatMap glyphs)) :
    Readable o ((UnitExpr.spellInt n).flatten ++ ls) := by
  have hnumeral (m : Nat) : (numeral m).ReadBefore o (ls.flatMap glyphs) := by
    refine readBefore_numeral m (hnext.is_eq_false rfl rfl rfl rfl) ?_
      (hnext.is_eq_false rfl rfl rfl rfl)
    intro g hg
    rcases hnext g hg with rfl | rfl | rfl | rfl <;> decide
  cases n with
  | ofNat m => exact ⟨hnumeral m, hls⟩
  | negSucc m => exact ⟨readBefore_of_mem (by simp), hnumeral (m + 1), hls⟩

-- The spelling of a tree is read lexeme by lexeme, before anything that can come after it.
theorem Tree.readable (h : Tree k e) (hls : Readable o ls)
    (hnext : Delimited (ls.flatMap glyphs)) : Readable o (e.spelling.flatten ++ ls) := by
  have hmark {l : Lexeme} {ls : List Lexeme} (hl : l ∈ [closing, times, caret, slash]) :
      Delimited ((l :: ls).flatMap glyphs) := by
    simp only [List.mem_cons, List.not_mem_nil, or_false] at hl
    rcases hl with rfl | rfl | rfl | rfl <;>
      simp [Delimited, glyphs, closing, times, caret, slash]
  induction h generalizing ls with
  | @name symbol span h =>
      have hparts := readable_parts h.parts h.word (isChain_nameParts _) hls hnext
      simpa [UnitExpr.spelling] using hparts
  | group h ih =>
      have hinner := @ih (closing :: ls) ⟨readBefore_of_mem (by simp), hls⟩ (hmark (by simp))
      rw [UnitExpr.spelling, List.flatten_cons, List.flatten_append, List.append_assoc,
        List.append_assoc]
      exact ⟨readBefore_of_mem (by simp), hinner⟩
  | atom h ih | term h ih => exact ih hls hnext
  | @power e n h hn ih =>
      have hexponent := readable_spellInt n hls hnext
      have hcaret := @ih (caret :: ((UnitExpr.spellInt n).flatten ++ ls))
        ⟨readBefore_of_mem (by simp), hexponent⟩ (hmark (by simp))
      simpa [UnitExpr.spelling] using hcaret
  | @mul e f he hf ihe ihf =>
      have htimes := @ihe (times :: (f.spelling.flatten ++ ls))
        ⟨readBefore_of_mem (by simp), ihf hls hnext⟩ (hmark (by simp))
      simpa [UnitExpr.spelling] using htimes
  | @div e f he hf ihe ihf =>
      have hslash := @ihe (slash :: (f.spelling.flatten ++ ls))
        ⟨readBefore_slash (hf.head?_ne ls (.inl rfl)) (hf.head?_ne ls (.inr rfl)), ihf hls hnext⟩
        (hmark (by simp))
      simpa [UnitExpr.spelling] using hslash

theorem inUnit_of_mem_spellInt {n : Int} : ∀ w ∈ UnitExpr.spellInt n, ∀ l ∈ w, l.InUnit := by
  cases n with
  | ofNat n => simp [UnitExpr.spellInt, InUnit.numeral]
  | negSucc n =>
      have hminus : InUnit minus := .mark (by simp)
      simp [UnitExpr.spellInt, InUnit.numeral, hminus]

theorem Tree.inUnit (h : Tree k e) : ∀ w ∈ e.spelling, ∀ l ∈ w, l.InUnit := by
  have hmark {l : Lexeme} (hl : l ∈ [opening, closing, times, slash, caret, minus]) :
      ∀ l' ∈ [l], l'.InUnit := by simpa using InUnit.mark hl
  induction h with
  | @name symbol span h =>
      intro w hw l hl
      obtain rfl := List.mem_singleton.mp hw
      obtain ⟨p, hp, rfl⟩ := List.mem_map.mp hl
      exact .part (h.parts p hp)
  | group h ih =>
      refine List.forall_mem_cons.mpr ⟨hmark (by simp), List.forall_mem_append.mpr ⟨ih, ?_⟩⟩
      exact List.forall_mem_singleton.mpr (hmark (by simp))
  | atom h ih | term h ih => exact ih
  | power h hn ih =>
      exact List.forall_mem_append.mpr
        ⟨ih, List.forall_mem_cons.mpr ⟨hmark (by simp), inUnit_of_mem_spellInt⟩⟩
  | mul he hf ihe ihf | div he hf ihe ihf =>
      exact List.forall_mem_append.mpr ⟨ihe, List.forall_mem_cons.mpr ⟨hmark (by simp), ihf⟩⟩

end Grammar

end UnitCalc
