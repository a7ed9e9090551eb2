import Mathlib.Algebra.Ring.Int.Defs
import UnitCalc.Prompt.Continuation
import UnitCalc.Proofs.Token.Seam
import UnitCalc.Proofs.Token.Tiling

namespace UnitCalc

-- How many more parentheses a token opens than it closes.
def TokenKind.nesting : TokenKind → Int
  | opening .round => 1
  | closing .round => -1
  | _ => 0

def tokenNesting (ts : List Token) : Int :=
  (ts.map fun t => t.kind.nesting).sum

@[simp] theorem tokenNesting_nil : tokenNesting [] = 0 := rfl

@[simp] theorem tokenNesting_cons (t : Token) (ts : List Token) :
    tokenNesting (t :: ts) = t.kind.nesting + tokenNesting ts := by
  simp [tokenNesting]

theorem tokenNesting_append (ts us : List Token) :
    tokenNesting (ts ++ us) = tokenNesting ts + tokenNesting us := by
  simp [tokenNesting]

namespace Prompt

variable {comments : Bool} {depth : Int} {cs rest : List Char}

def charNesting (c : Char) : Int :=
  if c = '(' then 1 else if c = ')' then -1 else 0

def textNesting (cs : List Char) : Int :=
  (cs.map charNesting).sum

@[simp] theorem textNesting_nil : textNesting [] = 0 := rfl

@[simp] theorem textNesting_cons (c : Char) (cs : List Char) :
    textNesting (c :: cs) = charNesting c + textNesting cs := by
  simp [textNesting]

theorem textNesting_eq_zero (h : ∀ c ∈ cs, charNesting c = 0) : textNesting cs = 0 := by
  induction cs with
  | nil => rfl
  | cons c cs ih =>
      have hrest := ih fun d hd => h d (List.mem_cons_of_mem c hd)
      rw [textNesting_cons, h c List.mem_cons_self, hrest]
      rfl

-- What is open at the end of a text that starts inside `depth` parentheses: whether a block
-- comment, and how many parentheses.
def leftOpen (comments : Bool) (depth : Int) (cs : List Char) : Bool × Int :=
  let (place, depth) := openAtEnd comments .code depth cs
  (place = .blockComment, depth)

@[simp] theorem leftOpen_nil : leftOpen comments depth [] = (false, depth) := by
  simp [leftOpen, openAtEnd]

theorem needsMore_iff {o : LexOptions} {source : String} :
    needsMore o source = true ↔
      (leftOpen o.comments 0 source.toList).1 = true ∨
      0 < (leftOpen o.comments 0 source.toList).2 ∨
      (Text.trimEnd source.toList).getLast? = some '\\' := by
  simp [needsMore, leftOpen, or_assoc]

theorem openAtEnd_cons {c : Char} (hslash : c ≠ '/') :
    openAtEnd comments .code depth (c :: cs) =
      openAtEnd comments .code (depth + charNesting c) cs := by
  by_cases hopen : c = '('
  · subst hopen
    rfl
  by_cases hclose : c = ')'
  · subst hclose
    rfl
  rw [openAtEnd]
  · simp [charNesting, hopen, hclose]
  · exact fun _ h => absurd h hslash
  · exact fun _ h => absurd h hslash
  · exact hopen
  · exact hclose

-- Without comments only parentheses count.
theorem openAtEnd_of_not_comments (depth : Int) (cs : List Char) :
    openAtEnd false .code depth cs = (.code, depth + textNesting cs) := by
  generalize hplace : Place.code = place
  fun_induction openAtEnd false place depth cs with
  | case1 place depth => simp
  | case2 | case3 | case4 => cases hplace
  | case5 depth cs ih | case6 depth cs ih =>
      rw [ih rfl]
      simp [charNesting]
  | case7 depth cs ih | case8 depth cs ih =>
      rw [ih hplace, textNesting_cons, ← Int.add_assoc]
      rfl
  | case9 depth c cs hline hblock hopen hclose ih =>
      rw [ih hplace, textNesting_cons]
      simp [charNesting, show c ≠ '(' from hopen, show c ≠ ')' from hclose]

-- A slash alone is passed like any other character.
theorem openAtEnd_slash
    (h : comments = true → ∀ cs', cs ≠ '/' :: cs' ∧ cs ≠ '*' :: cs') :
    openAtEnd comments .code depth ('/' :: cs) = openAtEnd comments .code depth cs := by
  cases comments with
  | false => simp [openAtEnd_of_not_comments, charNesting]
  | true =>
      rw [openAtEnd]
      · exact fun cs' _ hcs => (h rfl cs').1 hcs
      · exact fun cs' _ hcs => (h rfl cs').2 hcs
      · decide
      · decide

theorem openAtEnd_append (hslash : ∀ c ∈ cs, c ≠ '/') :
    openAtEnd comments .code depth (cs ++ rest) =
      openAtEnd comments .code (depth + textNesting cs) rest := by
  induction cs generalizing depth with
  | nil => simp
  | cons c cs ih =>
      rw [List.cons_append, openAtEnd_cons (hslash c List.mem_cons_self),
        ih fun d hd => hslash d (List.mem_cons_of_mem c hd), textNesting_cons, Int.add_assoc]

theorem leftOpen_slash (h : comments = true → ∀ cs', cs ≠ '/' :: cs' ∧ cs ≠ '*' :: cs') :
    leftOpen comments depth ('/' :: cs) = leftOpen comments depth cs := by
  simp only [leftOpen, openAtEnd_slash h]

theorem leftOpen_append (hslash : ∀ c ∈ cs, c ≠ '/') :
    leftOpen comments depth (cs ++ rest) = leftOpen comments (depth + textNesting cs) rest := by
  simp only [leftOpen, openAtEnd_append hslash]

theorem openAtEnd_lineComment {body : List Char} (hbody : ∀ c ∈ body, c ≠ '\r' ∧ c ≠ '\n') :
    openAtEnd comments .lineComment depth (body ++ rest) =
      openAtEnd comments .lineComment depth rest := by
  induction body with
  | nil => rfl
  | cons c body ih =>
      have hc := hbody c List.mem_cons_self
      have hbody' := ih fun d hd => hbody d (List.mem_cons_of_mem c hd)
      rw [List.cons_append, openAtEnd]
      simpa [hc.1, hc.2] using hbody'

theorem openAtEnd_blockComment {body : List Char} (hfirst : ¬ ['*', '/'] <:+: body ++ ['*']) :
    openAtEnd comments .blockComment depth (body ++ '*' :: '/' :: rest) =
      openAtEnd comments .code depth rest := by
  induction body with
  | nil => rfl
  | cons c body ih =>
      rw [List.cons_append] at hfirst
      rw [List.cons_append, openAtEnd]
      · exact ih fun h => hfirst (List.infix_cons h)
      · rintro cs rfl hcs
        apply hfirst
        apply List.IsPrefix.isInfix
        cases body with
        | nil => simp at hcs
        | cons d body =>
            obtain rfl : d = '/' := (List.cons.inj hcs).1
            exact ⟨body ++ ['*'], rfl⟩

-- A block comment that nothing ends goes on to the end of the text.
theorem openAtEnd_of_not_infix (h : ¬ ['*', '/'] <:+: cs) :
    openAtEnd comments .blockComment depth cs = (.blockComment, depth) := by
  induction cs with
  | nil => rw [openAtEnd]
  | cons c cs ih =>
      rw [openAtEnd]
      · exact ih fun hinfix => h (List.infix_cons hinfix)
      · rintro cs' rfl rfl
        exact h ⟨[], cs', rfl⟩

-- Trivia change nothing. After a line comment at the end of a text the scan is still in the
-- comment, but nothing is open.
theorem leftOpen_trivia {run : List Char} (h : Trivia comments run rest) :
    leftOpen comments depth (run ++ rest) = leftOpen comments depth rest := by
  induction h with
  | nil => rfl
  | space h ih =>
      rw [← ih, List.cons_append]
      simp only [leftOpen, openAtEnd_cons (show ' ' ≠ '/' by decide)]
      simp [charNesting]
  | @lineComment body run rest hon hbody hend h ih =>
      rw [← ih]
      subst hon
      simp only [leftOpen, List.cons_append, List.append_assoc]
      rw [openAtEnd, if_pos rfl, openAtEnd_lineComment hbody]
      cases hrest : run ++ rest with
      | nil => simp [openAtEnd]
      | cons c cs =>
          have hc : c = '\r' ∨ c = '\n' := hend c (by rw [hrest]; rfl)
          rcases hc with rfl | rfl <;> rw [openAtEnd, openAtEnd_cons (by decide)] <;>
            simp [charNesting]
  | @blockComment body run rest hon hfirst h ih =>
      rw [← ih]
      subst hon
      have hsplit : '/' :: '*' :: (body ++ '*' :: '/' :: run) ++ rest =
          '/' :: '*' :: (body ++ '*' :: '/' :: (run ++ rest)) := by simp
      simp only [leftOpen]
      rw [hsplit, openAtEnd, if_pos rfl, openAtEnd_blockComment hfirst]

end Prompt

namespace Piece

open Prompt

variable {o : LexOptions} {gs : List Glyph}

-- A character that the scan takes no notice of.
def IsPlain (c : Char) : Prop :=
  c ≠ '/' ∧ charNesting c = 0

theorem isPlain_of_isDigit {c : Char} (h : c.isDigit = true) : IsPlain c := by
  have hne {d : Char} (hd : d.isDigit = false) : c ≠ d := by
    rintro rfl
    simp [hd] at h
  exact ⟨hne rfl, by simp [charNesting, hne (d := '(') rfl, hne (d := ')') rfl]⟩

theorem isPlain_of_isIdentifierPart {c : Char} (h : isIdentifierPart c = true) : IsPlain c := by
  have hne {d : Char} (hd : isIdentifierPart d = false) : c ≠ d := by
    rintro rfl
    simp [hd] at h
  exact ⟨hne rfl, by simp [charNesting, hne (d := '(') rfl, hne (d := ')') rfl]⟩

theorem isPlain_of_form {cs : List Char} (h : Number.Form cs) : ∀ c ∈ cs, IsPlain c := by
  intro c hc
  rcases h.isDigit_or_mem c hc with hdigit | hmark
  · exact isPlain_of_isDigit hdigit
  · have hall : ∀ d ∈ ['.', 'e', 'E', '+', '-'], d ≠ '/' ∧ charNesting d = 0 := by
      simp [charNesting]
    exact hall c hmark

theorem nesting_mark (c : Char) (next : Option Glyph) :
    (mark c next).1.nesting = charNesting c := by
  by_cases hopen : c = '('
  · subst hopen
    rfl
  by_cases hclose : c = ')'
  · subst hclose
    rfl
  have hzero : charNesting c = 0 := by simp [charNesting, hopen, hclose]
  rw [hzero]
  unfold mark
  split
  all_goals first | contradiction | rfl | (dsimp only; split <;> rfl)

-- A token of marks has one of them, or two of which the second is plain.
theorem length_mark (c : Char) (next : Option Glyph) :
    (mark c next).2 = 1 ∨ ∃ d, next = some (.char d) ∧ IsPlain d ∧ (mark c next).2 = 2 := by
  unfold mark
  split
  all_goals try exact .inl rfl
  all_goals
    dsimp only
    split
    · rename_i hnext
      exact .inr ⟨_, hnext, ⟨by decide, rfl⟩, rfl⟩
    · exact .inl rfl

theorem textNesting_take_mark {c : Char} (r : List Glyph) (hc : c ≠ '/') :
    (∀ d ∈ (((Glyph.char c :: r).take (mark c r.head?).2).flatMap Glyph.chars), d ≠ '/') ∧
    textNesting (((Glyph.char c :: r).take (mark c r.head?).2).flatMap Glyph.chars) =
      charNesting c := by
  rcases length_mark c r.head? with hlength | ⟨d, hnext, hd, hlength⟩
  · rw [hlength]
    simp [Glyph.chars, hc]
  · obtain ⟨r, rfl⟩ := List.head?_eq_some_iff.mp hnext
    rw [hlength]
    simp [Glyph.chars, hc, hd.1, hd.2]

theorem textNesting_eq_zero_of_isPlain {cs : List Char} (h : ∀ c ∈ cs, IsPlain c) :
    (∀ c ∈ cs, c ≠ '/') ∧ textNesting cs = 0 :=
  ⟨fun c hc => (h c hc).1, textNesting_eq_zero fun c hc => (h c hc).2⟩

theorem isPlain_of_mem_lineEnding {e : LineEnding} : ∀ c ∈ e.chars, IsPlain c := by
  cases e <;> simp [LineEnding.chars, IsPlain, charNesting]

theorem isPlain_of_mem_word {gs : List Glyph} :
    ∀ c ∈ (word gs).lexeme.flatMap Glyph.chars, IsPlain c := by
  intro c hc
  obtain ⟨g, hg, hcg⟩ := List.mem_flatMap.mp hc
  have hpart : g.is isIdentifierPart = true := List.mem_takeWhile_imp hg
  cases g with
  | lineEnd e => cases hpart
  | char d =>
      obtain rfl : c = d := by simpa [Glyph.chars] using hcg
      exact isPlain_of_isIdentifierPart hpart

-- A token that stays in its line is a slash, or its text has none and nests as the token does.
theorem nesting_atGlyph (h : (atGlyph o gs).kind.StaysInLine) :
    ((atGlyph o gs).lexeme = [.char '/'] ∧ (atGlyph o gs).kind.nesting = 0) ∨
    (∀ c ∈ (atGlyph o gs).lexeme.flatMap Glyph.chars, c ≠ '/') ∧
      textNesting ((atGlyph o gs).lexeme.flatMap Glyph.chars) = (atGlyph o gs).kind.nesting := by
  have hfound := found_atGlyph o gs
  generalize atGlyph o gs = p at hfound h ⊢
  cases hfound with
  | endOfFile => exact .inr ⟨nofun, rfl⟩
  | @lineBreak e r =>
      have hplain := textNesting_eq_zero_of_isPlain (@isPlain_of_mem_lineEnding e)
      exact .inr (by simpa [Glyph.chars, TokenKind.nesting] using hplain)
  | comment hon => exact absurd rfl h.2
  | tab => exact .inr ⟨List.forall_mem_singleton.mpr (by decide), rfl⟩
  | @literal c r hon hc =>
      have hplain := h.1
      rw [kind_literal] at hplain
      cases hplain
  | @word c r hc =>
      have hkind : (word (.char c :: r)).kind.nesting = 0 := by
        rcases kind_word (.char c :: r) with hk | ⟨k, hk⟩ <;> rw [hk] <;> rfl
      rw [hkind]
      exact .inr (textNesting_eq_zero_of_isPlain isPlain_of_mem_word)
  | number hc => exact .inr (textNesting_eq_zero_of_isPlain (isPlain_of_form (form_number hc)))
  | @mark c r hword hnumber =>
      by_cases hc : c = '/'
      · subst hc
        exact .inl ⟨rfl, rfl⟩
      · obtain ⟨hslash, hnesting⟩ := textNesting_take_mark r hc
        exact .inr ⟨hslash, by rw [hnesting, nesting_mark]⟩

-- Nothing is skipped where the trivia have ended.
theorem trivia_drop_trivia (comments : Bool) (gs : List Glyph) :
    trivia comments (gs.drop (trivia comments gs).length) = [] := by
  fun_induction trivia comments gs with
  | case1 r ih => exact ih
  | case2 r hc ih => simpa using ih
  | case3 r hc => rw [List.length_nil, List.drop_zero, trivia, if_neg hc]
  | case4 r hc inside hi ih => simpa using ih
  | case5 r hc hi => rw [List.length_nil, List.drop_zero, trivia, if_pos hc, hi]
  | case6 r hc => rw [List.length_nil, List.drop_zero, trivia, if_neg hc]
  | case7 gs hspace hline hblock =>
      rw [List.length_nil, List.drop_zero, trivia]
      · exact hspace
      · exact hline
      · exact hblock

theorem blockComment?_eq_none {gs : List Glyph} (h : blockComment? gs = none) :
    ¬ ['*', '/'] <:+: gs.flatMap Glyph.chars := by
  fun_induction blockComment? gs with
  | case1 r => cases h
  | case2 g gs hg ih =>
      apply not_infix_chars_append (ih (Option.map_eq_none_iff.mp h))
      rintro rfl hslash
      obtain ⟨cs, hcs⟩ := List.head?_eq_some_iff.mp hslash
      obtain ⟨r, rfl⟩ := Glyph.exists_of_chars_eq_cons hcs (by decide)
      exact hg r rfl rfl
  | case3 => simp

end Piece

namespace Cursor

open Prompt

variable {o : LexOptions} {c : Cursor}

-- The glyphs where the next token is.
def atToken (o : LexOptions) (c : Cursor) : List Glyph :=
  c.rest.drop (Piece.trivia o.comments c.rest).length

theorem leftOpen_atToken (hproper : ∀ g ∈ c.rest, g.Proper) (depth : Int) :
    leftOpen o.comments depth (c.rest.flatMap Glyph.chars) =
      leftOpen o.comments depth ((c.atToken o).flatMap Glyph.chars) := by
  have htrivia := List.prefix_iff_eq_append.mp (Piece.trivia_isPrefix o.comments c.rest)
  rw [atToken, ← leftOpen_trivia (Piece.trivia_run o.comments hproper), ← List.flatMap_append,
    htrivia]

theorem kind_read (o : LexOptions) (c : Cursor) :
    (c.read o).1.kind = (Piece.atGlyph o (c.atToken o)).kind := by
  rw [read_eq o c rfl]
  rfl

-- No comment opens at a token, unless it has no end.
theorem atToken_ne_comment (h : (c.read o).1.kind.StaysInLine) (hon : o.comments = true)
    (r : List Glyph) :
    c.atToken o ≠ .char '/' :: .char '/' :: r ∧ c.atToken o ≠ .char '/' :: .char '*' :: r := by
  have hempty : Piece.trivia o.comments (c.atToken o) = [] := Piece.trivia_drop_trivia _ _
  constructor
  · intro hline
    rw [hline, hon, Piece.trivia, if_pos rfl] at hempty
    cases hempty
  · rw [read_eq o c rfl] at h
    exact Piece.closed_of_staysInLine h hon r

theorem atToken_eq_append (h : (c.read o).1.kind.StaysInLine) :
    c.atToken o = (Piece.atGlyph o (c.atToken o)).lexeme ++ (c.read o).2.rest := by
  rw [kind_read] at h
  obtain ⟨hskipped, hclosing⟩ := (Piece.fits_atGlyph o (c.atToken o)).of_not_isQuoted h.1
  have hprefix := List.prefix_iff_eq_append.mp (Piece.fits_atGlyph o (c.atToken o)).glyphs_isPrefix
  simp only [Piece.glyphs, hskipped, hclosing, List.nil_append, List.append_nil] at hprefix
  have hrest : (c.read o).2.rest =
      (c.atToken o).drop (Piece.atGlyph o (c.atToken o)).lexeme.length := by
    rw [read_eq o c rfl]
    simp only [atToken] at hskipped hclosing ⊢
    simp [Piece.ofGlyphs, Piece.glyphs, hskipped, hclosing, List.drop_drop]
  rw [hrest, hprefix]

-- A token that stays in its line counts by what it opens or closes.
theorem leftOpen_read (hproper : ∀ g ∈ c.rest, g.Proper) (h : (c.read o).1.kind.StaysInLine)
    (depth : Int) :
    leftOpen o.comments depth (c.rest.flatMap Glyph.chars) =
      leftOpen o.comments (depth + (c.read o).1.kind.nesting)
        ((c.read o).2.rest.flatMap Glyph.chars) := by
  have hkind := h
  have hcomment := atToken_ne_comment h
  have hsplit := congrArg (List.flatMap Glyph.chars) (atToken_eq_append h)
  rw [List.flatMap_append] at hsplit
  rw [kind_read] at hkind
  rw [leftOpen_atToken hproper, kind_read]
  rcases Piece.nesting_atGlyph hkind with ⟨hlexeme, hnesting⟩ | ⟨hslash, hnesting⟩
  · rw [hsplit, hlexeme, hnesting, Int.add_zero]
    apply leftOpen_slash
    rintro hon cs
    have hlone := hcomment hon
    rw [atToken_eq_append h, hlexeme] at hlone
    constructor <;> intro hcs <;>
      obtain ⟨r, hr⟩ := Glyph.exists_of_chars_eq_cons hcs (by decide) <;>
      simp [hr] at hlone
  · rw [hsplit, leftOpen_append hslash, hnesting]

theorem leftOpen_read_endOfFile (hproper : ∀ g ∈ c.rest, g.Proper)
    (h : (c.read o).1.kind = .endOfFile) (depth : Int) :
    leftOpen o.comments depth (c.rest.flatMap Glyph.chars) = (false, depth) := by
  have hplain : (c.read o).1.kind.StaysInLine := by
    rw [h]
    decide
  rw [leftOpen_read hproper hplain, (read_of_endOfFile h).1, h]
  simp [TokenKind.nesting]

theorem leftOpen_read_comment (hproper : ∀ g ∈ c.rest, g.Proper)
    (h : (c.read o).1.kind = .fault .unterminatedComment) (depth : Int) :
    leftOpen o.comments depth (c.rest.flatMap Glyph.chars) = (true, depth) := by
  rw [kind_read] at h
  obtain ⟨hon, r, hr⟩ := Piece.exists_of_unterminatedComment h
  have hempty : Piece.trivia o.comments (c.atToken o) = [] := Piece.trivia_drop_trivia _ _
  have hnone : Piece.blockComment? r = none := by
    rw [hr, hon, Piece.trivia, if_pos rfl] at hempty
    cases hinside : Piece.blockComment? r with
    | none => rfl
    | some inside => simp [hinside] at hempty
  have hbody :
      openAtEnd true .blockComment depth (r.flatMap Glyph.chars) = (.blockComment, depth) :=
    openAtEnd_of_not_infix (Piece.blockComment?_eq_none hnone)
  rw [leftOpen_atToken hproper, hr, hon]
  simp only [leftOpen, List.flatMap_cons, Glyph.chars, List.cons_append, List.nil_append]
  rw [openAtEnd, if_pos rfl, hbody]
  simp

-- The scan of a text, carried on from one of its tokens.
theorem exists_leftOpen_of_tokens_eq_append {ts us : List Token} {t : Token}
    (hproper : ∀ g ∈ c.rest, g.Proper) (h : c.tokens o = ts ++ t :: us)
    (hts : ∀ u ∈ ts, u.kind.StaysInLine) (depth : Int) :
    ∃ c' : Cursor, (∀ g ∈ c'.rest, g.Proper) ∧ (c'.read o).1 = t ∧
      leftOpen o.comments depth (c.rest.flatMap Glyph.chars) =
        leftOpen o.comments (depth + tokenNesting ts) (c'.rest.flatMap Glyph.chars) := by
  induction ts generalizing c depth with
  | nil =>
      refine ⟨c, hproper, ?_, by simp⟩
      rw [tokens] at h
      split at h <;> exact (List.cons.inj h).1
  | cons u ts ih =>
      rw [tokens] at h
      split at h
      · simp at h
      obtain ⟨rfl, hrest⟩ := List.cons.inj h
      have hread := leftOpen_read hproper (hts _ List.mem_cons_self) depth
      obtain ⟨c', hproper', ht, hscan⟩ := ih (proper_read hproper) hrest
        (fun v hv => hts v (List.mem_cons_of_mem _ hv)) (depth + (c.read o).1.kind.nesting)
      refine ⟨c', hproper', ht, ?_⟩
      rw [hread, hscan, tokenNesting_cons, Int.add_assoc]

end Cursor

end UnitCalc
